/-
Module: StoragePlatform.Lib.Bytes
Purpose: Byte strings: big-endian integers, hexadecimal and unpadded URL-safe
  base64.
Trusted boundary: human-reviewed spec
Main exports: bytesBE, natBE, toUint64, toInt64, encodeHex, decodeBase64_encodeBase64
-/
import Mathlib.Algebra.Order.Ring.Int
import Mathlib.Data.List.Basic
import Mathlib.Data.List.Induction

namespace StoragePlatform.Lib

open List

/-! ### Big-endian integers -/

/-- The low `width` bytes of `n`, most significant first. -/
def bytesBE : Nat → Nat → List UInt8
  | 0, _ => []
  | width + 1, n => bytesBE width (n / 256) ++ [UInt8.ofNat (n % 256)]

@[simp] theorem length_bytesBE (width n : Nat) : (bytesBE width n).length = width := by
  induction width generalizing n with
  | zero => rfl
  | succ width ih => simp [bytesBE, ih]

/-- The number a byte string denotes, most significant byte first. -/
def natBE (bytes : List UInt8) : Nat :=
  bytes.foldl (fun acc b => acc * 256 + b.toNat) 0

theorem natBE_append_singleton (bytes : List UInt8) (b : UInt8) :
    natBE (bytes ++ [b]) = natBE bytes * 256 + b.toNat := by
  simp [natBE]

theorem natBE_bytesBE (width n : Nat) : natBE (bytesBE width n) = n % 256 ^ width := by
  induction width generalizing n with
  | zero =>
    have : n % 1 = 0 := Nat.mod_one n
    simpa [bytesBE, natBE] using this.symm
  | succ width ih =>
    have lastByte : (UInt8.ofNat (n % 256)).toNat = n % 256 := by simp
    have split : n % (256 * 256 ^ width) = n % 256 + 256 * (n / 256 % 256 ^ width) :=
      Nat.mod_mul
    simp only [bytesBE, natBE_append_singleton, ih, lastByte]
    rw [show 256 ^ (width + 1) = 256 * 256 ^ width from Nat.pow_succ', split]
    omega

theorem natBE_lt (bytes : List UInt8) : natBE bytes < 256 ^ bytes.length := by
  induction bytes using List.reverseRecOn with
  | nil => simp [natBE]
  | append_singleton front b ih =>
    have digit : b.toNat < 256 := b.toNat_lt
    rw [natBE_append_singleton, length_append, length_singleton, Nat.pow_succ]
    omega

/-- Numbers that fit are told apart by their bytes. -/
theorem bytesBE_inj {width n m : Nat} (fits : n < 256 ^ width) (fits' : m < 256 ^ width)
    (same : bytesBE width n = bytesBE width m) : n = m := by
  have values := congrArg natBE same
  rwa [natBE_bytesBE, natBE_bytesBE, Nat.mod_eq_of_lt fits, Nat.mod_eq_of_lt fits'] at values

/-- Reading bytes as a number loses nothing. -/
theorem bytesBE_natBE (bytes : List UInt8) : bytesBE bytes.length (natBE bytes) = bytes := by
  induction bytes using List.reverseRecOn with
  | nil => rfl
  | append_singleton front b ih =>
    have digit : b.toNat < 256 := b.toNat_lt
    have high : (natBE front * 256 + b.toNat) / 256 = natBE front := by omega
    have low : (natBE front * 256 + b.toNat) % 256 = b.toNat := by omega
    rw [natBE_append_singleton, length_append, length_singleton, bytesBE, high, low,
      ih, UInt8.ofNat_toNat]

/-- A signed 64-bit value read as an unsigned one: two's complement. -/
def toUint64 (x : Int) : Nat := (x % 2 ^ 64).toNat

/-- The inverse of `toUint64` on 64-bit values. -/
def toInt64 (n : Nat) : Int := if n < 2 ^ 63 then n else (n : Int) - 2 ^ 64

theorem toInt64_toUint64 {x : Int} (low : -2 ^ 63 ≤ x) (high : x < 2 ^ 63) :
    toInt64 (toUint64 x) = x := by
  rw [toInt64, toUint64]
  by_cases small : (x % 2 ^ 64).toNat < 2 ^ 63
  · rw [if_pos small]
    omega
  · rw [if_neg small]
    omega

theorem toUint64_toInt64 {n : Nat} (word : n < 2 ^ 64) : toUint64 (toInt64 n) = n := by
  rw [toInt64, toUint64]
  split <;> omega

/-- The conversion never makes a length longer. -/
theorem toInt64_toUint64_le {x : Int} (length : 0 ≤ x) : toInt64 (toUint64 x) ≤ x := by
  rw [toInt64, toUint64]
  split <;> omega

/-! ### Hexadecimal -/

def hexChar (digit : Nat) : Char :=
  if digit < 10 then Char.ofNat (48 + digit) else Char.ofNat (87 + digit)

/-- Both cases are read. -/
def hexDigit (c : Char) : Option Nat :=
  let code := c.toNat
  if 48 ≤ code ∧ code ≤ 57 then some (code - 48)
  else if 97 ≤ code ∧ code ≤ 102 then some (code - 87)
  else if 65 ≤ code ∧ code ≤ 70 then some (code - 55)
  else none

def encodeHex : List UInt8 → List Char
  | [] => []
  | b :: rest => hexChar (b.toNat / 16) :: hexChar (b.toNat % 16) :: encodeHex rest

/-- The bytes up to the first error, and whether there was none.  An odd number of
digits is an error. -/
def readHex : List Char → List UInt8 × Bool
  | [] => ([], true)
  | [_] => ([], false)
  | a :: b :: rest =>
    match hexDigit a, hexDigit b with
    | some high, some low =>
      let later := readHex rest
      (UInt8.ofNat (high * 16 + low) :: later.1, later.2)
    | _, _ => ([], false)

def decodeHex (text : List Char) : Option (List UInt8) :=
  match readHex text with
  | (bytes, true) => some bytes
  | (_, false) => none

theorem hexDigit_hexChar {digit : Nat} (fits : digit < 16) :
    hexDigit (hexChar digit) = some digit := by
  revert digit
  decide

theorem readHex_encodeHex (bytes : List UInt8) : readHex (encodeHex bytes) = (bytes, true) := by
  induction bytes with
  | nil => rfl
  | cons b rest ih =>
    have byte := b.toNat_lt
    have high : b.toNat / 16 < 16 := by omega
    have low : b.toNat % 16 < 16 := by omega
    have whole : b.toNat / 16 * 16 + b.toNat % 16 = b.toNat := by omega
    simp only [encodeHex, readHex, hexDigit_hexChar high, hexDigit_hexChar low, ih, whole,
      UInt8.ofNat_toNat]

theorem decodeHex_encodeHex (bytes : List UInt8) : decodeHex (encodeHex bytes) = some bytes := by
  rw [decodeHex, readHex_encodeHex]

/-! ### Base64, URL alphabet, no padding -/

def base64Char (digit : Nat) : Char :=
  if digit < 26 then Char.ofNat (65 + digit)
  else if digit < 52 then Char.ofNat (97 + (digit - 26))
  else if digit < 62 then Char.ofNat (48 + (digit - 52))
  else if digit = 62 then '-'
  else '_'

def base64Digit (c : Char) : Option Nat :=
  let code := c.toNat
  if 65 ≤ code ∧ code ≤ 90 then some (code - 65)
  else if 97 ≤ code ∧ code ≤ 122 then some (code - 97 + 26)
  else if 48 ≤ code ∧ code ≤ 57 then some (code - 48 + 52)
  else if c = '-' then some 62
  else if c = '_' then some 63
  else none

/-- Three bytes become four characters; a tail of one or two bytes becomes two
or three. -/
def encodeBase64 : List UInt8 → List Char
  | [] => []
  | [a] =>
    let n := a.toNat * 16
    [base64Char (n / 64), base64Char (n % 64)]
  | [a, b] =>
    let n := (a.toNat * 256 + b.toNat) * 4
    [base64Char (n / 4096), base64Char (n / 64 % 64), base64Char (n % 64)]
  | a :: b :: c :: rest =>
    let n := (a.toNat * 256 + b.toNat) * 256 + c.toNat
    base64Char (n / 262144) :: base64Char (n / 4096 % 64) :: base64Char (n / 64 % 64) ::
      base64Char (n % 64) :: encodeBase64 rest

/-- The inverse on digits.  A tail of one digit is corrupt; the spare low bits
of a two- or three-digit tail are not looked at. -/
def decodeDigits : List Nat → Option (List UInt8)
  | [] => some []
  | [_] => none
  | [a, b] => some [UInt8.ofNat ((a * 64 + b) / 16)]
  | [a, b, c] =>
    let n := (a * 64 + b) * 64 + c
    some [UInt8.ofNat (n / 1024), UInt8.ofNat (n / 4 % 256)]
  | a :: b :: c :: d :: rest =>
    let n := ((a * 64 + b) * 64 + c) * 64 + d
    match decodeDigits rest with
    | none => none
    | some bytes =>
      some (UInt8.ofNat (n / 65536) :: UInt8.ofNat (n / 256 % 256) ::
        UInt8.ofNat (n % 256) :: bytes)

def base64Digits : List Char → Option (List Nat)
  | [] => some []
  | c :: rest =>
    match base64Digit c, base64Digits rest with
    | some digit, some digits => some (digit :: digits)
    | _, _ => none

/-- Decoding skips carriage returns and line feeds wherever they stand. -/
def decodeBase64 (text : List Char) : Option (List UInt8) :=
  match base64Digits (text.filter fun c => c ≠ '\r' ∧ c ≠ '\n') with
  | none => none
  | some digits => decodeDigits digits

theorem base64Digit_base64Char {digit : Nat} (fits : digit < 64) :
    base64Digit (base64Char digit) = some digit := by
  revert digit
  decide

/-- No digit is written as a line break or a dot. -/
theorem base64Char_ne {digit : Nat} (fits : digit < 64) :
    base64Char digit ≠ '\r' ∧ base64Char digit ≠ '\n' ∧ base64Char digit ≠ '.' := by
  revert digit
  decide

/-- An encoding is a list of digits that decodes to the bytes. -/
theorem encodeBase64_digits (bytes : List UInt8) :
    ∃ digits, encodeBase64 bytes = digits.map base64Char ∧ (∀ d ∈ digits, d < 64) ∧
      decodeDigits digits = some bytes := by
  fun_induction encodeBase64 bytes with
  | case1 => exact ⟨[], rfl, by simp, rfl⟩
  | case2 a n =>
    have byte := a.toNat_lt
    have whole : (n / 64 * 64 + n % 64) / 16 = a.toNat := by omega
    refine ⟨[n / 64, n % 64], rfl, by simp; omega, ?_⟩
    simp [decodeDigits, whole]
  | case3 a b n =>
    have byte := a.toNat_lt
    have byte' := b.toNat_lt
    have first : ((n / 4096 * 64 + n / 64 % 64) * 64 + n % 64) / 1024 = a.toNat := by omega
    have second : ((n / 4096 * 64 + n / 64 % 64) * 64 + n % 64) / 4 % 256 = b.toNat := by omega
    refine ⟨[n / 4096, n / 64 % 64, n % 64], rfl, by simp; omega, ?_⟩
    simp only [decodeDigits, first, second, UInt8.ofNat_toNat]
  | case4 a b c rest n ih =>
    obtain ⟨digits, written, small, decoded⟩ := ih
    have byte := a.toNat_lt
    have byte' := b.toNat_lt
    have byte'' := c.toNat_lt
    have whole : ((n / 262144 * 64 + n / 4096 % 64) * 64 + n / 64 % 64) * 64 + n % 64 = n := by
      omega
    have first : n / 65536 = a.toNat := by omega
    have second : n / 256 % 256 = b.toNat := by omega
    have third : n % 256 = c.toNat := by omega
    refine ⟨n / 262144 :: n / 4096 % 64 :: n / 64 % 64 :: n % 64 :: digits, ?_, ?_, ?_⟩
    · simp [written]
    · intro d member
      simp only [mem_cons] at member
      rcases member with rfl | rfl | rfl | rfl | later
      · omega
      · omega
      · omega
      · omega
      · exact small d later
    · simp only [decodeDigits, decoded, whole, first, second, third, UInt8.ofNat_toNat]

theorem base64Digits_map {digits : List Nat} (small : ∀ d ∈ digits, d < 64) :
    base64Digits (digits.map base64Char) = some digits := by
  induction digits with
  | nil => rfl
  | cons d digits ih =>
    have rest := ih fun d' later => small d' (mem_cons_of_mem _ later)
    simp only [map_cons, base64Digits, base64Digit_base64Char (small d (by simp)), rest]

theorem decodeBase64_encodeBase64 (bytes : List UInt8) :
    decodeBase64 (encodeBase64 bytes) = some bytes := by
  obtain ⟨digits, written, small, decoded⟩ := encodeBase64_digits bytes
  have kept : (digits.map base64Char).filter (fun c => c ≠ '\r' ∧ c ≠ '\n') =
      digits.map base64Char := by
    refine filter_eq_self.mpr fun c member => ?_
    obtain ⟨d, inDigits, rfl⟩ := mem_map.mp member
    have plain := base64Char_ne (small d inDigits)
    simp [plain.1, plain.2.1]
  rw [decodeBase64, written, kept, base64Digits_map small]
  exact decoded

theorem dot_not_mem_encodeBase64 (bytes : List UInt8) : '.' ∉ encodeBase64 bytes := by
  obtain ⟨digits, written, small, -⟩ := encodeBase64_digits bytes
  rw [written]
  intro member
  obtain ⟨d, inDigits, isDot⟩ := mem_map.mp member
  exact (base64Char_ne (small d inDigits)).2.2 isDot

theorem encodeBase64_ne_nil {bytes : List UInt8} (some_bytes : bytes ≠ []) :
    encodeBase64 bytes ≠ [] := by
  intro empty
  have decoded := decodeBase64_encodeBase64 bytes
  rw [empty] at decoded
  exact some_bytes (Option.some.inj decoded).symm

end StoragePlatform.Lib
