/-
Module: StoragePlatform.Lib.Word64
Purpose: Sums, products and quotients of signed 64-bit words, compared with the
  unbounded ones.
Trusted boundary: none
Main exports: InInt64, toInt_mul_of_inInt64, toInt_div_of_pos, wrapped_scaled_eq_iff
-/
import Mathlib.Data.Int.Basic
import Mathlib.Tactic.Linarith

namespace StoragePlatform.Lib

/-!
A product of two words is reduced to the range of the word before it is divided.
When the unbounded product leaves the range the reduced one is smaller by a
multiple of `2 ^ 64`, and division by anything far below `2 ^ 64` cannot hide that.
-/

/-- The number is the value of a signed word. -/
def InInt64 (n : Int) : Prop := -2 ^ 63 ≤ n ∧ n < 2 ^ 63
deriving Decidable

theorem bmod_eq_of_inInt64 {n : Int} (fits : InInt64 n) : n.bmod (2 ^ 64) = n := by
  obtain ⟨low, high⟩ := fits
  apply Int.bmod_eq_of_le
  · simpa using low
  · simpa using high

theorem toInt_ofInt_of_inInt64 {n : Int} (fits : InInt64 n) : (Int64.ofInt n).toInt = n :=
  Int64.toInt_ofInt.trans (bmod_eq_of_inInt64 fits)

theorem inInt64_toInt (a : Int64) : InInt64 a.toInt := ⟨a.le_toInt, a.toInt_lt⟩

theorem inInt64_of_nonneg {n : Int} (nonneg : 0 ≤ n) (small : n < 2 ^ 63) : InInt64 n :=
  ⟨by omega, small⟩

theorem tdiv_nonpos {a d : Int} (nonpos : a ≤ 0) (pos : 0 < d) : a.tdiv d ≤ 0 := by
  have := Int.tdiv_nonneg (neg_nonneg.mpr nonpos) pos.le
  rw [Int.neg_tdiv] at this
  omega

theorem tdiv_tdiv_of_pos (a : Int) {c : Int} (pos : 0 < c) (d : Int) :
    (a.tdiv c).tdiv d = a.tdiv (c * d) := by
  have nonneg : ∀ {b : Int}, 0 ≤ b → (b.tdiv c).tdiv d = b.tdiv (c * d) := by
    intro b up
    rw [Int.tdiv_eq_ediv_of_nonneg up, Int.tdiv_eq_ediv_of_nonneg (Int.ediv_nonneg up pos.le),
      Int.tdiv_eq_ediv_of_nonneg up, Int.ediv_ediv_of_nonneg pos.le]
  rcases Int.le_total 0 a with up | down
  · exact nonneg up
  · have flipped := nonneg (neg_nonneg.mpr down)
    rw [Int.neg_tdiv, Int.neg_tdiv, Int.neg_tdiv] at flipped
    exact neg_injective flipped

/-- Division by a positive word never leaves the range. -/
theorem toInt_div_of_pos (a : Int64) {d : Int64} (pos : 0 < d.toInt) :
    (a / d).toInt = a.toInt.tdiv d.toInt := by
  obtain ⟨low, high⟩ := inInt64_toInt a
  rw [Int64.toInt_div]
  apply bmod_eq_of_inInt64
  have bound := Int.natAbs_tdiv_le_natAbs a.toInt d.toInt
  rcases Int.le_total 0 a.toInt with nonneg | neg
  · have := Int.tdiv_nonneg nonneg pos.le
    constructor <;> omega
  · have := tdiv_nonpos neg pos
    constructor <;> omega

theorem toInt_mul_of_inInt64 {a b : Int64} (fits : InInt64 (a.toInt * b.toInt)) :
    (a * b).toInt = a.toInt * b.toInt := by
  rw [Int64.toInt_mul, bmod_eq_of_inInt64 fits]

/-- A running sum of words is the unbounded sum, reduced once. -/
theorem toInt_sum (words : List Int64) :
    words.sum.toInt = (words.map Int64.toInt).sum.bmod (2 ^ 64) := by
  induction words with
  | nil => rfl
  | cons w words ih =>
    rw [List.sum_cons, List.map_cons, List.sum_cons, Int64.toInt_add, ih, Int.add_bmod_bmod]

theorem sum_eq_zero_iff_dvd (words : List Int64) :
    words.sum = 0 ↔ (2 ^ 64 : Int) ∣ (words.map Int64.toInt).sum := by
  rw [← Int64.toInt_inj, toInt_sum]
  exact Int.dvd_iff_bmod_eq_zero.symm

theorem inInt64_bmod (p : Int) : InInt64 (p.bmod (2 ^ 64)) := by
  have low := @Int.le_bmod p (2 ^ 64) (by decide)
  have high := @Int.bmod_lt p (2 ^ 64) (by decide)
  constructor <;> omega

/-- A quotient of a word is small when the divisor is large. -/
theorem tdiv_bounds {w d k : Int} (word : InInt64 w) (pos : 0 < d) (large : 2 ^ 63 ≤ k * d) :
    -k ≤ w.tdiv d ∧ w.tdiv d ≤ k := by
  have below : ∀ {v : Int}, 0 ≤ v → v ≤ 2 ^ 63 → v.tdiv d ≤ k := by
    intro v up small
    rw [Int.tdiv_eq_ediv_of_nonneg up]
    exact Int.ediv_le_of_le_mul pos (small.trans large)
  obtain ⟨low, high⟩ := word
  rcases Int.le_total 0 w with up | down
  · have := Int.tdiv_nonneg up pos.le
    have := below up high.le
    omega
  · have := tdiv_nonpos down pos
    have flipped := below (neg_nonneg.mpr down) (by omega)
    rw [Int.neg_tdiv] at flipped
    omega

section Wrapped

variable {p d r k : Int}

/-- A number past the range is reduced by at least the size of the word. -/
theorem bmod_le_sub (large : 2 ^ 63 ≤ p) : p.bmod (2 ^ 64) ≤ p - 2 ^ 64 := by
  have small := (inInt64_bmod p).2
  have same : p.bmod (2 ^ 64) % (2 ^ 64) = p % (2 ^ 64) := by
    exact_mod_cast @Int.bmod_emod p (2 ^ 64)
  omega

/-- What is reduced away survives division by a small divisor. -/
theorem wrapped_tdiv_gap (large : 2 ^ 63 ≤ p) (pos : 0 < d) (few : k * d ≤ 2 ^ 63) :
    (0 ≤ (p.bmod (2 ^ 64)).tdiv d ∧ (p.bmod (2 ^ 64)).tdiv d + k ≤ p / d) ∨
      ((p.bmod (2 ^ 64)).tdiv d ≤ 0 ∧ k ≤ p / d) := by
  rcases Int.le_total 0 (p.bmod (2 ^ 64)) with nonneg | neg
  · left
    refine ⟨Int.tdiv_nonneg nonneg pos.le, ?_⟩
    rw [Int.tdiv_eq_ediv_of_nonneg nonneg, ← Int.add_mul_ediv_right _ _ pos.ne']
    apply Int.ediv_le_ediv pos
    have := bmod_le_sub large
    omega
  · right
    refine ⟨tdiv_nonpos neg pos, ?_⟩
    rw [Int.le_ediv_iff_mul_le pos]
    omega

/-- The quotient of a wrapped product is the exact one only if nothing wrapped. -/
theorem wrapped_tdiv_eq_iff (nonneg : 0 ≤ p) (pos : 0 < d) (small : d ≤ 2 ^ 63) :
    (p.bmod (2 ^ 64)).tdiv d = p / d ↔ p < 2 ^ 63 := by
  constructor
  · intro exact_
    by_contra large
    rcases wrapped_tdiv_gap (k := 1) (not_lt.mp large) pos (by omega) with gap | gap
    · omega
    · omega
  · intro fits
    rw [bmod_eq_of_inInt64 (inInt64_of_nonneg nonneg fits), Int.tdiv_eq_ediv_of_nonneg nonneg]

/-- The same after scaling by `r` in units of `k`, unless `r` is zero. -/
theorem wrapped_scaled_eq_iff (nonneg : 0 ≤ p) (pos : 0 < d) (unit : 0 < k)
    (few : k * d ≤ 2 ^ 63) (scale : 0 ≤ r) :
    ((p.bmod (2 ^ 64)).tdiv d * r).tdiv k = p / d * r / k ↔ p < 2 ^ 63 ∨ r = 0 := by
  constructor
  · intro exact_
    by_contra neither
    obtain ⟨large, scaled⟩ := not_or.mp neither
    have one : 1 ≤ r := by omega
    rcases wrapped_tdiv_gap (not_lt.mp large) pos few with ⟨up, gap⟩ | ⟨down, gap⟩
    · have apart : (p.bmod (2 ^ 64)).tdiv d * r + k ≤ p / d * r := by nlinarith
      have more := Int.ediv_le_ediv unit apart
      rw [Int.add_ediv_of_dvd_right (Int.dvd_refl k), Int.ediv_self unit.ne'] at more
      rw [Int.tdiv_eq_ediv_of_nonneg (Int.mul_nonneg up scale)] at exact_
      omega
    · have wrapped := tdiv_nonpos (Int.mul_nonpos_of_nonpos_of_nonneg down scale) unit
      have exact_pos : 1 ≤ p / d * r / k := by
        rw [Int.le_ediv_iff_mul_le unit]
        nlinarith
      omega
  · rintro (fits | rfl)
    · rw [(wrapped_tdiv_eq_iff nonneg pos (by nlinarith)).mpr fits]
      exact Int.tdiv_eq_ediv_of_nonneg (Int.mul_nonneg (Int.ediv_nonneg nonneg pos.le) scale)
    · simp

end Wrapped

end StoragePlatform.Lib
