/-
Module: StoragePlatform.Store.Paths
Purpose: `NormalizePath` (internal/store/files.go) with the `strings` and `path`
  functions it calls.
Trusted boundary: human-reviewed spec
Main exports: PathChar, GoChar, GoString, trimSpace, pathClean, normalizePath
-/
import StoragePlatform.Store.Schema

namespace StoragePlatform

/-- `unicode.IsSpace`, the set `strings.TrimSpace` cuts. -/
def isSpace (c : Char) : Bool :=
  let n := c.toNat
  (9 ≤ n ∧ n ≤ 13) ∨ n = 32 ∨ n = 133 ∨ n = 160 ∨ n = 5760 ∨ (8192 ≤ n ∧ n ≤ 8202) ∨
    n = 8232 ∨ n = 8233 ∨ n = 8239 ∨ n = 8287 ∨ n = 12288

/-- What a string is read by: the characters there are, and which of them are space. -/
class PathChar (α : Type) where
  ofChar : Char → α
  space : α → Bool
  ofChar_injective : Function.Injective ofChar
  space_ofChar : ∀ c, space (ofChar c) = isSpace c

/-- A column of the database has characters only. -/
instance : PathChar Char where
  ofChar := id
  space := isSpace
  ofChar_injective := Function.injective_id
  space_ofChar _ := rfl

/-- `utf8.DecodeRune`: a character, or a byte that begins none.  UTF-8 can be read from either
end with the same result, so the cuts from the left and from the right see one sequence. -/
inductive GoChar where
  | rune (c : Char)
  | invalid (byte : UInt8)
deriving DecidableEq, Repr

/-- A string of Go, which need not be UTF-8. -/
abbrev GoString := List GoChar

instance : PathChar GoChar where
  ofChar := .rune
  space
    | .rune c => isSpace c
    | .invalid _ => false
  ofChar_injective _ _ same := GoChar.rune.inj same
  space_ofChar _ := rfl

section Paths

variable {α : Type} [DecidableEq α] [PathChar α]

def slash : α := PathChar.ofChar '/'

def dot : α := PathChar.ofChar '.'

def nul : α := PathChar.ofChar (Char.ofNat 0)

/-- `strings.TrimRight` with a set of characters. -/
def trimRight (cut : α → Bool) (p : List α) : List α :=
  (p.reverse.dropWhile cut).reverse

/-- `strings.TrimSpace`. -/
def trimSpace (p : List α) : List α :=
  trimRight PathChar.space (p.dropWhile PathChar.space)

/-- One element of `path.Clean`, on the stack of elements kept so far (the last
one first).  `..` removes the element before it, is dropped at the root, and is
kept at the start of a relative path. -/
def cleanElement (rooted : Bool) (kept : List (List α)) (element : List α) : List (List α) :=
  if element = [] ∨ element = [dot] then kept
  else if element = [dot, dot] then
    match kept with
    | [] => if rooted then [] else [element]
    | last :: rest => if last = [dot, dot] then element :: kept else rest
  else element :: kept

/-- `path.Clean`. -/
def pathClean (p : List α) : List α :=
  let rooted : Bool := p.head? = some slash
  let kept := (p.splitOn slash).foldl (cleanElement rooted) []
  let joined := [slash].intercalate kept.reverse
  if rooted then slash :: joined
  else if joined = [] then [dot] else joined

/-- `NormalizePath`.  Each refusal wraps `ErrInvalid`. -/
def normalizePath (raw : List α) : Except StoreErr (List α) :=
  let p := trimSpace raw
  if p = [] ∨ p.head? ≠ some slash then .error .invalid
  else if nul ∈ p then .error .invalid
  else
    let trimmed := trimRight (fun c => c = slash) p
    if trimmed = [] then .error .invalid
    else
      let cleaned := pathClean trimmed
      if cleaned ≠ trimmed then .error .invalid else .ok cleaned

end Paths

/-- Underscore, percent and backslash are ordinary path characters. -/
example : (normalizePath ['/', 'a', '_', '%', '\\', '/']).toOption =
    some ['/', 'a', '_', '%', '\\'] := by decide

example : (normalizePath ['/', 'a', '/', '.', '.', '/', 'b']).toOption = none := by decide

end StoragePlatform
