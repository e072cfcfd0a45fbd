/-
Module: StoragePlatform.Lib.Like
Purpose: SQL LIKE with the default escape character, and the patterns for which
  it is a plain test for a leading segment.
Trusted boundary: human-reviewed spec
Main exports: LikeToken, matchTokens, likeTokens, like, like_stem_iff
-/
import Mathlib.Data.List.Infix

namespace StoragePlatform.Lib

/-- One element of a LIKE pattern: a literal character, `_` or `%`. -/
inductive LikeToken (α : Type*) where
  | lit (a : α)
  | one
  | many
deriving DecidableEq, Repr

section Tokens

variable {α : Type*} [DecidableEq α]

/-- The whole string matches the whole pattern. -/
def matchTokens : List (LikeToken α) → List α → Bool
  | [], s => s.isEmpty
  | .lit a :: tokens, s =>
    match s with
    | [] => false
    | x :: rest => x = a && matchTokens tokens rest
  | .one :: tokens, s =>
    match s with
    | [] => false
    | _ :: rest => matchTokens tokens rest
  | .many :: tokens, s => s.tails.any fun rest => matchTokens tokens rest

theorem matchTokens_many_nil (s : List α) : matchTokens [.many] s = true := by
  simp only [matchTokens, List.any_eq_true]
  exact ⟨[], by simp⟩

/-- Literals followed by one `%` match exactly the strings they begin. -/
theorem matchTokens_stem (stem s : List α) :
    matchTokens (stem.map .lit ++ [.many]) s = true ↔ stem <+: s := by
  induction stem generalizing s with
  | nil => simpa using matchTokens_many_nil s
  | cons a stem ih =>
    cases s with
    | nil => simp [matchTokens]
    | cons x rest =>
      simp only [List.map_cons, List.cons_append, matchTokens, Bool.and_eq_true,
        decide_eq_true_eq, ih, List.cons_prefix_cons]
      exact and_congr_left fun _ => eq_comm

end Tokens

/-- Reading a pattern text.  A backslash makes the next character a literal.  The
text of a pattern never ends in a lone backslash here: every pattern the access
layer builds ends in `%`. -/
def likeTokens : List Char → List (LikeToken Char)
  | [] => []
  | c :: rest =>
    if c = '\\' then
      match rest with
      | [] => [.lit c]
      | d :: rest => .lit d :: likeTokens rest
    else if c = '%' then .many :: likeTokens rest
    else if c = '_' then .one :: likeTokens rest
    else .lit c :: likeTokens rest

/-- `s LIKE pattern`. -/
def like (pattern s : List Char) : Bool :=
  matchTokens (likeTokens pattern) s

/-- The characters LIKE does not read as themselves. -/
def likeMeta (c : Char) : Bool :=
  c = '\\' ∨ c = '%' ∨ c = '_'

/-- A character that is no metacharacter is read as itself. -/
theorem likeTokens_cons {c : Char} (plain : likeMeta c = false) (rest : List Char) :
    likeTokens (c :: rest) = .lit c :: likeTokens rest := by
  have notMeta : ¬ c = '\\' ∧ ¬ c = '%' ∧ ¬ c = '_' := by simpa [likeMeta] using plain
  cases rest <;> simp [likeTokens, notMeta]

theorem likeTokens_append {stem : List Char} (plain : ∀ c ∈ stem, likeMeta c = false)
    (rest : List Char) : likeTokens (stem ++ rest) = stem.map .lit ++ likeTokens rest := by
  induction stem with
  | nil => rfl
  | cons c stem ih =>
    have tail := ih fun d member => plain d (by simp [member])
    rw [List.cons_append, likeTokens_cons (plain c (by simp)), tail]
    rfl

/-- A stem without metacharacters, followed by `%`, matches exactly the strings
it begins. -/
theorem like_stem_iff {stem : List Char} (plain : ∀ c ∈ stem, likeMeta c = false)
    (s : List Char) : like (stem ++ ['%']) s = true ↔ stem <+: s := by
  have percent : likeTokens ['%'] = [.many] := by decide
  rw [like, likeTokens_append plain, percent, matchTokens_stem]

/-- An underscore in the pattern stands for any character. -/
example : like ['a', '_', '/', '%'] ['a', 'x', '/', 'f'] = true := by decide

/-- A backslash in the pattern is not matched by a backslash. -/
example : like ['a', '\\', 'b', '/', '%'] ['a', '\\', 'b', '/', 'f'] = false := by decide

end StoragePlatform.Lib
