/-
Module: StoragePlatform.Proofs.Paths
Purpose: The form of a normalized path, and when normalizing it again gives it back.
Trusted boundary: none
Main exports: CanonicalPath, SpaceBeforeSlashes, canonicalPath_of_ok, pathCanonical_iff
-/
import Mathlib.Data.List.DropRight
import StoragePlatform.Store.Files

namespace StoragePlatform

open List

/-!
`NormalizePath` cuts spaces first and slashes second.  What it returns is a clean path, but
the slashes may have hidden a space, and then the path is not the one it gives for itself.
-/

/-- No element of a list that was split holds the separator. -/
theorem notMem_of_mem_splitOn {α : Type} [DecidableEq α] {a : α} {xs element : List α}
    (member : element ∈ xs.splitOn a) : a ∉ element := by
  induction xs generalizing element with
  | nil =>
    obtain rfl : element = [] := mem_singleton.mp member
    exact not_mem_nil
  | cons x xs ih =>
    rw [List.splitOn, splitOnP_cons_eq_if_modifyHead] at member
    split at member
    · rcases mem_cons.mp member with rfl | later
      · exact not_mem_nil
      · exact ih later
    · rename_i differ
      rw [beq_iff_eq] at differ
      cases elements : xs.splitOnP fun y => y == a with
      | nil =>
        rw [elements] at member
        exact absurd member not_mem_nil
      | cons first rest =>
        have inner : ∀ e ∈ first :: rest, a ∉ e := fun e found =>
          ih (by rw [List.splitOn, elements]; exact found)
        rw [elements, modifyHead_cons] at member
        rcases mem_cons.mp member with rfl | later
        · rw [mem_cons, not_or]
          exact ⟨Ne.symm differ, inner first mem_cons_self⟩
        · exact inner element (mem_cons_of_mem _ later)

theorem trimRight_append {α : Type} {cut : α → Bool} (front : List α) {tail : List α}
    (cuts : ∀ x ∈ tail, cut x = true) : trimRight cut (front ++ tail) = trimRight cut front := by
  rw [trimRight, reverse_append,
    dropWhile_append_of_pos fun x member => cuts x (mem_reverse.mp member), trimRight]

theorem trimRight_concat {α : Type} {c : α} (cut : α → Bool) (front : List α)
    (stops : cut c = false) : trimRight cut (front ++ [c]) = front ++ [c] := by
  simp [trimRight, stops]

theorem trimRight_split {α : Type} (cut : α → Bool) (p : List α) :
    ∃ tail, p = trimRight cut p ++ tail ∧ ∀ x ∈ tail, cut x = true := by
  refine ⟨(p.reverse.takeWhile cut).reverse, ?_, fun x member => ?_⟩
  · rw [trimRight, ← reverse_append, takeWhile_append_dropWhile, reverse_reverse]
  · exact mem_takeWhile_imp (mem_reverse.mp member)

section Paths

variable {α : Type} [PathChar α]

theorem space_slash : PathChar.space (slash : α) = false := PathChar.space_ofChar '/'

theorem trimSpace_sublist (p : List α) : (trimSpace p).Sublist p :=
  ( rdropWhile_prefix _ _).sublist.trans (dropWhile_sublist _)

theorem trimSpace_eq_self {q : List α} (rooted : q.head? = some slash) :
    trimSpace q = q ↔ ∀ c ∈ q.getLast?, PathChar.space c = false := by
  have left : q.dropWhile PathChar.space = q := by
    cases q with
    | nil => rfl
    | cons c q =>
      obtain rfl : c = slash := Option.some.inj rooted
      exact dropWhile_cons_of_neg (by rw [space_slash]; exact Bool.false_ne_true)
  rw [trimSpace, left]
  refine (rdropWhile_eq_self_iff).trans ⟨?_, ?_⟩
  · intro stop c last
    have nonempty : q ≠ [] := by
      rintro rfl
      cases last
    rw [getLast?_eq_some_getLast nonempty, Option.mem_some_iff] at last
    rw [← last]
    exact Bool.eq_false_of_not_eq_true (stop nonempty)
  · intro stop nonempty
    rw [stop _ (getLast?_eq_some_getLast nonempty)]
    exact Bool.false_ne_true

variable [DecidableEq α] {raw q : List α}

/-! ### What is accepted -/

theorem normalizePath_ok : normalizePath raw = .ok q ↔
    (trimSpace raw).head? = some slash ∧ nul ∉ trimSpace raw ∧
      trimRight (fun c => c = slash) (trimSpace raw) = q ∧ q ≠ [] ∧ pathClean q = q := by
  simp only [normalizePath, Lib.refuse_eq_ok, not_or, not_not, Except.ok.injEq]
  constructor
  · rintro ⟨⟨-, rooted⟩, text, below, clean, rfl⟩
    rw [clean]
    exact ⟨rooted, text, rfl, below, clean⟩
  · rintro ⟨rooted, text, rfl, below, clean⟩
    have some_char : trimSpace raw ≠ [] := by
      intro none
      rw [none] at rooted
      cases rooted
    exact ⟨⟨some_char, rooted⟩, text, below, clean, clean⟩

/-! ### Clean paths -/

/-- An element that `path.Clean` keeps as it stands. -/
structure PlainElement (element : List α) : Prop where
  nonempty : element ≠ []
  notHere : element ≠ [dot]
  notUp : element ≠ [dot, dot]
  within : slash ∉ element

theorem cleanElement_plain {kept : List (List α)} {element : List α}
    (plain : ∀ k ∈ kept, PlainElement k) (within : slash ∉ element) :
    ∀ k ∈ cleanElement true kept element, PlainElement k := by
  rw [cleanElement.eq_def]
  split
  · exact plain
  · rename_i other
    rw [not_or] at other
    split
    · -- `..` at the root is dropped, and below it takes an element away
      cases kept with
      | nil => exact fun k member => absurd member not_mem_nil
      | cons last rest =>
        obtain ⟨plainLast, plainRest⟩ := forall_mem_cons.mp plain
        dsimp only
        rw [if_neg plainLast.notUp]
        exact plainRest
    · rename_i notUp
      exact forall_mem_cons.mpr ⟨⟨other.1, other.2, notUp, within⟩, plain⟩

theorem foldl_cleanElement_plain {elements kept : List (List α)}
    (plain : ∀ k ∈ kept, PlainElement k) (within : ∀ e ∈ elements, slash ∉ e) :
    ∀ k ∈ elements.foldl (cleanElement true) kept, PlainElement k := by
  induction elements generalizing kept with
  | nil => exact plain
  | cons element elements ih =>
    obtain ⟨first, rest⟩ := forall_mem_cons.mp within
    exact ih (cleanElement_plain plain first) rest

/-- A path from the root, without a slash at its end, without an element that is empty, `.`
or `..`, and without NUL. -/
structure CanonicalPath (q : List α) : Prop where
  rooted : q.head? = some slash
  noTrailing : q.getLast? ≠ some slash
  elements : ∀ element ∈ (q.splitOn slash).tail,
    element ≠ [] ∧ element ≠ [dot] ∧ element ≠ [dot, dot]
  noNul : nul ∉ q

/-- A rooted path that `path.Clean` keeps is the root or is made of plain elements. -/
theorem pathClean_elements (rooted : q.head? = some slash) (clean : pathClean q = q) :
    q = [slash] ∨ ∀ element ∈ (q.splitOn slash).tail, PlainElement element := by
  have plain : ∀ k ∈ (q.splitOn slash).foldl (cleanElement true) [], PlainElement k :=
    foldl_cleanElement_plain (fun k member => absurd member not_mem_nil)
      fun e member => notMem_of_mem_splitOn member
  simp only [pathClean, rooted, decide_true, if_true] at clean
  generalize (q.splitOn slash).foldl (cleanElement true) [] = kept at plain clean
  rcases kept.eq_nil_or_concat with rfl | some_kept
  · exact .inl clean.symm
  · have nonempty : kept.reverse ≠ [] := by
      obtain ⟨front, last, rfl⟩ := some_kept
      simp
    have split : (q.splitOn slash).tail = kept.reverse := by
      rw [← clean, List.splitOn, splitOnP_cons_eq_if_modifyHead, if_pos BEq.rfl, tail_cons]
      exact splitOn_intercalate slash
        (fun element member => (plain element (mem_reverse.mp member)).within) nonempty
    rw [split]
    exact .inr fun element member => plain element (mem_reverse.mp member)

/-- What is accepted is a non-empty piece of the text from its beginning. -/
theorem head?_of_ok (accepted : normalizePath raw = .ok q) : q.head? = some slash := by
  obtain ⟨rooted, -, rfl, below, -⟩ := normalizePath_ok.mp accepted
  obtain ⟨rest, whole⟩ := rdropWhile_prefix (fun c => decide (c = slash)) (trimSpace raw)
  rw [← rooted]
  nth_rewrite 2 [← whole]
  exact (head?_append_of_ne_nil _ below).symm

theorem canonicalPath_of_ok (accepted : normalizePath raw = .ok q) : CanonicalPath q := by
  have start := head?_of_ok accepted
  obtain ⟨-, text, rfl, below, clean⟩ := normalizePath_ok.mp accepted
  have noTrailing : (trimRight (fun c => decide (c = slash)) (trimSpace raw)).getLast? ≠
      some slash := by
    intro trailing
    have stop := rdropWhile_last_not (fun c => decide (c = slash)) (trimSpace raw) below
    rw [getLast?_eq_some_getLast below] at trailing
    exact stop (decide_eq_true (Option.some.inj trailing))
  refine ⟨start, noTrailing, ?_, fun binary => text ?_⟩
  · rcases pathClean_elements start clean with root | plain
    · rw [root] at noTrailing
      exact absurd rfl noTrailing
    · exact fun element member =>
        ⟨(plain element member).nonempty, (plain element member).notHere,
          (plain element member).notUp⟩
  · exact ( rdropWhile_prefix _ _).subset binary

/-! ### A second time -/

/-- A path that was accepted is accepted as it stands exactly if it does not end in a
space. -/
theorem normalizePath_again (accepted : normalizePath raw = .ok q) :
    normalizePath q = .ok q ↔ ∀ c ∈ q.getLast?, PathChar.space c = false := by
  have canonical := canonicalPath_of_ok accepted
  rw [← trimSpace_eq_self canonical.rooted, normalizePath_ok]
  obtain ⟨-, -, cut, below, clean⟩ := normalizePath_ok.mp accepted
  constructor
  · rintro ⟨-, -, again, -, -⟩
    -- both cuts take away from the list, so neither has taken anything
    have shorter : (trimRight (fun c => decide (c = slash)) (trimSpace q)).length ≤
        (trimSpace q).length := ( rdropWhile_prefix _ _).length_le
    rw [again] at shorter
    exact (trimSpace_sublist q).eq_of_length_le shorter
  · intro untouched
    have idle : trimRight (fun c => decide (c = slash)) q = q := by
      rw [← cut]
      exact rdropWhile_idempotent _ _
    rw [untouched]
    exact ⟨canonical.rooted, canonical.noNul, idle, below, clean⟩

/-! ### Space before the slashes -/

/-- The slashes at the end of the text follow a space.  Spaces after the slashes do not
count. -/
def SpaceBeforeSlashes (p : List α) : Prop :=
  ∃ front c slashes tail, p = front ++ c :: (slashes ++ tail) ∧ PathChar.space c = true ∧
    slashes ≠ [] ∧ (∀ x ∈ slashes, x = slash) ∧ ∀ x ∈ tail, PathChar.space x = true

/-- Only the slashes can hide a space from the cut. -/
theorem spaceBeforeSlashes_of_last (accepted : normalizePath raw = .ok q) {c : α}
    (last : c ∈ q.getLast?) (isSpace : PathChar.space c = true) : SpaceBeforeSlashes raw := by
  obtain ⟨-, -, cut, -, -⟩ := normalizePath_ok.mp accepted
  obtain ⟨front, rfl⟩ := getLast?_eq_some_iff.mp last
  obtain ⟨slashes, before, onlySlashes⟩ :=
    trimRight_split (fun c => decide (c = slash)) (trimSpace raw)
  obtain ⟨tail, inner, spaces⟩ := trimRight_split PathChar.space (raw.dropWhile PathChar.space)
  rw [cut] at before
  refine ⟨raw.takeWhile PathChar.space ++ front, c, slashes, tail, ?_, isSpace, ?_,
    fun x member => of_decide_eq_true (onlySlashes x member), spaces⟩
  · have whole : raw = raw.takeWhile PathChar.space ++ (trimSpace raw ++ tail) := by
      rw [trimSpace, ← inner, takeWhile_append_dropWhile]
    rw [before] at whole
    simpa using whole
  · rintro rfl
    -- without a slash the space would have been the last character when spaces were cut
    rw [append_nil] at before
    have nonempty : trimSpace raw ≠ [] := by simp [before]
    have stop := rdropWhile_last_not PathChar.space (raw.dropWhile PathChar.space) nonempty
    refine stop ?_
    have ends : (trimSpace raw).getLast nonempty = c := by simp [before]
    exact (congrArg PathChar.space ends).trans isSpace

theorem SpaceBeforeSlashes.last (spaced : SpaceBeforeSlashes raw)
    (accepted : normalizePath raw = .ok q) : ∃ c ∈ q.getLast?, PathChar.space c = true := by
  obtain ⟨-, -, cut, below, -⟩ := normalizePath_ok.mp accepted
  obtain ⟨front, c, slashes, tail, rfl, isSpace, some_slash, onlySlashes, spaces⟩ := spaced
  obtain ⟨more, rfl⟩ : ∃ more, slashes = more ++ [slash] := by
    rcases slashes.eq_nil_or_concat with rfl | ⟨more, x, rfl⟩
    · exact absurd rfl some_slash
    · exact ⟨more, by rw [onlySlashes x (by simp), concat_eq_append]⟩
  have inner : ∀ front : List α, trimRight PathChar.space (front ++ (more ++ [slash] ++ tail)) =
      front ++ (more ++ [slash]) := fun front => by
    rw [← append_assoc, trimRight_append _ spaces, ← append_assoc, trimRight_concat _ _ space_slash]
  have outer : ∀ front : List α,
      trimRight (fun c => decide (c = slash)) (front ++ (more ++ [slash])) =
        trimRight (fun c => decide (c = slash)) front := fun front =>
    trimRight_append front fun x member => decide_eq_true (onlySlashes x member)
  rw [trimSpace, dropWhile_append] at cut
  split at cut
  · -- spaces only before the slashes: nothing is left of the text
    have start : (more ++ [slash] ++ tail).dropWhile PathChar.space = more ++ [slash] ++ tail := by
      cases more with
      | nil => exact dropWhile_cons_of_neg (by simp [space_slash])
      | cons x more =>
        obtain rfl := onlySlashes x (by simp)
        exact dropWhile_cons_of_neg (by simp [space_slash])
    rw [dropWhile_cons_of_pos isSpace, start, ← nil_append (more ++ [slash] ++ tail),
      inner, outer] at cut
    exact absurd cut.symm below
  · have notSlash : decide (c = slash) = false := by
      refine decide_eq_false fun same => ?_
      rw [same, space_slash] at isSpace
      cases isSpace
    rw [append_cons, inner, outer, trimRight_concat (fun c => decide (c = slash)) _ notSlash] at cut
    exact ⟨c, by simp [← cut], isSpace⟩

end Paths

/-! ### Stored paths -/

/-- A path that `NormalizePath` returns is canonical and is the one it returns for itself. -/
def PathCanonical (p : GoString) : Prop :=
  ∀ q, normalizePath p = .ok q → CanonicalPath q ∧ normalizePath q = .ok q

/-- What is returned is canonical.  It is returned for itself if no space stands before the
slashes at the end of the text, and for an accepted text only then. -/
theorem pathCanonical_iff (p : GoString) :
    (∀ q, normalizePath p = .ok q → CanonicalPath q) ∧
      (¬ SpaceBeforeSlashes p → PathCanonical p) ∧
      ∀ q, normalizePath p = .ok q → (PathCanonical p ↔ ¬ SpaceBeforeSlashes p) := by
  have enough : ¬ SpaceBeforeSlashes p → PathCanonical p := by
    intro solid q accepted
    refine ⟨canonicalPath_of_ok accepted, (normalizePath_again accepted).mpr fun c last => ?_⟩
    exact Bool.eq_false_iff.mpr fun isSpace =>
      solid (spaceBeforeSlashes_of_last accepted last isSpace)
  refine ⟨fun q accepted => canonicalPath_of_ok accepted, enough, fun q accepted => ⟨?_, enough⟩⟩
  intro canonical spaced
  obtain ⟨c, last, isSpace⟩ := spaced.last accepted
  have solid := (normalizePath_again accepted).mp (canonical q accepted).2 c last
  rw [isSpace] at solid
  cases solid

namespace Sample

/-- A folder asked for as `/a /`. -/
def spaced : GoString := [.rune '/', .rune 'a', .rune ' ', .rune '/']

end Sample

open Sample

/-- The path returned for `/a /` is `/a `, and the one returned for that is `/a`. -/
theorem spaced_not_canonical :
    (normalizePath spaced).toOption = some [.rune '/', .rune 'a', .rune ' '] ∧
      (normalizePath ([.rune '/', .rune 'a', .rune ' '] : GoString)).toOption =
        some [.rune '/', .rune 'a'] ∧
      ¬ PathCanonical spaced := by
  refine ⟨by decide, by decide, fun canonical => ?_⟩
  have accepted : normalizePath spaced = .ok [.rune '/', .rune 'a', .rune ' '] := rfl
  exact absurd ((normalizePath_again accepted).mp (canonical _ accepted).2 (.rune ' ') rfl)
    (by decide)

end StoragePlatform
