/-
Module: StoragePlatform.Lib.Table
Purpose: Tables as lists of rows with the relational operations a SQL access
  layer uses: UPDATE by predicate, inner join, ordering, unique columns.
Trusted boundary: none
Main exports: updateWhere, SameOn, innerJoin, orderBy, groupHaving, UniqueOn, Capped
-/
import Mathlib.Algebra.Order.Ring.Nat
import Mathlib.Data.List.Nodup
import Mathlib.Data.List.Sort
import Mathlib.Data.List.Dedup
import Mathlib.Data.List.Forall2
import Mathlib.Data.List.Perm.Subperm

namespace StoragePlatform.Lib

open List

variable {α β κ : Type*} {sel view keep : α → Bool} {set : α → α} {key : α → κ}
  {rows rows' lefts : List α} {rights : List β} {row a : α} {b : β} {k : κ}
  {R : α → α → Prop} {on : α → β → Bool}

/-!
Quantifiers over the rows of a table are decided by `all` and `any`.  The core
instances carry a proof along at every row, which the kernel then evaluates.
-/

instance (priority := 2000) decidableAllRows {P : α → Prop} [DecidablePred P] (rows : List α) :
    Decidable (∀ row ∈ rows, P row) :=
  decidable_of_iff (rows.all (fun row => decide (P row)) = true) (by simp)

instance (priority := 2000) decidableAnyRow {P : α → Prop} [DecidablePred P] (rows : List α) :
    Decidable (∃ row ∈ rows, P row) :=
  decidable_of_iff (rows.any (fun row => decide (P row)) = true) (by simp)

/-! ### Rows that are found or appended -/

theorem mem_append_row : a ∈ rows ++ [row] ↔ a ∈ rows ∨ a = row := by
  simp

/-- What holds of all rows and of the one appended to them. -/
theorem forall_append_row {P : α → Prop} (others : ∀ old ∈ rows, P old) (here : P row) :
    ∀ old ∈ rows ++ [row], P old := by
  intro old member
  rcases mem_append_row.mp member with before | rfl
  · exact others old before
  · exact here

/-- A row that a lookup finds is in the table and meets its condition. -/
theorem mem_of_find {P : α → Prop} [DecidablePred P]
    (found : (rows.find? fun row => decide (P row)) = some row) : row ∈ rows ∧ P row := by
  have chosen := find?_some found
  exact ⟨mem_of_find?_eq_some found, of_decide_eq_true chosen⟩

/-! ### UPDATE -/

/-- `UPDATE rows SET set WHERE sel`: every selected row is rewritten in place. -/
def updateWhere (sel : α → Bool) (set : α → α) (rows : List α) : List α :=
  rows.map fun row => if sel row then set row else row

@[simp] theorem updateWhere_cons (sel : α → Bool) (set : α → α) (row : α) (rows : List α) :
    updateWhere sel set (row :: rows) =
      (if sel row then set row else row) :: updateWhere sel set rows := rfl

theorem mem_updateWhere :
    row ∈ updateWhere sel set rows ↔
      (∃ old ∈ rows, sel old = true ∧ set old = row) ∨ (row ∈ rows ∧ sel row = false) := by
  simp only [updateWhere, mem_map]
  constructor
  · rintro ⟨old, member, rfl⟩
    cases chosen : sel old with
    | true => exact Or.inl ⟨old, member, chosen, by simp⟩
    | false => exact Or.inr ⟨by simpa using member, by simpa using chosen⟩
  · rintro (⟨old, member, chosen, rfl⟩ | ⟨member, skipped⟩)
    · exact ⟨old, member, by simp [chosen]⟩
    · exact ⟨row, member, by simp [skipped]⟩

/-- An UPDATE that selects nothing changes nothing. -/
theorem updateWhere_of_none {sel : α → Bool} {set : α → α} {rows : List α}
    (none_selected : ∀ row ∈ rows, sel row = false) :
    updateWhere sel set rows = rows := by
  rw [updateWhere]
  conv_rhs => rw [← map_id rows]
  refine map_congr_left fun row member => ?_
  simp [none_selected row member]

/-- Two conditions update alike exactly when they select the same rows, provided
the update shows. -/
theorem updateWhere_eq_iff {sel sel' : α → Bool} {set : α → α} {rows : List α}
    (shows : ∀ row ∈ rows, sel row = true ∨ sel' row = true → set row ≠ row) :
    updateWhere sel set rows = updateWhere sel' set rows ↔
      ∀ row ∈ rows, (sel row = true ↔ sel' row = true) := by
  rw [updateWhere, updateWhere, map_inj_left]
  refine forall₂_congr fun row member => ?_
  have changed := shows row member
  cases first : sel row with
  | true =>
    have moved := changed (.inl first)
    cases second : sel' row <;> simp [moved]
  | false =>
    cases second : sel' row with
    | true => simp [Ne.symm (changed (.inr second))]
    | false => simp

/-- A column the UPDATE does not set keeps its values, in order. -/
theorem map_updateWhere (keeps : ∀ row, key (set row) = key row) (rows : List α) :
    (updateWhere sel set rows).map key = rows.map key := by
  rw [updateWhere, map_map]
  refine map_congr_left fun row _ => ?_
  simp only [Function.comp_apply]
  split
  · exact keeps row
  · rfl

/-- A lookup by columns the UPDATE does not set finds the row it found before, as the UPDATE
leaves it. -/
theorem find?_updateWhere {sel wanted : α → Bool} {set : α → α}
    (keeps : ∀ row, wanted (set row) = wanted row) (rows : List α) :
    (updateWhere sel set rows).find? wanted =
      (rows.find? wanted).map fun row => if sel row then set row else row := by
  rw [updateWhere, find?_map]
  congr 2
  funext row
  simp only [Function.comp_apply]
  split
  · exact keeps row
  · rfl

/-- Every row of the first table is still in the second one, up to `R`. -/
def Carried (R : α → α → Prop) (rows rows' : List α) : Prop :=
  ∀ row ∈ rows, ∃ row' ∈ rows', R row row'

theorem Carried.of_subset (same : ∀ row, R row row) (fewer : rows ⊆ rows') : Carried R rows rows' :=
  fun row member => ⟨row, fewer member, same row⟩

theorem Carried.updateWhere (same : ∀ row, R row row) (changed : ∀ row, R row (set row))
    (rows : List α) : Carried R rows (updateWhere sel set rows) := by
  intro row member
  refine ⟨if sel row then set row else row, mem_map_of_mem member, ?_⟩
  split
  · exact changed row
  · exact same row

/-- Filtering after an UPDATE whose rewritten rows all fail the filter. -/
theorem filter_updateWhere_of_dropped (dropped : ∀ row, keep (set row) = false) (rows : List α) :
    (updateWhere sel set rows).filter keep = rows.filter fun row => keep row && !sel row := by
  induction rows with
  | nil => rfl
  | cons row rows ih =>
    rw [updateWhere_cons]
    cases chosen : sel row with
    | true => simp [dropped, chosen, ih]
    | false => simp [filter_cons, chosen, ih]

/-- A filter that the UPDATE does not change selects the same rows after it. -/
theorem filter_updateWhere_of_kept (kept : ∀ row, keep (set row) = keep row) (rows : List α) :
    (updateWhere sel set rows).filter keep = updateWhere sel set (rows.filter keep) := by
  induction rows with
  | nil => rfl
  | cons row rows ih =>
    rw [updateWhere_cons]
    cases chosen : sel row <;> cases kept' : keep row <;>
      simp [chosen, kept, kept', ih]

/-- What a query selects and reads is the same after an UPDATE that changes no selected
row in what is read. -/
theorem map_filter_updateWhere {read : α → β} (changed : ∀ row ∈ rows, sel row = true →
      keep (set row) = keep row ∧ (keep row = true → read (set row) = read row)) :
    ((updateWhere sel set rows).filter keep).map read = (rows.filter keep).map read := by
  induction rows with
  | nil => rfl
  | cons row rows ih =>
    have rest := ih fun other member => changed other (mem_cons_of_mem _ member)
    rw [updateWhere_cons, filter_cons, filter_cons]
    cases chosen : sel row with
    | false => cases kept : keep row <;> simp [kept, rest]
    | true =>
      obtain ⟨sameKeep, sameRead⟩ := changed row mem_cons_self chosen
      cases kept : keep row with
      | false => simp [sameKeep, kept, rest]
      | true => simp [sameKeep, kept, rest, sameRead kept]

/-! ### Rows that a write leaves alone -/

/-- The rows selected by `view` are the same after as before, in the same order. -/
def SameOn (view : α → Bool) (rows rows' : List α) : Prop := rows'.filter view = rows.filter view

namespace SameOn

theorem refl (view : α → Bool) (rows : List α) : SameOn view rows rows := rfl

theorem append (rows : List α) {added : List α} (outside : ∀ row ∈ added, view row = false) :
    SameOn view rows (rows ++ added) := by
  have none : added.filter view = [] :=
    filter_eq_nil_iff.mpr fun row member => by simp [outside row member]
  rw [SameOn, filter_append, none, append_nil]

theorem updateWhere (keeps : ∀ row, view (set row) = view row)
    (outside : ∀ row ∈ rows, sel row = true → view row = false) :
    SameOn view rows (Lib.updateWhere sel set rows) := by
  have unchanged : ((Lib.updateWhere sel set rows).filter view).map id =
      (rows.filter view).map id := by
    refine map_filter_updateWhere fun row member chosen => ⟨keeps row, fun viewed => ?_⟩
    rw [outside row member chosen] at viewed
    cases viewed
  simpa [SameOn] using unchanged

theorem filter (outside : ∀ row ∈ rows, keep row = false → view row = false) :
    SameOn view rows (rows.filter keep) := by
  rw [SameOn, filter_filter]
  refine filter_congr fun row member => ?_
  cases kept : keep row with
  | true => simp
  | false => simp [outside row member kept]

end SameOn

/-! ### Unique columns -/

/-- The column `key` has no duplicate value: a primary key or a UNIQUE
constraint. -/
def UniqueOn (key : α → κ) (rows : List α) : Prop :=
  (rows.map key).Nodup

instance [DecidableEq κ] (key : α → κ) (rows : List α) : Decidable (UniqueOn key rows) :=
  inferInstanceAs (Decidable (rows.map key).Nodup)

namespace UniqueOn

theorem nil (key : α → κ) : UniqueOn key ([] : List α) := nodup_nil

theorem nodup (unique : UniqueOn key rows) : rows.Nodup :=
  List.Nodup.of_map key unique

theorem eq_of_key {b : α} (unique : UniqueOn key rows) (ha : a ∈ rows) (hb : b ∈ rows)
    (same : key a = key b) : a = b :=
  inj_on_of_nodup_map unique ha hb same

theorem updateWhere (keeps : ∀ row, key (set row) = key row) (unique : UniqueOn key rows) :
    UniqueOn key (updateWhere sel set rows) := by
  rw [UniqueOn, map_updateWhere keeps]
  exact unique

theorem append_singleton (unique : UniqueOn key rows) (fresh : ∀ old ∈ rows, key old ≠ key row) :
    UniqueOn key (rows ++ [row]) := by
  rw [UniqueOn, map_append, map_singleton, nodup_append]
  refine ⟨unique, nodup_singleton _, ?_⟩
  intro k present k' singleton same
  obtain ⟨old, member, rfl⟩ := mem_map.mp present
  rw [mem_singleton] at singleton
  exact fresh old member (same.trans singleton)

theorem filter (unique : UniqueOn key rows) (keep : α → Bool) : UniqueOn key (rows.filter keep) :=
  List.Nodup.sublist ((filter_sublist (l := rows)).map key) unique

/-- Uniqueness only depends on the column's values, and passes to fewer of them. -/
theorem of_sublist (unique : UniqueOn key rows) (fewer : (rows'.map key).Sublist (rows.map key)) :
    UniqueOn key rows' :=
  List.Nodup.sublist fewer unique

/-- Two columns that agree on which rows agree. -/
theorem iff_of_same {ι : Type*} {other : α → ι} (same : ∀ a b, key a = key b ↔ other a = other b) :
    UniqueOn key rows ↔ UniqueOn other rows := by
  rw [UniqueOn, UniqueOn, List.Nodup, List.Nodup, pairwise_map, pairwise_map]
  simp only [ne_eq, same]

theorem perm (unique : UniqueOn key rows) (order : rows'.Perm rows) : UniqueOn key rows' :=
  (order.map key).nodup_iff.mpr unique

end UniqueOn

/-- A column of selected rows is a part of the column it comes from. -/
theorem map_filterMap_sublist {f : α → Option β} {key' : β → κ}
    (same : ∀ a b, f a = some b → key' b = key a) (rows : List α) :
    ((rows.filterMap f).map key').Sublist (rows.map key) := by
  induction rows with
  | nil => exact List.Sublist.refl _
  | cons a rows ih =>
    cases selected : f a with
    | none =>
      rw [filterMap_cons_none selected, map_cons]
      exact ih.cons _
    | some b =>
      rw [filterMap_cons_some selected, map_cons, map_cons, same a b selected]
      exact ih.cons_cons _

theorem eq_singleton_of_nodup (nodup : rows.Nodup) (member : row ∈ rows)
    (only : ∀ other ∈ rows, other = row) : rows = [row] := by
  cases rows with
  | nil => cases member
  | cons first rest =>
    obtain rfl := only first mem_cons_self
    cases rest with
    | nil => rfl
    | cons second rest =>
      obtain rfl := only second (by simp)
      simp at nodup

theorem countP_le_one {p : α → Bool} (nodup : rows.Nodup)
    (one : ∀ a ∈ rows, ∀ b ∈ rows, p a = true → p b = true → a = b) : rows.countP p ≤ 1 := by
  rw [countP_eq_length_filter]
  cases kept : rows.filter p with
  | nil => simp
  | cons a rest =>
    have inRows : ∀ {b}, b ∈ rows.filter p → b ∈ rows ∧ p b = true := mem_filter.mp
    have first := inRows (kept ▸ mem_cons_self : a ∈ rows.filter p)
    have single : rows.filter p = [a] := eq_singleton_of_nodup (nodup.filter p)
      (kept ▸ mem_cons_self) fun b listed =>
        one b (inRows listed).1 a first.1 (inRows listed).2 first.2
    rw [← kept, single]
    simp

/-- Rows that add nothing to a sum may be dropped from it. -/
theorem sum_map_filter {f : α → Nat} (nothing : ∀ row ∈ rows, keep row = false → f row = 0) :
    ((rows.filter keep).map f).sum = (rows.map f).sum := by
  induction rows with
  | nil => rfl
  | cons row rows ih =>
    have rest := ih fun row' later => nothing row' (mem_cons_of_mem _ later)
    cases kept : keep row with
    | true => simp [kept, rest]
    | false => simp [kept, rest, nothing row (by simp) kept]

/-- A lookup by a unique key finds the row of that key. -/
theorem UniqueOn.find_key [DecidableEq κ] (unique : UniqueOn key rows) (member : row ∈ rows)
    (same : key row = k) : (rows.find? fun other => key other = k) = some row := by
  cases found : rows.find? fun other => key other = k with
  | none => simpa [same] using find?_eq_none.mp found row member
  | some other =>
    have sameKey := find?_some found
    rw [unique.eq_of_key (mem_of_find?_eq_some found) member
      ((of_decide_eq_true sameKey).trans same.symm)]

/-- The key of a row is among the keys of the rows that match only if it matches. -/
theorem UniqueOn.mem_filter_keys (unique : UniqueOn key rows) (member : row ∈ rows) :
    key row ∈ (rows.filter sel).map key ↔ sel row = true := by
  constructor
  · intro listed
    obtain ⟨other, chosen, sameKey⟩ := mem_map.mp listed
    obtain ⟨inRows, selected⟩ := mem_filter.mp chosen
    rwa [← unique.eq_of_key inRows member sameKey]
  · intro selected
    exact mem_map_of_mem (mem_filter.mpr ⟨member, selected⟩)

/-- An UPDATE by the keys of the rows that match is the UPDATE of those rows. -/
theorem UniqueOn.updateWhere_keys [DecidableEq κ] (unique : UniqueOn key rows) (sel : α → Bool)
    (set : α → α) : Lib.updateWhere (fun row => key row ∈ (rows.filter sel).map key) set rows =
      Lib.updateWhere sel set rows := by
  refine map_congr_left fun row member => ?_
  simp only [unique.mem_filter_keys member, decide_eq_true_eq]

/-- What holds of all rows and of the one put in their place. -/
theorem forall_mem_set {P : α → Prop} {i : Nat} (others : ∀ row ∈ rows, P row) (here : P a) :
    ∀ row ∈ rows.set i a, P row := by
  intro row member
  rcases mem_or_eq_of_mem_set member with old | rfl
  · exact others row old
  · exact here

section Positions

variable {i j : Nat} {old new row : α}

/-- A row found after one was put in place of another. -/
theorem getElem?_set_inv (found : (rows.set i new)[j]? = some row) :
    (i = j ∧ row = new) ∨ (i ≠ j ∧ rows[j]? = some row) := by
  rw [getElem?_set] at found
  split at found
  · split at found <;> cases found
    exact .inl ⟨‹_›, rfl⟩
  · exact .inr ⟨‹_›, found⟩

theorem getElem?_set_here (here : rows[i]? = some old) : (rows.set i new)[i]? = some new :=
  getElem?_set_self (List.getElem?_eq_some_iff.mp here).1

theorem mem_set_of_ne (here : rows[i]? = some old) (member : row ∈ rows) (other : row ≠ old) :
    row ∈ rows.set i new := by
  obtain ⟨j, there⟩ := mem_iff_getElem?.mp member
  have apart : i ≠ j := by
    rintro rfl
    exact other (Option.some.inj (there.symm.trans here))
  exact mem_of_getElem? ((getElem?_set_ne apart).trans there)

theorem getElem?_append_inv (found : (rows ++ [new])[j]? = some row) :
    rows[j]? = some row ∨ (j = rows.length ∧ row = new) := by
  rw [getElem?_append] at found
  split at found
  · exact .inl found
  · rw [getElem?_singleton] at found
    split at found <;> cases found
    exact .inr ⟨by omega, rfl⟩

end Positions

/-! ### Paired lists -/

theorem forall₂_of_mapM {f : α → Option β} {R : α → β → Prop} (one : ∀ a b, f a = some b → R a b)
    (all : lefts.mapM f = some rights) : List.Forall₂ R lefts rights := by
  induction lefts generalizing rights with
  | nil =>
    cases all
    exact .nil
  | cons a lefts ih =>
    simp only [mapM_cons, bind, Option.bind_eq_some_iff] at all
    obtain ⟨b, first, bs, rest, made⟩ := all
    cases made
    exact .cons (one a b first) (ih rest)

theorem filterMap_congr₂ {γ : Type*} {R : α → β → Prop} {f : α → Option γ} {g : β → Option γ}
    (same : ∀ a b, R a b → g b = f a) {rows' : List β} (pairs : List.Forall₂ R rows rows') :
    rows'.filterMap g = rows.filterMap f := by
  induction pairs with
  | nil => rfl
  | cons related _ ih => rw [filterMap_cons, filterMap_cons, same _ _ related, ih]

theorem forall₂_trans {γ : Type*} {R : α → β → Prop} {S : β → γ → Prop} {T : α → γ → Prop}
    (through : ∀ a b c, R a b → S b c → T a c) {mids : List β} {rights : List γ}
    (first : List.Forall₂ R lefts mids) (second : List.Forall₂ S mids rights) :
    List.Forall₂ T lefts rights := by
  induction first generalizing rights with
  | nil =>
    cases second
    exact .nil
  | cons related _ ih =>
    cases second with
    | cons related' rest => exact .cons (through _ _ _ related related') (ih rest)

theorem map_of_mapM {γ : Type*} {f : α → Option β} {g : β → γ} {h : α → γ}
    (one : ∀ a b, f a = some b → g b = h a) (all : lefts.mapM f = some rights) :
    rights.map g = lefts.map h := by
  have pairs := forall₂_of_mapM one all
  rw [← forall₂_eq_eq_eq, forall₂_map_left_iff, forall₂_map_right_iff]
  exact pairs.flip

theorem forall₂_left {R : α → β → Prop} (pairs : List.Forall₂ R lefts rights) (member : a ∈ lefts) :
    ∃ b ∈ rights, R a b := by
  induction pairs with
  | nil => cases member
  | cons related _ ih =>
    rcases mem_cons.mp member with rfl | later
    · exact ⟨_, mem_cons_self, related⟩
    · obtain ⟨b, inRights, related'⟩ := ih later
      exact ⟨b, mem_cons_of_mem _ inRights, related'⟩

theorem forall₂_right {R : α → β → Prop} (pairs : List.Forall₂ R lefts rights) (member : b ∈ rights)
    : ∃ a ∈ lefts, R a b :=
  forall₂_left pairs.flip member

theorem exists_forall₂ {R : α → β → Prop} (each : ∀ a ∈ lefts, ∃ b, R a b) :
    ∃ rights, List.Forall₂ R lefts rights := by
  induction lefts with
  | nil => exact ⟨[], .nil⟩
  | cons a lefts ih =>
    obtain ⟨b, related⟩ := each a mem_cons_self
    obtain ⟨rights, pairs⟩ := ih fun a' later => each a' (mem_cons_of_mem _ later)
    exact ⟨b :: rights, .cons related pairs⟩

/-! ### Joins -/

/-- `a JOIN b ON on`: for each left row the matching right rows, in table
order. -/
def innerJoin (on : α → β → Bool) (lefts : List α) (rights : List β) : List (α × β) :=
  lefts.flatMap fun a => (rights.filter (on a)).map fun b => (a, b)

@[simp] theorem mem_innerJoin :
    (a, b) ∈ innerJoin on lefts rights ↔ a ∈ lefts ∧ b ∈ rights ∧ on a b = true := by
  simp only [innerJoin, mem_flatMap, mem_map, mem_filter, Prod.mk.injEq]
  constructor
  · rintro ⟨a', ha, b', ⟨hb, matched⟩, rfl, rfl⟩
    exact ⟨ha, hb, matched⟩
  · rintro ⟨ha, hb, matched⟩
    exact ⟨a, ha, b, ⟨hb, matched⟩, rfl, rfl⟩

theorem nodup_innerJoin (left : lefts.Nodup) (right : rights.Nodup) :
    (innerJoin on lefts rights).Nodup := by
  refine nodup_flatMap.mpr ⟨fun a _ => ?_, ?_⟩
  · exact (right.filter _).map fun b b' same => (Prod.mk.inj same).2
  · refine List.Pairwise.imp (fun {a a'} different => ?_) left
    rintro ⟨x, y⟩ inFirst inSecond
    obtain ⟨b, -, eq⟩ := mem_map.mp inFirst
    obtain ⟨b', -, eq'⟩ := mem_map.mp inSecond
    exact different ((Prod.mk.inj eq).1.trans (Prod.mk.inj eq').1.symm)

theorem innerJoin_append (on : α → β → Bool) (lefts lefts' : List α) (rights : List β) :
    innerJoin on (lefts ++ lefts') rights =
      innerJoin on lefts rights ++ innerJoin on lefts' rights := by
  simp [innerJoin]

theorem innerJoin_filter_left (on : α → β → Bool) (keep : α → Bool) (lefts : List α)
    (rights : List β) :
    innerJoin on (lefts.filter keep) rights =
      (innerJoin on lefts rights).filter fun row => keep row.1 := by
  induction lefts with
  | nil => rfl
  | cons a lefts ih =>
    have first : ∀ rest, innerJoin on (a :: rest) rights =
        ((rights.filter (on a)).map fun b => (a, b)) ++ innerJoin on rest rights := fun _ => rfl
    rw [first, filter_append, ← ih, filter_cons]
    cases kept : keep a with
    | true => simp [first, filter_map, Function.comp_def, kept]
    | false => simp [filter_map, Function.comp_def, kept]

theorem innerJoin_map {α' β' : Type*} {on' : α' → β' → Bool} {f : α → α'} {g : β → β'}
    (joins : ∀ a b, on' (f a) (g b) = on a b) (lefts : List α) (rights : List β) :
    innerJoin on' (lefts.map f) (rights.map g) =
      (innerJoin on lefts rights).map (Prod.map f g) := by
  rw [innerJoin, innerJoin, flatMap_map, map_flatMap]
  refine flatMap_congr fun a _ => ?_
  have sameOn : on' (f a) ∘ g = on a := funext (joins a)
  rw [filter_map, sameOn, map_map, map_map]
  rfl

/-- An UPDATE that does not touch the join column updates the join row by row. -/
theorem innerJoin_updateWhere {on : α → β → Bool} {sel : α → Bool} {set : α → α}
    (joins : ∀ a b, on (set a) b = on a b) (lefts : List α) (rights : List β) :
    innerJoin on (updateWhere sel set lefts) rights =
      (innerJoin on lefts rights).map fun row =>
        (if sel row.1 then set row.1 else row.1, row.2) := by
  have sameOn : ∀ a b, on (if sel a then set a else a) (id b) = on a b := by
    intro a b
    split
    · exact joins a b
    · rfl
  have mapped := innerJoin_map sameOn lefts rights
  rw [map_id] at mapped
  exact mapped

/-- A row that only the weaker condition counts makes its count larger. -/
theorem countP_lt_countP {weak strong : α → Bool}
    (weaker : ∀ row ∈ rows, strong row = true → weak row = true) (member : row ∈ rows)
    (fails : strong row = false) (holds : weak row = true) :
    rows.countP strong < rows.countP weak := by
  obtain ⟨before, after, rfl⟩ := append_of_mem member
  have first : before.countP strong ≤ before.countP weak :=
    countP_mono_left fun row' earlier => weaker row' (by simp [earlier])
  have second : after.countP strong ≤ after.countP weak :=
    countP_mono_left fun row' later => weaker row' (by simp [later])
  simp only [countP_append, countP_cons, fails, holds, if_true, Bool.false_eq_true, if_false]
  omega

/-- A count over a join does not see an UPDATE of columns it does not look at. -/
theorem countP_innerJoin_updateWhere {count : α × β → Bool} (joins : ∀ a b, on (set a) b = on a b)
    (counts : ∀ a ∈ lefts, sel a = true → ∀ b ∈ rights, on a b = true →
      count (set a, b) = count (a, b)) :
    (innerJoin on (updateWhere sel set lefts) rights).countP count =
      (innerJoin on lefts rights).countP count := by
  induction lefts with
  | nil => rfl
  | cons a lefts ih =>
    have rest := ih fun a' member => counts a' (mem_cons_of_mem _ member)
    simp only [innerJoin, updateWhere_cons, flatMap_cons, countP_append, countP_map] at rest ⊢
    rw [rest]
    congr 1
    cases chosen : sel a with
    | false => rfl
    | true =>
      have sameOn : on (set a) = on a := funext (joins a)
      rw [if_pos rfl, sameOn]
      refine countP_congr fun b member => ?_
      obtain ⟨inRights, matched⟩ := mem_filter.mp member
      simp [counts a mem_cons_self chosen b inRights matched]

/-- Where every left row has at most one partner, the join is a lookup per row. -/
theorem innerJoin_eq_filterMap (nodup : rights.Nodup)
    (one : ∀ a ∈ lefts, ∀ b ∈ rights, ∀ b' ∈ rights, on a b = true → on a b' = true → b = b') :
    innerJoin on lefts rights =
      lefts.filterMap fun a => (rights.find? (on a)).map fun b => (a, b) := by
  induction lefts with
  | nil => rfl
  | cons a lefts ih =>
    have rest := ih fun a' member => one a' (mem_cons_of_mem _ member)
    rw [innerJoin] at rest ⊢
    rw [flatMap_cons, rest]
    cases found : rights.find? (on a) with
    | none =>
      have none_matches : rights.filter (on a) = [] :=
        filter_eq_nil_iff.mpr (find?_eq_none.mp found)
      simp [none_matches, found]
    | some b =>
      have matched := find?_some found
      have inRights := mem_of_find?_eq_some found
      have single : rights.filter (on a) = [b] := by
        refine eq_singleton_of_nodup (nodup.filter _) (mem_filter.mpr ⟨inRights, matched⟩) ?_
        intro other member
        obtain ⟨inRights', matched'⟩ := mem_filter.mp member
        exact one a mem_cons_self other inRights' b inRights matched' matched
      simp [single, found]

/-- A join on the key of the right table, read off row by row. -/
theorem map_innerJoin_key {γ : Type*} {key : β → κ} (at_ : α → κ) (unique : UniqueOn key rights)
    (keyed : ∀ a b, on a b = true → key b = at_ a) (read : α × β → γ) (lefts : List α) :
    (innerJoin on lefts rights).map read =
      lefts.filterMap fun a => (rights.find? (on a)).map fun b => read (a, b) := by
  rw [innerJoin_eq_filterMap unique.nodup, map_filterMap]
  · simp only [Option.map_map, Function.comp_def]
  · intro a _ b inRights b' inRights' matched matched'
    exact unique.eq_of_key inRights inRights' ((keyed a b matched).trans (keyed a b' matched').symm)

/-- A key of the left rows is a key of such a join. -/
theorem UniqueOn.innerJoin (unique : UniqueOn key lefts) (nodup : rights.Nodup)
    (one : ∀ a ∈ lefts, ∀ b ∈ rights, ∀ b' ∈ rights, on a b = true → on a b' = true → b = b') :
    UniqueOn (fun row => key row.1) (Lib.innerJoin on lefts rights) := by
  rw [UniqueOn, innerJoin_eq_filterMap nodup one]
  have keyed : ∀ (a : α) (row : α × β), ((rights.find? (on a)).map fun b => (a, b)) = some row →
      key row.1 = key a := by
    intro a row found
    obtain ⟨b, _, rfl⟩ := Option.map_eq_some_iff.mp found
    rfl
  exact List.Nodup.sublist (map_filterMap_sublist keyed lefts) unique

/-- Counting such a join is counting the left rows with a partner. -/
theorem countP_innerJoin_of_unique (nodup : rights.Nodup)
    (one : ∀ a ∈ lefts, ∀ b ∈ rights, ∀ b' ∈ rights, on a b = true → on a b' = true → b = b')
    (count : α × β → Bool) :
    (innerJoin on lefts rights).countP count =
      lefts.countP fun a => rights.any fun b => on a b && count (a, b) := by
  rw [innerJoin_eq_filterMap nodup one, countP_filterMap]
  refine countP_congr fun a member => ?_
  rw [any_eq_true]
  cases found : rights.find? (on a) with
  | none =>
    have unmatched := find?_eq_none.mp found
    simp only [Option.map_none, Option.getD_none, Bool.false_eq_true, false_iff, not_exists,
      not_and, Bool.and_eq_true]
    exact fun b inRights both => absurd both (unmatched b inRights)
  | some b =>
    have matched := find?_some found
    have inRights := mem_of_find?_eq_some found
    simp only [Option.map_some, Option.getD_some, Bool.and_eq_true]
    constructor
    · intro counted
      exact ⟨b, inRights, matched, counted⟩
    · rintro ⟨b', inRights', matched', counted⟩
      rwa [one a member b inRights b' inRights' matched matched']

/-! ### MAX -/

theorem le_foldl_max (bound : Nat) (values : List Nat) :
    bound ≤ values.foldl max bound ∧ ∀ n ∈ values, n ≤ values.foldl max bound := by
  induction values generalizing bound with
  | nil => simp
  | cons first rest ih =>
    obtain ⟨least, each⟩ := ih (max bound first)
    rw [foldl_cons]
    refine ⟨by omega, forall_mem_cons.mpr ⟨by omega, each⟩⟩

theorem foldl_max_mem (bound : Nat) (values : List Nat) :
    values.foldl max bound = bound ∨ values.foldl max bound ∈ values := by
  induction values generalizing bound with
  | nil => exact .inl rfl
  | cons first rest ih =>
    rw [foldl_cons]
    rcases ih (max bound first) with same | later
    · rw [same]
      rcases Nat.le_total first bound with le | le
      · exact .inl (Nat.max_eq_left le)
      · exact .inr (by rw [Nat.max_eq_right le]; exact mem_cons_self)
    · exact .inr (mem_cons_of_mem _ later)

/-! ### GROUP BY -/

section Groups

variable [DecidableEq κ]

/-- `SELECT key FROM rows GROUP BY key HAVING having (count(*))`.  Only keys of
present rows have a group. -/
def groupHaving (key : α → κ) (having : Nat → Bool) (rows : List α) : List κ :=
  (rows.map key).dedup.filter fun k => having (rows.countP fun row => key row = k)

theorem mem_groupHaving {having : Nat → Bool} :
    k ∈ groupHaving key having rows ↔
      (∃ row ∈ rows, key row = k) ∧ having (rows.countP fun row => key row = k) = true := by
  simp [groupHaving]

theorem nodup_groupHaving (key : α → κ) (having : Nat → Bool) (rows : List α) :
    (groupHaving key having rows).Nodup :=
  (nodup_dedup _).filter _

end Groups

/-! ### ORDER BY -/

/-- `ORDER BY` with the given order of rows; ties keep table order. -/
def orderBy (le : α → α → Bool) (rows : List α) : List α :=
  rows.insertionSort fun a b => le a b = true

theorem orderBy_perm (le : α → α → Bool) (rows : List α) : (orderBy le rows).Perm rows :=
  perm_insertionSort _ rows

@[simp] theorem mem_orderBy {le : α → α → Bool} : row ∈ orderBy le rows ↔ row ∈ rows :=
  (orderBy_perm le rows).mem_iff

/-- Under a total order the result is sorted. -/
theorem orderBy_pairwise {le : α → α → Bool} (total : ∀ a b, le a b = true ∨ le b a = true)
    (trans : ∀ a b c, le a b = true → le b c = true → le a c = true) (rows : List α) :
    (orderBy le rows).Pairwise fun a b => le a b = true :=
  have : Std.Total fun a b => le a b = true := ⟨total⟩
  have : IsTrans α fun a b => le a b = true := ⟨trans⟩
  pairwise_insertionSort _ rows

/-! ### Bounded multiplicities -/

section Capped

variable [DecidableEq κ]

/-- No known value occurs more than `cap` times; `none` is an unknown value. -/
def Capped (cap : Nat) (values : List (Option κ)) : Prop :=
  ∀ value ∈ values, value ≠ none → (values.countP fun v => v = value) ≤ cap
deriving Decidable

namespace Capped

theorem countP_le {cap : Nat} {values : List (Option κ)} (capped : Capped cap values) (k : κ) :
    (values.countP fun v => v = some k) ≤ cap := by
  by_cases present : some k ∈ values
  · exact capped _ present (Option.some_ne_none k)
  · rw [countP_eq_zero.mpr]
    · exact Nat.zero_le cap
    · intro v member same
      exact present (of_decide_eq_true same ▸ member)

theorem of_countP_le {cap : Nat} {values : List (Option κ)}
    (few : ∀ k, (values.countP fun v => v = some k) ≤ cap) : Capped cap values := by
  intro value _ known
  obtain ⟨k, rfl⟩ := Option.ne_none_iff_exists'.mp known
  exact few k

theorem subperm {cap : Nat} {values values' : List (Option κ)} (capped : Capped cap values)
    (fewer : values'.Subperm values) : Capped cap values' :=
  of_countP_le fun k => (fewer.countP_le _).trans (capped.countP_le k)

end Capped

end Capped

theorem subperm_filterMap (fewer : rows'.Subperm rows) (f : α → Option β) :
    (rows'.filterMap f).Subperm (rows.filterMap f) := by
  obtain ⟨middle, order, part⟩ := fewer
  exact ⟨middle.filterMap f, order.filterMap f, part.filterMap f⟩

theorem subperm_map (fewer : rows'.Subperm rows) (f : α → β) :
    (rows'.map f).Subperm (rows.map f) := by
  simpa using subperm_filterMap fewer (some ∘ f)

/-! ### Sorted lists -/

section Sorted

variable {r : α → α → Prop}

/-- A strictly sorted list is determined by what is in it. -/
theorem eq_of_sorted_of_mem_iff [Std.Asymm r] {l l' : List α} (sorted : l.Pairwise r)
    (sorted' : l'.Pairwise r) (same : ∀ x, x ∈ l ↔ x ∈ l') : l = l' := by
  have distinct : ∀ {l : List α}, l.Pairwise r → l.Nodup := by
    intro l sorted
    refine sorted.imp fun {a b} less => ?_
    rintro rfl
    exact Std.Asymm.asymm a a less less
  have perm := (perm_ext_iff_of_nodup (distinct sorted) (distinct sorted')).mpr same
  exact perm.eq_of_pairwise (fun a b _ _ less more => absurd more (Std.Asymm.asymm a b less))
    sorted sorted'

/-- What comes after an element of a strictly sorted list is what is greater. -/
theorem mem_after_iff [Std.Asymm r] {before after : List α} {x y : α}
    (sorted : (before ++ x :: after).Pairwise r) :
    y ∈ after ↔ y ∈ before ++ x :: after ∧ r x y := by
  obtain ⟨-, rest, across⟩ := pairwise_append.mp sorted
  obtain ⟨later, -⟩ := pairwise_cons.mp rest
  constructor
  · intro member
    exact ⟨mem_append_right _ (mem_cons_of_mem _ member), later y member⟩
  · rintro ⟨member, greater⟩
    rcases mem_append.mp member with early | here
    · exact absurd greater (Std.Asymm.asymm _ _ (across y early x mem_cons_self))
    · rcases mem_cons.mp here with rfl | member
      · exact absurd greater (Std.Asymm.asymm _ _ greater)
      · exact member

/-- A part that is taken from the front ends with an element, and the rest follows it. -/
theorem take_eq_concat {l : List α} {n : Nat} (positive : 0 < n) (more : n < l.length) :
    ∃ early last, l.take n = early ++ [last] ∧ l = early ++ last :: l.drop n := by
  rcases (l.take n).eq_nil_or_concat with none | ⟨early, last, taken⟩
  · have length := congrArg List.length none
    rw [length_take, length_nil] at length
    omega
  · rw [concat_eq_append] at taken
    refine ⟨early, last, taken, ?_⟩
    calc l = l.take n ++ l.drop n := (take_append_drop n l).symm
      _ = early ++ last :: l.drop n := by rw [taken, append_assoc, singleton_append]

end Sorted

/-! ### Results -/

/-- A guard that refuses is passed when the function succeeds. -/
theorem refuse_eq_ok {ε α : Type} {p : Prop} [Decidable p] {e : ε} {rest : Except ε α} {a : α} :
    (if p then .error e else rest) = .ok a ↔ ¬ p ∧ rest = .ok a := by
  split <;> simp_all

theorem eq_ok_of_toOption {ε α : Type} {result : Except ε α} {a : α}
    (succeeded : result.toOption = some a) : result = .ok a := by
  cases result with
  | error _ => cases succeeded
  | ok b =>
    cases succeeded
    rfl

end StoragePlatform.Lib
