/-
Module: StoragePlatform.Lib.Totals
Purpose: Sums over the rows of a table that meet a condition, as SELECT SUM with a
  WHERE or a GROUP BY reads them.
Trusted boundary: none
Main exports: total, sumBy, total_append, total_split, total_updateWhere_key
-/
import Mathlib.Algebra.BigOperators.Group.List.Basic
import Mathlib.Algebra.Order.BigOperators.Group.List
import Mathlib.Algebra.Order.Ring.Int
import StoragePlatform.Lib.Table

namespace StoragePlatform.Lib

open List

section Totals

variable {α β κ : Type*}

/-- `SELECT SUM(f) FROM rows WHERE sel`, 0 if there is none. -/
def total (f : α → Int) (sel : α → Bool) (rows : List α) : Int :=
  ((rows.filter sel).map f).sum

@[simp] theorem total_nil (f : α → Int) (sel : α → Bool) : total f sel [] = 0 := rfl

theorem total_cons (f : α → Int) (sel : α → Bool) (row : α) (rows : List α) :
    total f sel (row :: rows) = (if sel row then f row else 0) + total f sel rows := by
  simp only [total, filter_cons]
  split
  · rw [map_cons, sum_cons]
  · rw [Int.zero_add]

theorem total_append (f : α → Int) (sel : α → Bool) (rows rows' : List α) :
    total f sel (rows ++ rows') = total f sel rows + total f sel rows' := by
  simp only [total, filter_append, map_append, sum_append]

theorem total_singleton (f : α → Int) (sel : α → Bool) (row : α) :
    total f sel [row] = if sel row then f row else 0 := by
  rw [total_cons, total_nil, Int.add_zero]

theorem total_congr {f g : α → Int} {sel sel' : α → Bool} {rows : List α}
    (same : ∀ row ∈ rows, sel row = sel' row ∧ (sel row = true → f row = g row)) :
    total f sel rows = total g sel' rows := by
  induction rows with
  | nil => rfl
  | cons row rows ih =>
    obtain ⟨sameSel, sameValue⟩ := same row mem_cons_self
    rw [total_cons, total_cons, ih fun r member => same r (mem_cons_of_mem _ member), ← sameSel]
    split
    · rename_i chosen
      rw [sameValue chosen]
    · rfl

/-- A sum is the sum over a part and the sum over the rest. -/
theorem total_split (f : α → Int) (sel part : α → Bool) (rows : List α) :
    total f sel rows =
      total f (fun row => sel row && part row) rows +
        total f (fun row => sel row && !part row) rows := by
  induction rows with
  | nil => rfl
  | cons row rows ih =>
    simp only [total_cons, ih]
    cases sel row <;> cases part row <;> simp <;> omega

/-- If every group of a GROUP BY sums to zero, so does the whole. -/
theorem total_eq_zero_of_classes [DecidableEq κ] {f : α → Int} {sel : α → Bool} (key : α → κ)
    {rows : List α}
    (classes : ∀ k, total f (fun row => sel row && decide (key row = k)) rows = 0) :
    total f sel rows = 0 := by
  -- the first row's group is taken out, the rest has fewer rows
  induction length : rows.length using Nat.strong_induction_on generalizing rows with
  | _ size ih =>
    cases rows with
    | nil => rfl
    | cons row rest =>
      have filtered : ∀ sel' : α → Bool,
          total f sel' ((row :: rest).filter fun r => !decide (key r = key row)) =
            total f (fun r => sel' r && !decide (key r = key row)) (row :: rest) := by
        intro sel'
        simp only [total, filter_filter]
      have fewer : ((row :: rest).filter fun r => !decide (key r = key row)).length < size := by
        rw [← length, filter_cons_of_neg (by simp)]
        exact Nat.lt_succ_of_le (length_filter_le _ _)
      have others : total f sel ((row :: rest).filter fun r => !decide (key r = key row)) = 0 := by
        refine ih _ fewer (fun k => ?_) rfl
        rw [filtered]
        by_cases own : k = key row
        · subst own
          have nothing : total f (fun r => (sel r && decide (key r = key row)) &&
              !decide (key r = key row)) (row :: rest) =
                total f (fun _ => false) (row :: rest) := by
            apply total_congr
            intro r _
            cases sel r <;> cases decide (key r = key row) <;> simp
          rw [nothing]
          simp [total]
        · rw [← classes k]
          apply total_congr
          intro r _
          constructor
          · by_cases here : key r = k
            · simp [here, own]
            · simp [here]
          · exact fun _ => rfl
      rw [total_split f sel (fun r => decide (key r = key row)), classes (key row),
        ← filtered, others]
      rfl

/-- If every group but one sums to zero, that one is the whole. -/
theorem total_eq_class [DecidableEq κ] {f : α → Int} {sel : α → Bool} (key : α → κ)
    {rows : List α} {k₀ : κ}
    (others : ∀ k, k ≠ k₀ → total f (fun row => sel row && decide (key row = k)) rows = 0) :
    total f sel rows = total f (fun row => sel row && decide (key row = k₀)) rows := by
  have rest : total f (fun row => sel row && !decide (key row = k₀)) rows = 0 := by
    apply total_eq_zero_of_classes key
    intro k
    by_cases own : k = k₀
    · have nothing : total f
          (fun row => (sel row && !decide (key row = k₀)) && decide (key row = k)) rows =
            total f (fun _ => false) rows := by
        apply total_congr
        intro row _
        subst own
        cases sel row <;> cases decide (key row = k) <;> simp
      rw [nothing]
      simp [total]
    · rw [← others k own]
      apply total_congr
      intro row _
      constructor
      · by_cases here : key row = k
        · simp [here, own]
        · simp [here]
      · exact fun _ => rfl
  rw [total_split f sel fun row => decide (key row = k₀), rest, Int.add_zero]

/-- `SELECT key, SUM(f) FROM rows GROUP BY key`.  The order of the groups is that of
their last rows; a query without ORDER BY leaves it open. -/
def sumBy [DecidableEq κ] (key : α → κ) (f : α → Int) (rows : List α) : List (κ × Int) :=
  (rows.map key).dedup.map fun k => (k, total f (fun row => key row = k) rows)

/-- Only the two columns matter. -/
theorem sumBy_eq [DecidableEq κ] (key : α → κ) (f : α → Int) (rows : List α) :
    sumBy key f rows = sumBy Prod.fst Prod.snd (rows.map fun row => (key row, f row)) := by
  have columns : ∀ k, total f (fun row => decide (key row = k)) rows =
      total Prod.snd (fun pair : κ × Int => decide (pair.1 = k))
        (rows.map fun row => (key row, f row)) := by
    intro k
    simp only [total, filter_map, map_map]
    rfl
  simp only [sumBy, columns, map_map]
  rfl

theorem total_nonneg {f : α → Int} {sel : α → Bool} {rows : List α}
    (nonneg : ∀ row ∈ rows, sel row = true → 0 ≤ f row) : 0 ≤ total f sel rows := by
  refine sum_nonneg fun value member => ?_
  obtain ⟨row, chosen, rfl⟩ := mem_map.mp member
  exact nonneg row (mem_filter.mp chosen).1 (mem_filter.mp chosen).2

/-- A sum is bounded by another if its rows have distinct partners there that are at
least as large, and nothing there is negative. -/
theorem total_le_of_key {f : α → Int} {g : β → Int} {sel : α → Bool} {sel' : β → Bool}
    {key : α → κ} (key' : β → κ) {rows : List α} {rows' : List β} (unique : UniqueOn key rows)
    (partner : ∀ row ∈ rows, sel row = true →
      ∃ row' ∈ rows', sel' row' = true ∧ key' row' = key row ∧ f row ≤ g row')
    (nonneg : ∀ row' ∈ rows', sel' row' = true → 0 ≤ g row') :
    total f sel rows ≤ total g sel' rows' := by
  induction rows generalizing rows' with
  | nil => exact total_nonneg nonneg
  | cons row rows ih =>
    rw [UniqueOn, map_cons, nodup_cons] at unique
    have later : ∀ other ∈ rows, sel other = true → ∃ row' ∈ rows', sel' row' = true ∧
        key' row' = key other ∧ f other ≤ g row' :=
      fun other member => partner other (mem_cons_of_mem _ member)
    rw [total_cons]
    split
    · rename_i chosen
      obtain ⟨row', inRows', chosen', sameKey, bound⟩ := partner row mem_cons_self chosen
      -- the partner is used up; the other rows have theirs elsewhere
      obtain ⟨before, after, rfl⟩ := append_of_mem inRows'
      have rest := @ih (before ++ after) unique.2 ?_ ?_
      · rw [total_append] at rest ⊢
        rw [total_cons, if_pos chosen']
        omega
      · intro other member chosenOther
        obtain ⟨other', inAll, chosenOther', sameKey', bound'⟩ := later other member chosenOther
        have different : other' ≠ row' := by
          rintro rfl
          exact unique.1 ((sameKey.symm.trans sameKey') ▸ mem_map_of_mem member)
        refine ⟨other', ?_, chosenOther', sameKey', bound'⟩
        simp only [mem_append, mem_cons] at inAll ⊢
        tauto
      · intro other' member
        refine nonneg other' ?_
        simp only [mem_append, mem_cons] at member ⊢
        tauto
    · rw [Int.zero_add]
      exact ih unique.2 later nonneg

/-- What an UPDATE that adds `d` to the row of one key does to the sum of a key. -/
theorem total_updateWhere_key [DecidableEq κ] {f : α → Int} {key : α → κ} {rows : List α}
    (unique : UniqueOn key rows) {set : α → α} {d : Int} {k' : κ}
    (present : ∃ row ∈ rows, key row = k') (keeps : ∀ row, key (set row) = key row)
    (adds : ∀ row, f (set row) = f row + d) (k : κ) :
    total f (fun row => decide (key row = k))
        (updateWhere (fun row => decide (key row = k')) set rows) =
      total f (fun row => decide (key row = k)) rows + if k = k' then d else 0 := by
  induction rows with
  | nil =>
    obtain ⟨row, member, _⟩ := present
    cases member
  | cons row rows ih =>
    have rest : UniqueOn key rows := (nodup_cons.mp unique).2
    by_cases here : key row = k'
    · have others : updateWhere (fun r => decide (key r = k')) set rows = rows := by
        apply updateWhere_of_none
        intro r member
        refine decide_eq_false fun same => (nodup_cons.mp unique).1 ?_
        rw [here, ← same]
        exact mem_map_of_mem member
      rw [updateWhere_cons, others, decide_eq_true here, if_pos rfl, total_cons, total_cons,
        keeps, adds, here]
      by_cases own : k = k'
      · simp only [own, decide_true, if_true]
        omega
      · simp [own, Ne.symm own]
    · have later : ∃ r ∈ rows, key r = k' := by
        obtain ⟨r, member, same⟩ := present
        rcases mem_cons.mp member with rfl | member
        · exact absurd same here
        · exact ⟨r, member, same⟩
      rw [updateWhere_cons, decide_eq_false here, if_neg Bool.false_ne_true, total_cons,
        total_cons, ih rest later, Int.add_assoc]

end Totals

end StoragePlatform.Lib
