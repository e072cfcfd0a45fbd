/-
Module: StoragePlatform.PlacementTable
Purpose: The placement table as an abstract machine: what the control plane can
  do to placement rows, whoever does it.
Trusted boundary: none
Main exports: RowOp, RowOp.after, RowOp.apply, RowOp.apply_eq_updateWhere
-/
import StoragePlatform.Store.Constraints

namespace StoragePlatform

open Lib List

variable {next : Nat} {op : RowOp} {rows : List Placement} {p q : Placement}
variable {status : PlacementStatus} {sel : Placement → Bool}

/-!
Seen from the placement table the whole control plane is eight operations.  Each
one gives every row a new status or removes it, row by row, and only `insert`
adds a row.  Safety properties of the table are proved about these operations;
`Proofs.Steps` shows that every step of the system is one of them.
-/

inductive RowOp where
  | keep
  /-- A new pending row. -/
  | insert (fragmentId nodeId : Uuid)
  /-- Pending rows of the fragments become stored. -/
  | store (fragmentIds : List Uuid)
  /-- Lost rows come back as stored. -/
  | restore (ids : List Nat)
  | lose (sel : Placement → Bool)
  | expire (sel : Placement → Bool)
  | reap (id : Nat)
  /-- Pending rows are removed. -/
  | purge (sel : Placement → Bool)

/-- The status an operation gives a row; `none` when it removes the row. -/
def RowOp.after : RowOp → Placement → Option PlacementStatus
  | .keep, p => some p.status
  | .insert _ _, p => some p.status
  | .store fragmentIds, p =>
    some (if p.status = .pending ∧ p.fragmentId ∈ fragmentIds then .stored else p.status)
  | .restore ids, p => some (if p.status = .lost ∧ p.id ∈ ids then .stored else p.status)
  | .lose sel, p => some (if p.live ∧ sel p then .lost else p.status)
  | .expire sel, p => some (if p.held ∧ sel p then .expiring else p.status)
  | .reap id, p => some (if p.status = .expiring ∧ p.id = id then .deleted else p.status)
  | .purge sel, p => if p.status = .pending ∧ sel p then none else some p.status

/-- The row an operation adds, with the next value of the sequence. -/
def RowOp.added (next : Nat) : RowOp → List Placement
  | .insert fragmentId nodeId =>
    [{ id := next, fragmentId := fragmentId, nodeId := nodeId, status := .pending }]
  | _ => []

def RowOp.apply (next : Nat) (op : RowOp) (rows : List Placement) : List Placement :=
  (rows.filterMap fun p => (op.after p).map fun status => p.setStatus status) ++ op.added next

/-- The rows an operation turns into stored ones. -/
def RowOp.stores : RowOp → Placement → Bool
  | .store fragmentIds, p => p.status = .pending ∧ p.fragmentId ∈ fragmentIds
  | .restore ids, p => p.status = .lost ∧ p.id ∈ ids
  | _, _ => false

namespace RowOp

/-- A row after the operation is an old row with its new status, or the added
one. -/
theorem mem_apply :
    q ∈ op.apply next rows ↔
      (∃ p ∈ rows, op.after p = some q.status ∧ p.setStatus q.status = q) ∨
        q ∈ op.added next := by
  simp only [apply, mem_append, mem_filterMap, Option.map_eq_some_iff]
  refine or_congr ⟨?_, ?_⟩ Iff.rfl
  · rintro ⟨p, member, status, becomes, rfl⟩
    exact ⟨p, member, becomes, rfl⟩
  · rintro ⟨p, member, becomes, same⟩
    exact ⟨p, member, q.status, becomes, same⟩

theorem mem_apply_inv (member : q ∈ op.apply next rows) :
    (∃ p ∈ rows, op.after p = some q.status ∧ p.key = q.key) ∨
      ∃ f n, op = .insert f n ∧
        q = { id := next, fragmentId := f, nodeId := n, status := .pending } := by
  rcases mem_apply.mp member with ⟨p, inRows, becomes, same⟩ | new
  · refine .inl ⟨p, inRows, becomes, ?_⟩
    rw [← same]
    rfl
  · cases op with
    | insert f n => exact .inr ⟨f, n, rfl, mem_singleton.mp new⟩
    | _ => cases new

theorem after_stored :
    op.after p = some .stored ↔
      (p.status = .stored ∧ op.after p = some .stored) ∨ op.stores p = true := by
  constructor
  · intro becomes
    by_cases already : p.status = .stored
    · exact .inl ⟨already, becomes⟩
    · refine .inr ?_
      cases op <;> simp only [after, stores] at becomes ⊢ <;> grind
  · rintro (⟨-, becomes⟩ | chosen)
    · exact becomes
    · cases op <;> simp only [stores] at chosen <;> simp_all [after]

/-- Nothing becomes pending again. -/
theorem after_pending (becomes : op.after p = some .pending) : p.status = .pending := by
  cases op <;> simp only [after] at becomes <;> grind

/-- A row that is not pending stays in the table, and not pending. -/
theorem settled (settled : p.status ≠ .pending) (member : p ∈ rows) (next : Nat) :
    ∃ q ∈ op.apply next rows, p.key = q.key ∧ q.status ≠ .pending := by
  obtain ⟨status, becomes⟩ : ∃ status, op.after p = some status := by
    cases op <;> simp [after, settled]
  refine ⟨p.setStatus status, mem_apply.mpr (.inl ⟨p, member, becomes, rfl⟩), rfl, ?_⟩
  rintro rfl
  exact settled (after_pending becomes)

/-- Once on its way out a row stays there. -/
theorem after_leaving (leaving : p.status = .expiring ∨ p.status = .deleted)
    (becomes : op.after p = some status) : status = .expiring ∨ status = .deleted := by
  cases op <;> simp only [after, Placement.live, Placement.held] at becomes <;> grind

/-- A selected row that the delete does not mark expiring is past that. -/
theorem after_expire (selected : sel p = true) (becomes : (expire sel).after p = some status) :
    status = .expiring ∨ status = .deleted := by
  simp only [after, Option.some.injEq] at becomes
  rw [← becomes]
  cases now : p.status <;> simp [Placement.held, now, selected]

end RowOp

/-! ### The statements as operations -/

/-- The loop of UPDATEs is one UPDATE. -/
theorem markStored_eq (fragmentIds : List Uuid) (rows : List Placement) :
    markStored fragmentIds rows =
      updateWhere (fun p => p.status = .pending ∧ p.fragmentId ∈ fragmentIds)
        (Placement.setStatus .stored) rows := by
  induction fragmentIds generalizing rows with
  | nil =>
    rw [updateWhere_of_none]
    · rfl
    · simp
  | cons f fs ih =>
    rw [markStored, foldl_cons, ← markStored, ih]
    simp only [updateWhere, map_map]
    refine map_congr_left fun p _ => ?_
    simp only [Function.comp_apply, mem_cons]
    grind [Placement.setStatus]

namespace RowOp

@[simp] theorem apply_keep (next : Nat) (rows : List Placement) :
    keep.apply next rows = rows := by
  simp [apply, after, added]

@[simp] theorem apply_insert (next : Nat) (f n : Uuid) (rows : List Placement) :
    (insert f n).apply next rows =
      rows ++ [{ id := next, fragmentId := f, nodeId := n, status := .pending }] := by
  simp [apply, after, added]

/-- An operation that gives the selected rows one status is an UPDATE. -/
theorem apply_eq_updateWhere (gives : ∀ p, op.after p = some (if sel p then status else p.status))
    (next : Nat) (adds : op.added next = []) (rows : List Placement) :
    op.apply next rows = updateWhere sel (Placement.setStatus status) rows := by
  rw [apply, adds, append_nil, updateWhere]
  simp only [gives, Option.map_some, filterMap_eq_map']
  refine map_congr_left fun p _ => ?_
  cases sel p <;> rfl

theorem apply_store (next : Nat) (fragmentIds : List Uuid) (rows : List Placement) :
    (store fragmentIds).apply next rows = markStored fragmentIds rows := by
  rw [markStored_eq]
  exact apply_eq_updateWhere (fun p => by simp [after]) next rfl rows

theorem apply_purge (next : Nat) (sel : Placement → Bool) (rows : List Placement) :
    (purge sel).apply next rows = rows.filter fun p => !(p.status = .pending ∧ sel p) := by
  have adds : (purge sel).added next = [] := rfl
  rw [apply, adds, append_nil, ← filterMap_eq_filter]
  refine filterMap_congr fun p _ => ?_
  simp only [after, Option.guard]
  grind [Placement.setStatus_self]

end RowOp

end StoragePlatform
