/-
Module: StoragePlatform.PlacementTx
Purpose: The placement table between the statements of SoftDeleteFile
  (internal/store/files.go) and CommitUpload (internal/store/uploads.go) and their
  COMMIT, under READ COMMITTED.
Trusted boundary: human-reviewed spec
Main exports: RowTx, deleteTx, commitTx, rowRules, RowEvent, rowStep
-/
import StoragePlatform.Lib.Transactions
import StoragePlatform.PlacementTable

namespace StoragePlatform

open Lib

/-!
In `System` a transaction is one step.  Here its statements on the placement table are
one step and its COMMIT is another, and other calls run in between: a row may be
inserted after the UPDATE of a delete, and lost after the count of a commit.

The rows an UPDATE changes stay locked until its transaction ends, and the change
reaches the table at COMMIT.  A statement that would change a locked row waits.
-/

/-- A transaction on the placement table. -/
structure RowTx where
  /-- Its UPDATE, or the loop of them. -/
  op : RowOp
  /-- The `count(*)` after it, in the table as the transaction sees it. -/
  passes : List Placement → Bool
  /-- Its statements have run. -/
  ready : Bool
  /-- The rows it has changed, as they are in the table. -/
  changed : List Placement
  /-- History: the rows its UPDATE has looked at. -/
  found : List Placement

/-- The transaction of `SoftDeleteFile` for the file row `f`. -/
def deleteTx (db : DB) (f : File) : RowTx :=
  ⟨.expire (db.placementOf f.inDelete), fun _ => true, false, [], []⟩

/-- The transaction of `CommitUpload` for a pending version. -/
def commitTx (db : DB) (versionId : Uuid) (stored : List Uuid) : RowTx :=
  ⟨.store stored, fun rows => { db with placements := rows }.shortChunks versionId = [], false, [],
    []⟩

namespace RowTx

def locks (t : RowTx) (id : Nat) : Bool := t.changed.any fun p => p.id = id

/-- What its COMMIT makes of a row. -/
def after (t : RowTx) (p : Placement) : Option PlacementStatus :=
  if t.locks p.id then t.op.after p else some p.status

/-- The statements, if they need not wait and the count lets the transaction go on. -/
def next (rows : List Placement) (others : List RowTx) (t : RowTx) : Option RowTx :=
  let changed := rows.filter fun p => t.op.after p ≠ some p.status
  if t.ready ∨ (changed.any fun p => others.any fun u => u.locks p.id) ∨
      ¬ t.passes (t.op.apply 0 rows) then none
  else some { t with ready := true, changed := changed, found := rows }

def commit (rows : List Placement) (t : RowTx) : Option (List Placement) :=
  if t.ready then some (rows.filterMap fun p => (t.after p).map fun status => p.setStatus status)
  else none

end RowTx

/-- The transactions on the placement table. -/
def rowRules : TxRules (List Placement) RowTx RowTx Unit where
  start _ t := if t.ready then none else some { t with changed := [], found := [] }
  next rows others t _ := t.next rows others
  commit := RowTx.commit

inductive RowEvent where
  | tx (e : TxEvent RowTx Unit)
  /-- A statement outside these transactions; `id` is what the sequence returns. -/
  | single (op : RowOp) (id : Nat)

/-- A sequence returns no value twice. -/
def rowStep (s : TxState (List Placement) RowTx) :
    RowEvent → Option (TxState (List Placement) RowTx)
  | .tx e => rowRules.step s e
  | .single op id =>
    if (∀ p ∈ s.db, op.after p = some p.status ∨ ∀ t ∈ s.txs, t.locks p.id = false) ∧
        ∀ p ∈ s.db ++ s.txs.flatMap RowTx.found, p.id ≠ id then
      some { s with db := op.apply id s.db }
    else none

end StoragePlatform
