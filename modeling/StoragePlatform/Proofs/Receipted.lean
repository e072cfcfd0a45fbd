/-
Module: StoragePlatform.Proofs.Receipted
Purpose: When a placement becomes stored on the strength of its own node's
  receipt.
Trusted boundary: none
Main exports: Receipted, StoredByReceipt, OneTarget, stored_by_receipt
-/
import StoragePlatform.Proofs.Steps

namespace StoragePlatform

open Lib List Sample

variable {db db' : DB} {wires : List Text} {targets : List PlacementTarget} {stored : List Uuid}
variable {u : PlacementTarget} {kind : CommitKind}

/-!
A commit matches receipts against one target per fragment and then updates by
fragment alone.  What stands between the two is how many pending rows a fragment
has: if it had one when the targets were read, and no row is inserted for it
while the commit is in flight, the row that is flipped is the row whose receipt
was checked.  That is the invariant `Held` of a commit in flight.
-/

/-- One of the wires is a receipt of the row's node for the row's fragment. -/
def Receipted (sigOk : SigCheck) (db : DB) (wires : List Text) (p : Placement) : Prop :=
  ∃ fr ∈ db.fragments, ∃ n ∈ db.nodes, fr.id = p.fragmentId ∧ n.id = p.nodeId ∧
    ∃ w ∈ wires, PlacementTarget.accepts sigOk ⟨p, fr, n⟩ w = true
deriving Decidable

/-- The receipts of the commit call an event completes. -/
def commitWires (s : System) : Event → List Text
  | .move i .commit =>
    match s.calls[i]? with
    | some (.committing _ wires _ _) => wires
    | _ => []
  | _ => []

/-- Every row the step takes from pending to stored has a receipt of its own in
the commit call that takes it there. -/
def StoredByReceipt (sigOk : SigCheck) (s : System) (e : Event) (t : System) : Prop :=
  ∀ p ∈ s.db.placements, ∀ q ∈ t.db.placements, q.id = p.id → p.status = .pending →
    q.status = .stored → Receipted sigOk s.db (commitWires s e) p
deriving Decidable

/-- The fragments a commit in flight has read as targets. -/
def Call.targetFragments : Call → List Uuid
  | .committing _ _ targets _ => targets.map fun t => t.fragment.id
  | _ => []

/-- The targets the read of a commit call returns. -/
def readTargets (db : DB) : Event → List PlacementTarget
  | .request (.commitUpload _ versionId _ _) => db.pendingTargetsForVersion versionId
  | .request (.commitRepair chunkId _ _) => db.pendingTargetsForChunk chunkId
  | _ => []

/-- The fragment an INSERT of a placement row is for. -/
def insertedFragment (s : System) : Event → Option Uuid
  | .move i .insert =>
    match s.calls[i]? with
    | some (.inserting _ _ ((fragmentId, _) :: _)) => some fragmentId
    | _ => none
  | _ => none

/-- A commit reads at most one target per fragment, and no row is inserted for a
fragment that a commit in flight has read. -/
def OneTarget (s : System) (e : Event) (_ : System) : Prop :=
  UniqueOn (fun t : PlacementTarget => t.fragment.id) (readTargets s.db e) ∧
    ∀ f ∈ (insertedFragment s e).toList, ∀ call ∈ s.calls, f ∉ call.targetFragments
deriving Decidable

variable {sigOk : SigCheck} {s t : System} {e : Event}

/-! ### A commit in flight -/

/-- What a commit in flight rests on: it only marks fragments it has read, and
every pending row of such a fragment has its receipt among the wires. -/
structure Held (sigOk : SigCheck) (db : DB) (wires : List Text)
    (targets : List PlacementTarget) (stored : List Uuid) : Prop where
  read : ∀ f ∈ stored, f ∈ targets.map fun t => t.fragment.id
  receipted : ∀ p ∈ db.placements, p.status = .pending → p.fragmentId ∈ stored →
    Receipted sigOk db wires p

theorem Receipted.grow {p q : Placement} (h : Receipted sigOk db wires p) (grows : Grows db db')
    (same : p.key = q.key) : Receipted sigOk db' wires q := by
  obtain ⟨fr, inFragments, n, inNodes, joined, onNode, w, inWires, accepted⟩ := h
  obtain ⟨n', inNodes', sameId, sameKey, -⟩ := grows.nodes n inNodes
  have fragment : p.fragmentId = q.fragmentId := congrArg (·.2.1) same
  have node : p.nodeId = q.nodeId := congrArg (·.2.2) same
  refine ⟨fr, grows.fragments inFragments, n', inNodes', joined.trans fragment,
    sameId.trans (onNode.trans node), w, inWires, ?_⟩
  simp only [PlacementTarget.accepts, sameId, sameKey] at accepted ⊢
  exact accepted

/-- The read that starts a commit establishes the invariant.  `all` are the
targets the query returns; with a row of a fragment they contain every pending
row of it. -/
theorem Held.of_read {all : List PlacementTarget} (schema : db.Schema) (order : targets.Perm all)
    (unique : UniqueOn (fun t : PlacementTarget => t.fragment.id) all)
    (closed : ∀ u ∈ all, u ∈ db.placementTargets ∧ ∀ p ∈ db.placements, ∀ n ∈ db.nodes,
      p.status = .pending → u.fragment.id = p.fragmentId → n.id = p.nodeId →
        ⟨p, u.fragment, n⟩ ∈ all) (matched : ∀ f ∈ stored, ∃ u ∈ targets, u.fragment.id = f ∧
      (u.placement.status = .pending → ∃ w ∈ wires, u.accepts sigOk w = true)) :
    Held sigOk db wires targets stored where
  read f member := by
    obtain ⟨u, inTargets, same, -⟩ := matched f member
    exact mem_map.mpr ⟨u, inTargets, same⟩
  receipted p inTable pending member := by
    obtain ⟨u, inTargets, same, checked⟩ := matched p.fragmentId member
    have inAll : u ∈ all := order.mem_iff.mp inTargets
    obtain ⟨isTarget, others⟩ := closed u inAll
    obtain ⟨n, inNodes, onNode⟩ := schema.placement_node p inTable
    -- the only target of the fragment is the row itself
    have only : (⟨p, u.fragment, n⟩ : PlacementTarget) = u :=
      unique.eq_of_key (others p inTable n inNodes pending same onNode) inAll rfl
    have placement : p = u.placement := congrArg PlacementTarget.placement only
    obtain ⟨w, inWires, accepted⟩ := checked (placement ▸ pending)
    refine ⟨u.fragment, (DB.mem_placementTargets.mp isTarget).2.1, n, inNodes, same, onNode, w,
      inWires, ?_⟩
    rw [only]
    exact accepted

theorem pendingTargetsForVersion_closed {versionId : Uuid}
    (member : u ∈ db.pendingTargetsForVersion versionId) :
    u ∈ db.placementTargets ∧ ∀ p ∈ db.placements, ∀ n ∈ db.nodes, p.status = .pending →
      u.fragment.id = p.fragmentId → n.id = p.nodeId →
        ⟨p, u.fragment, n⟩ ∈ db.pendingTargetsForVersion versionId := by
  simp only [DB.pendingTargetsForVersion, mem_filter, decide_eq_true_eq] at member ⊢
  refine ⟨member.1, fun p inTable n inNodes pending joined onNode => ⟨?_, ?_, member.2.2⟩⟩
  · exact DB.mem_placementTargets.mpr
      ⟨inTable, (DB.mem_placementTargets.mp member.1).2.1, inNodes, joined, onNode⟩
  · simp [Placement.live, pending]

theorem pendingTargetsForChunk_closed {chunkId : Uuid}
    (member : u ∈ db.pendingTargetsForChunk chunkId) :
    u ∈ db.placementTargets ∧ ∀ p ∈ db.placements, ∀ n ∈ db.nodes, p.status = .pending →
      u.fragment.id = p.fragmentId → n.id = p.nodeId →
        ⟨p, u.fragment, n⟩ ∈ db.pendingTargetsForChunk chunkId := by
  simp only [DB.pendingTargetsForChunk, mem_filter, decide_eq_true_eq] at member ⊢
  refine ⟨member.1, fun p inTable n inNodes pending joined onNode =>
    ⟨DB.mem_placementTargets.mpr ?_, member.2.1, pending⟩⟩
  exact ⟨inTable, (DB.mem_placementTargets.mp member.1).2.1, inNodes, joined, onNode⟩

/-- What the list handed to the store is made of: a fragment read as stored, or
one whose target accepted a wire. -/
theorem uploadReceipts_matched (ok : uploadReceipts sigOk targets wires = .ok stored) :
    ∀ f ∈ stored, ∃ u ∈ targets, u.fragment.id = f ∧
      (u.placement.status = .pending → ∃ w ∈ wires, u.accepts sigOk w = true) := by
  obtain ⟨accepted, found, rfl⟩ := uploadReceipts_ok ok
  intro f member
  rcases mem_append.mp member with already | new
  · simp only [alreadyStored, mem_map, mem_filter, decide_eq_true_eq] at already
    obtain ⟨u, ⟨inTargets, isStored⟩, same⟩ := already
    exact ⟨u, inTargets, same, fun pending => by simp [isStored] at pending⟩
  · obtain ⟨u, inMap, same, checked⟩ := acceptReceipts_sound found f new
    exact ⟨u, mem_of_mem_byFragment inMap, same, fun _ => checked⟩

theorem repairReceipts_matched (ok : repairReceipts sigOk targets wires = .ok stored) :
    ∀ f ∈ stored, ∃ u ∈ targets, u.fragment.id = f ∧
      (u.placement.status = .pending → ∃ w ∈ wires, u.accepts sigOk w = true) := by
  intro f member
  obtain ⟨u, inMap, same, checked⟩ := acceptReceipts_sound (repairReceipts_ok ok) f member
  exact ⟨u, mem_of_mem_byFragment inMap, same, fun _ => checked⟩

/-- A call enters the commit stage only by the read of a commit request. -/
theorem CallBegun.held {r : Request} (schema : s.db.Schema)
    (unique : UniqueOn (fun t : PlacementTarget => t.fragment.id) (readTargets s.db (.request r)))
    (begun : CallBegun sigOk s.db r (.committing kind wires targets stored) db') :
    Held sigOk s.db wires targets stored ∧ db' = s.db := by
  cases begun with
  | commitUpload read matched =>
    exact ⟨.of_read schema read unique (fun _ => pendingTargetsForVersion_closed)
      (uploadReceipts_matched matched), rfl⟩
  | commitRepair read matched =>
    exact ⟨.of_read schema read unique (fun _ => pendingTargetsForChunk_closed)
      (repairReceipts_matched matched), rfl⟩

/-- A commit call in flight has been there before, or has just begun. -/
theorem step_committing (moved : step sigOk s e = some t)
    (inFlight : .committing kind wires targets stored ∈ t.calls) :
    .committing kind wires targets stored ∈ s.calls ∨ ∃ r, e = .request r ∧
      s.db.begin sigOk r = some (.committing kind wires targets stored, t.db) := by
  have failed : ∀ plan : Planner, plan.failed ≠ .committing kind wires targets stored := by
    intro plan
    cases plan <;> simp [Planner.failed]
  cases step_inv moved with
  | request begun =>
    rcases mem_append_row.mp inFlight with old | rfl
    · exact .inl old
    · exact .inr ⟨_, rfl, begun⟩
  | move current advanced =>
    rcases mem_or_eq_of_mem_set inFlight with old | new
    · exact .inl old
    · cases advanced <;> first | cases new | exact absurd new.symm (failed _)
  | act acted => exact .inl inFlight

/-! ### The invariant of a run -/

structure CommitsHeld (sigOk : SigCheck) (s : System) : Prop where
  schema : s.db.Schema
  held : ∀ kind wires targets stored, .committing kind wires targets stored ∈ s.calls →
    Held sigOk s.db wires targets stored

theorem CommitsHeld.init : CommitsHeld sigOk System.init where
  schema := DB.Schema.empty
  held _ _ _ _ member := by cases member

/-- A commit that was in flight before the step still holds its receipts. -/
theorem Held.step (h : Held sigOk s.db wires targets stored)
    (inFlight : .committing kind wires targets stored ∈ s.calls)
    (moved : StoragePlatform.step sigOk s e = some t) (guard : OneTarget s e t) :
    Held sigOk t.db wires targets stored where
  read := h.read
  receipted q member pending marked := by
    rw [step_placements moved] at member
    rcases RowOp.mem_apply_inv member with ⟨p, inTable, becomes, same⟩ | ⟨f, n, op, rfl⟩
    · rw [pending] at becomes
      have fragment : p.fragmentId = q.fragmentId := congrArg (·.2.1) same
      exact (h.receipted p inTable (RowOp.after_pending becomes) (fragment ▸ marked)).grow
        (step_grows moved) same
    · -- a row for a fragment the commit has read cannot be inserted now
      obtain ⟨-, i, plan, assigns, todo, rfl, current⟩ := rowOp_insert op
      have inserted : insertedFragment s (.move i .insert) = some f := by
        simp [insertedFragment, current]
      exact absurd (h.read f marked) (guard.2 f (by simp [inserted]) _ inFlight)

theorem CommitsHeld.step (s : System) (e : Event) (t : System) (h : CommitsHeld sigOk s)
    (moved : StoragePlatform.step sigOk s e = some t) (guard : OneTarget s e t) :
    CommitsHeld sigOk t where
  schema := step_schema s e t h.schema moved
  held kind wires targets stored inFlight := by
    rcases step_committing moved inFlight with old | ⟨r, rfl, begun⟩
    · exact (h.held kind wires targets stored old).step old moved guard
    · obtain ⟨held, same⟩ := CallBegun.held h.schema guard.1 (begin_inv begun)
      rw [same]
      exact held

/-- Inside the invariant a flip has its receipt. -/
theorem CommitsHeld.storedByReceipt (s : System) (e : Event) (t : System)
    (h : CommitsHeld sigOk s) (moved : StoragePlatform.step sigOk s e = some t) :
    StoredByReceipt sigOk s e t := by
  intro p inTable q member sameId pending isStored
  rw [step_placements moved] at member
  rcases RowOp.mem_apply_inv member with ⟨p', inTable', becomes, same⟩ | ⟨f, n, -, rfl⟩
  · have : p' = p := h.schema.placement_pk.eq_of_key inTable' inTable
      ((congrArg (·.1) same).trans sameId)
    subst this
    rw [isStored] at becomes
    rcases RowOp.after_stored.mp becomes with ⟨already, -⟩ | stores
    · simp [pending] at already
    · cases op : rowOp s e with
      | store stored =>
        simp only [op, RowOp.stores, decide_eq_true_eq] at stores
        obtain ⟨i, kind, wires, targets, rfl, current⟩ := rowOp_store op
        simp only [commitWires, current]
        exact (h.held kind wires targets stored (mem_of_getElem? current)).receipted p'
          inTable' pending stores.2
      | restore ids => simp [op, RowOp.stores, pending] at stores
      | _ => simp [op, RowOp.stores] at stores
  · cases isStored

/-- In every run whose commits read one target per fragment, and in which no row
is inserted for a fragment under a commit, a placement becomes stored only with
a receipt of its own node. -/
theorem stored_by_receipt (sigOk : SigCheck) (events : List Event)
    (guarded : EveryStep (step sigOk) OneTarget System.init events) :
    EveryStep (step sigOk) (StoredByReceipt sigOk) System.init events :=
  EveryStep.of_inv CommitsHeld.step
    (fun s e t h moved _ => h.storedByReceipt s e t moved) CommitsHeld.init guarded

/-- The worked upload is such a run. -/
theorem upload_stored_by_receipt :
    EveryStep (step toySig) (StoredByReceipt toySig) System.init upload :=
  stored_by_receipt toySig upload
    (upload_everyStep (by decide +kernel) (by decide +kernel) (by decide +kernel))

namespace Sample

/-- A node with a shard goes offline and two workers plan the repair of the chunk
at once.  Both find the shard missing, one places it on node 14 and the other on
node 15, and the receipt of node 15 is committed. -/
def twoWorkers : List Event :=
  [.act (.nodeOffline (node 0).id),
    .request (.planRepair chunk.id), .request (.planRepair chunk.id),
    .move 2 .load, .move 3 .load,
    .move 2 (.place (env fun i => i = 14)), .move 2 .insert,
    .move 3 (.place (env fun i => i = 15)), .move 3 .insert,
    .request (.commitRepair chunk.id [wire 0 15] [target 15 0 14, target 16 0 15]),
    .move 4 .commit]

end Sample

/-- The commit marks the copy on node 14 stored as well, for which there is no
receipt. -/
theorem twoWorkers_stored_without_receipt :
    ¬ EveryStep (step toySig) (StoredByReceipt toySig) System.init
      (upload ++ twoWorkers) := by
  intro all
  have rest := all.append upload_committed
  revert rest
  decide +kernel

end StoragePlatform
