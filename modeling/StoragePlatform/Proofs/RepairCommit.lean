/-
Module: StoragePlatform.Proofs.RepairCommit
Purpose: Which receipts a repair commit accepts, and from that when a repair plan
  is honoured, by the placement rows it leaves behind.
Trusted boundary: none
Main exports: ReceiptFor, Signable, PlanHonoured, TargetsOf, honoured_of_ready, ready_of_honoured
-/
import StoragePlatform.Metadata.Commit
import StoragePlatform.Metadata.Plan
import StoragePlatform.PlacementTable

namespace StoragePlatform

open Lib List

variable {sigOk : SigCheck} {wire : Text} {targets : List PlacementTarget} {seen : List Uuid}
variable {wires : List Text} {senders : List ShardRef} {db : DB} {chunkId : Uuid} {p : Placement}
variable {plan : RepairPlan}

/-! ### Receipts for a plan -/

/-- The wire is a receipt of the target's node for the target's fragment. -/
def ReceiptFor (sigOk : SigCheck) (db : DB) (t : ShardRef) (wire : Text) : Prop :=
  ∃ fr ∈ db.fragments, ∃ n ∈ db.nodes, fr.id = t.fragmentId ∧ n.id = t.nodeId ∧
    ∃ r, verifyReceipt sigOk wire n.publicKey n.id fr.id fr.sha256 (toUint64 fr.sizeBytes) = .ok r

/-- Every node can sign a receipt for every fragment of the chunk. -/
def Signable (sigOk : SigCheck) (db : DB) (chunkId : Uuid) : Prop :=
  ∀ fr ∈ db.fragments, fr.chunkId = chunkId → ∀ n ∈ db.nodes, ∃ wire r,
    verifyReceipt sigOk wire n.publicKey n.id fr.id fr.sha256 (toUint64 fr.sizeBytes) = .ok r

/-- The pair of the target has a row in the given status. -/
def DB.PlacedAs (db : DB) (status : PlacementStatus) (t : ShardRef) : Prop :=
  ∃ p ∈ db.placements, p.fragmentId = t.fragmentId ∧ p.nodeId = t.nodeId ∧ p.status = status

/-- What the caller of `PlanRepair` relies on.  `senders` is the order in which
the receipts are sent, `targets` the order in which the commit reads the rows. -/
structure PlanHonoured (sigOk : SigCheck) (db : DB) (chunkId : Uuid) (plan : RepairPlan) :
    Prop where
  pending : ∀ t ∈ plan.targets, db.PlacedAs .pending t
  commits : ∀ targets senders wires, targets.Perm (db.pendingTargetsForChunk chunkId) →
    senders.Perm plan.targets → List.Forall₂ (ReceiptFor sigOk db) senders wires →
    ∃ db', db.commitRepair sigOk targets wires = .ok db' ∧
      ∀ t ∈ plan.targets, db'.PlacedAs .stored t

/-! ### Matching receipts with rows -/

theorem PlacementTarget.accepts_iff {t : PlacementTarget} :
    t.accepts sigOk wire = true ↔ ∃ r, verifyReceipt sigOk wire t.node.publicKey t.node.id
      t.fragment.id t.fragment.sha256 (toUint64 t.fragment.sizeBytes) = .ok r := by
  rw [accepts]
  split
  · rename_i r verified
    simp [verified]
  · rename_i e refused
    simp [refused]

/-- The map keeps a row for every fragment. -/
theorem byFragment_covers {f : Uuid} (listed : ∃ t ∈ targets, t.fragment.id = f) :
    ∃ u ∈ byFragment targets, u.fragment.id = f := by
  induction targets with
  | nil => simp at listed
  | cons first rest ih =>
    obtain ⟨t, member, ofFragment⟩ := listed
    rw [byFragment]
    split
    · rename_i again
      simp only [any_eq_true, decide_eq_true_eq] at again
      rcases mem_cons.mp member with rfl | later
      · exact ih (again.imp fun u found => ⟨found.1, found.2.trans ofFragment⟩)
      · exact ih ⟨t, later, ofFragment⟩
    · rcases mem_cons.mp member with rfl | later
      · exact ⟨t, mem_cons_self, ofFragment⟩
      · obtain ⟨u, kept, same⟩ := ih ⟨t, later, ofFragment⟩
        exact ⟨u, mem_cons_of_mem _ kept, same⟩

/-- A row that is read last stays in the map, alone for its fragment. -/
theorem byFragment_last {u v : PlacementTarget} (kept : v ∈ byFragment (targets ++ [u]))
    (same : v.fragment.id = u.fragment.id) : v = u := by
  induction targets with
  | nil => simpa [byFragment] using kept
  | cons first rest ih =>
    rw [cons_append, byFragment] at kept
    split at kept
    · exact ih kept
    · rename_i alone
      rcases mem_cons.mp kept with rfl | later
      · simp [same] at alone
      · exact ih later

/-! ### When a plan is honoured, by its rows -/

/-- The targets are different fragments of the chunk, on known nodes. -/
structure TargetsOf (db : DB) (chunkId : Uuid) (targets : List ShardRef) : Prop where
  distinct : UniqueOn ShardRef.fragmentId targets
  rows : ∀ t ∈ targets, ∃ fr ∈ db.fragments, ∃ n ∈ db.nodes,
    fr.id = t.fragmentId ∧ fr.chunkId = chunkId ∧ n.id = t.nodeId

/-- The pair has its pending row, and the fragment is pending nowhere else. -/
structure TargetReady (db : DB) (t : ShardRef) : Prop where
  pending : db.PlacedAs .pending t
  alone : ∀ p ∈ db.placements, p.fragmentId = t.fragmentId → p.status = .pending →
    p.nodeId = t.nodeId

/-- A pending row with its fragment and node is what the commit reads. -/
theorem DB.mem_pendingTargets {fr : Fragment} {n : Node} (inPlacements : p ∈ db.placements)
    (inFragments : fr ∈ db.fragments) (inNodes : n ∈ db.nodes) (ofFragment : fr.id = p.fragmentId)
    (onNode : n.id = p.nodeId) (ofChunk : fr.chunkId = chunkId) (pending : p.status = .pending) :
    { placement := p, fragment := fr, node := n } ∈ db.pendingTargetsForChunk chunkId :=
  mem_filter.mpr ⟨DB.mem_placementTargets.mpr
    ⟨inPlacements, inFragments, inNodes, ofFragment, onNode⟩, by simp [ofChunk, pending]⟩

theorem markStored_stored {fragmentIds : List Uuid} {rows : List Placement} (member : p ∈ rows)
    (pending : p.status = .pending) (listed : p.fragmentId ∈ fragmentIds) :
    p.setStatus .stored ∈ markStored fragmentIds rows := by
  rw [markStored_eq, mem_updateWhere]
  exact .inl ⟨p, member, by simp [pending, listed], rfl⟩

/-- A receipt for a ready target is accepted by the row the map keeps. -/
theorem TargetReady.accepted (schema : db.Schema) {t : ShardRef} (ready : TargetReady db t)
    (receipt : ReceiptFor sigOk db t wire)
    (ofChunk : ∀ fr ∈ db.fragments, fr.id = t.fragmentId → fr.chunkId = chunkId)
    (order : targets.Perm (db.pendingTargetsForChunk chunkId)) :
    ∃ u ∈ byFragment targets, u.fragment.id = t.fragmentId ∧ u.accepts sigOk wire = true := by
  obtain ⟨p, inPlacements, onFragment, onNode, pending⟩ := ready.pending
  obtain ⟨fr, inFragments, n, inNodes, ofFragment, ofNode, verified⟩ := receipt
  have listed := DB.mem_pendingTargets inPlacements inFragments inNodes
    (ofFragment.trans onFragment.symm) (ofNode.trans onNode.symm)
    (ofChunk fr inFragments ofFragment) pending
  obtain ⟨u, kept, same⟩ := byFragment_covers ⟨_, order.mem_iff.mpr listed, ofFragment⟩
  have read := mem_filter.mp (order.mem_iff.mp (mem_of_mem_byFragment kept))
  obtain ⟨inPlacements', inFragments', inNodes', joined, onNode'⟩ :=
    DB.mem_placementTargets.mp read.1
  have pending' : u.placement.status = .pending := by simpa using (of_decide_eq_true read.2).2
  -- the fragment is pending on one node only, so the row kept is the target's
  have sameNode := ready.alone u.placement inPlacements' (joined.symm.trans same) pending'
  have frEq : u.fragment = fr :=
    schema.fragment_pk.eq_of_key inFragments' inFragments (same.trans ofFragment.symm)
  have nEq : u.node = n :=
    schema.node_pk.eq_of_key inNodes' inNodes ((onNode'.trans sameNode).trans ofNode.symm)
  refine ⟨u, kept, same, PlacementTarget.accepts_iff.mpr ?_⟩
  rw [frEq, nEq]
  exact verified

/-- Where all targets are ready, receipts from them commit. -/
theorem commitRepair_of_ready (schema : db.Schema) {refs : List ShardRef}
    (of : TargetsOf db chunkId refs) (ready : ∀ t ∈ refs, TargetReady db t)
    (order : targets.Perm (db.pendingTargetsForChunk chunkId)) (sent : senders.Perm refs)
    (receipts : List.Forall₂ (ReceiptFor sigOk db) senders wires) :
    ∃ db', db.commitRepair sigOk targets wires = .ok db' ∧
      ∀ t ∈ refs, db'.PlacedAs .stored t := by
  have accepted : List.Forall₂ (fun (t : ShardRef) w => ∃ u ∈ byFragment targets,
      u.fragment.id = t.fragmentId ∧ u.accepts sigOk w = true) senders wires := by
    refine List.Forall₂.imp ?_ ((forall₂_and_left _ _).mpr
      ⟨fun t member => sent.mem_iff.mp member, receipts⟩)
    rintro t w ⟨member, receipt⟩
    obtain ⟨fr, inFragments, -, -, ofFragment, ofChunk, -⟩ := of.rows t member
    refine (ready t member).accepted schema receipt (fun fr' inFragments' ofFragment' => ?_) order
    rw [schema.fragment_pk.eq_of_key inFragments' inFragments (ofFragment'.trans ofFragment.symm)]
    exact ofChunk
  have matched := acceptReceipts_iff.mpr ⟨forall₂_map_left_iff.mpr accepted,
    of.distinct.perm sent, fun _ _ => not_mem_nil (α := Uuid)⟩
  refine ⟨db.commitRepairPlacements (senders.map ShardRef.fragmentId), ?_, ?_⟩
  · simp only [DB.commitRepair, repairReceipts, matched]
  · intro t member
    obtain ⟨p, inPlacements, onFragment, onNode, pending⟩ := (ready t member).pending
    refine ⟨p.setStatus .stored, markStored_stored inPlacements pending ?_, onFragment, onNode, rfl⟩
    rw [onFragment]
    exact mem_map_of_mem (sent.mem_iff.mpr member)

/-- A fragment that is pending on a second node fails some commit: the map may
keep the other row. -/
theorem ready_of_honoured (schema : db.Schema) (signable : Signable sigOk db chunkId)
    (of : TargetsOf db chunkId plan.targets) (honoured : PlanHonoured sigOk db chunkId plan) :
    ∀ t ∈ plan.targets, TargetReady db t := by
  intro t member
  refine ⟨honoured.pending t member, fun p inPlacements onFragment pending => ?_⟩
  obtain ⟨fr, inFragments, -, -, ofFragment, ofChunk, -⟩ := of.rows t member
  obtain ⟨n, inNodes, onNode⟩ := schema.placement_node p inPlacements
  -- the commit reads the row in question last
  let u : PlacementTarget := { placement := p, fragment := fr, node := n }
  have listed : u ∈ db.pendingTargetsForChunk chunkId :=
    DB.mem_pendingTargets inPlacements inFragments inNodes (ofFragment.trans onFragment.symm)
      onNode ofChunk pending
  have order : ((db.pendingTargetsForChunk chunkId).erase u ++ [u]).Perm
      (db.pendingTargetsForChunk chunkId) :=
    perm_append_comm.trans (perm_cons_erase listed).symm
  obtain ⟨wires, receipts⟩ : ∃ wires, List.Forall₂ (ReceiptFor sigOk db) plan.targets wires := by
    refine exists_forall₂ fun t' member' => ?_
    obtain ⟨fr', inFragments', n', inNodes', ofFragment', ofChunk', ofNode'⟩ := of.rows t' member'
    obtain ⟨wire, r, verified⟩ := signable fr' inFragments' ofChunk' n' inNodes'
    exact ⟨wire, fr', inFragments', n', inNodes', ofFragment', ofNode', r, verified⟩
  obtain ⟨db', committed, -⟩ := honoured.commits _ _ _ order (List.Perm.refl _) receipts
  obtain ⟨wire, inWires, receipt⟩ := forall₂_left receipts member
  obtain ⟨v, kept, accepts⟩ : ∃ v ∈ byFragment ((db.pendingTargetsForChunk chunkId).erase u ++ [u]),
      v.accepts sigOk wire = true := by
    obtain ⟨accepted, matched, -⟩ := DB.commitRepair_ok committed
    obtain ⟨v, kept, -, accepts⟩ := acceptReceipts_all matched wire inWires
    exact ⟨v, kept, accepts⟩
  obtain ⟨fr', -, n', -, ofFragment', ofNode', verified⟩ := receipt
  let own : PlacementTarget := { placement := p, fragment := fr', node := n' }
  have agree := PlacementTarget.accepts_same accepts
    (PlacementTarget.accepts_iff.mpr verified : own.accepts sigOk wire = true)
  have last : v = u :=
    byFragment_last kept ((agree.1.trans ofFragment').trans ofFragment.symm)
  calc p.nodeId = u.node.id := onNode.symm
    _ = v.node.id := by rw [last]
    _ = n'.id := agree.2
    _ = t.nodeId := ofNode'

theorem honoured_of_ready (schema : db.Schema) (of : TargetsOf db chunkId plan.targets)
    (ready : ∀ t ∈ plan.targets, TargetReady db t) : PlanHonoured sigOk db chunkId plan where
  pending := fun t member => (ready t member).pending
  commits := fun _ _ _ order sent receipts =>
    commitRepair_of_ready schema of ready order sent receipts

end StoragePlatform
