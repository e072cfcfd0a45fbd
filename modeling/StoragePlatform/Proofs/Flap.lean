/-
Module: StoragePlatform.Proofs.Flap
Purpose: The handling of a returning node, with other processes in between: when
  a verified copy is not the last one to go.
Trusted boundary: none
Main exports: Elsewhere, OthersRun, FlapRun, flap_keeps_copy_iff, flap_expires_last_copy
-/
import StoragePlatform.Proofs.Caps

namespace StoragePlatform

open Lib List Sample

variable {p : Placement} {db : DB} {nodeId : Uuid}

/-! ### Steps in between -/

/-- The step is not one of call `i` and leaves the rows on the node as they are. -/
def Elsewhere (i : Nat) (nodeId : Uuid) (s : System) (e : Event) (t : System) : Prop :=
  (∀ m, e ≠ .move i m) ∧ ∀ p ∈ s.db.placements, p.nodeId = nodeId → p ∈ t.db.placements

/-- Audits, offline events, repairs and anything else that concerns other nodes,
in any order. -/
def OthersRun (sigOk : SigCheck) (i : Nat) (nodeId : Uuid) (s t : System) : Prop :=
  ∃ events, exec (step sigOk) s events = some t ∧
    EveryStep (step sigOk) (Elsewhere i nodeId) s events

section Between

variable {sigOk : SigCheck} {i : Nat} {s t : System}

theorem OthersRun.refl (s : System) : OthersRun sigOk i nodeId s s :=
  ⟨[], rfl, trivial⟩

theorem OthersRun.preserves {I : System → Prop} (between : OthersRun sigOk i nodeId s t)
    (preserved : ∀ s e t, I s → step sigOk s e = some t → Elsewhere i nodeId s e t → I t)
    (start : I s) : I t := by
  obtain ⟨events, run, elsewhere⟩ := between
  exact (EveryState.of_step preserved start elsewhere).last run

theorem OthersRun.schema (between : OthersRun sigOk i nodeId s t) (schema : s.db.Schema) :
    t.db.Schema :=
  between.preserves (I := fun s => s.db.Schema) (fun s e t inside moved _ =>
    step_schema s e t inside moved) schema

theorem OthersRun.row (between : OthersRun sigOk i nodeId s t) (member : p ∈ s.db.placements)
    (onNode : p.nodeId = nodeId) : p ∈ t.db.placements :=
  between.preserves (I := fun s => p ∈ s.db.placements) (fun _ _ _ inside _ elsewhere =>
    elsewhere.2 p inside onNode) member

/-- A call only changes when it moves. -/
theorem step_keeps_call {e : Event} {call : Call} (moved : step sigOk s e = some t)
    (other : ∀ m, e ≠ .move i m) (current : s.calls[i]? = some call) :
    t.calls[i]? = some call := by
  cases step_inv moved with
  | request begun =>
    have inRange := (List.getElem?_eq_some_iff.mp current).1
    rw [getElem?_append_left inRange]
    exact current
  | @move j m _ _ _ _ _ =>
    have different : j ≠ i := fun same => other m (by rw [same])
    rw [getElem?_set_ne different]
    exact current
  | act acted => exact current

theorem OthersRun.call (between : OthersRun sigOk i nodeId s t) {call : Call}
    (current : s.calls[i]? = some call) : t.calls[i]? = some call :=
  between.preserves (I := fun s => s.calls[i]? = some call) (fun _ _ _ inside moved elsewhere =>
    step_keeps_call moved elsewhere.1 inside) current

end Between

/-! ### The handler -/

/-- One run of `onNodeOnline` for a node: the list of its lost copies, their
revalidation with the given answers, and the two UPDATEs of `ApplyFlap`. -/
structure FlapRun (sigOk : SigCheck) (nodeId : Uuid) (verdict : Nat → Bool) where
  /-- Before `ListLostOnNode`. -/
  returning : System
  listed : System
  verifying : System
  verified : System
  restoring : System
  restored : System
  /-- Before `ExpirePlacements`. -/
  expiring : System
  /-- Right after `ApplyFlap`. -/
  ended : System
  schema : returning.db.Schema
  list : step sigOk returning (.request (.nodeOnline nodeId)) = some listed
  beforeVerdict : OthersRun sigOk returning.calls.length nodeId listed verifying
  revalidate : step sigOk verifying (.move returning.calls.length (.revalidate verdict)) =
    some verified
  beforeRestore : OthersRun sigOk returning.calls.length nodeId verified restoring
  restore : step sigOk restoring (.move returning.calls.length .restore) = some restored
  beforeExpire : OthersRun sigOk returning.calls.length nodeId restored expiring
  expire : step sigOk expiring (.move returning.calls.length .expire) = some ended

/-- The fragment has a stored placement. -/
def DB.HasStored (db : DB) (fragmentId : Uuid) : Prop :=
  ∃ p ∈ db.placements, p.fragmentId = fragmentId ∧ p.status = .stored

/-- The fragment has a stored placement on another node. -/
def DB.StoredElsewhere (db : DB) (nodeId fragmentId : Uuid) : Prop :=
  ∃ p ∈ db.placements, p.fragmentId = fragmentId ∧ p.status = .stored ∧ p.nodeId ≠ nodeId

theorem DB.mem_listLostOnNode {row : LostPlacement} (member : row ∈ db.listLostOnNode nodeId) :
    ∃ t ∈ db.placementTargets, t.placement.nodeId = nodeId ∧ t.placement.status = .lost ∧
      row = { lostPlacement t.placement t.fragment with
        endpoint := t.node.endpoint
        publicKey := t.node.publicKey
        reconstructedElsewhere := db.placements.any fun p =>
          p.fragmentId = t.placement.fragmentId ∧ p.status = .stored ∧
            p.nodeId ≠ t.placement.nodeId } := by
  obtain ⟨t, listed, rfl⟩ := mem_map.mp member
  obtain ⟨inTargets, lost⟩ := mem_filter.mp listed
  exact ⟨t, inTargets, (of_decide_eq_true lost).1, (of_decide_eq_true lost).2, rfl⟩

/-- A row of the list is known by its placement id. -/
theorem DB.listLostOnNode_inj (schema : db.Schema) {row row' : LostPlacement}
    (member : row ∈ db.listLostOnNode nodeId) (member' : row' ∈ db.listLostOnNode nodeId)
    (same : row.placementId = row'.placementId) : row = row' := by
  obtain ⟨t, inTargets, -, -, rfl⟩ := mem_listLostOnNode member
  obtain ⟨t', inTargets', -, -, rfl⟩ := mem_listLostOnNode member'
  obtain ⟨inPlacements, inFragments, inNodes, joined, onNode⟩ := mem_placementTargets.mp inTargets
  obtain ⟨inPlacements', inFragments', inNodes', joined', onNode'⟩ :=
    mem_placementTargets.mp inTargets'
  have placement : t.placement = t'.placement :=
    schema.placement_pk.eq_of_key inPlacements inPlacements' same
  have fragment : t.fragment = t'.fragment := schema.fragment_pk.eq_of_key inFragments inFragments'
    (by rw [joined, joined', placement])
  have node : t.node = t'.node := schema.node_pk.eq_of_key inNodes inNodes'
    (by rw [onNode, onNode', placement])
  rw [placement, fragment, node]

namespace FlapRun

variable {sigOk : SigCheck} {verdict : Nat → Bool}
  (run : FlapRun sigOk nodeId verdict)

/-- The rows that passed revalidation. -/
def good : List LostPlacement :=
  (run.returning.db.listLostOnNode nodeId).filter fun row => verdict row.placementId

/-- What `RestorePlacements` gets. -/
def restoreIds : List Nat :=
  (run.good.filter fun row => !row.reconstructedElsewhere).map LostPlacement.placementId

/-- What `ExpirePlacements` gets. -/
def expireIds : List Nat :=
  (run.good.filter fun row => row.reconstructedElsewhere).map LostPlacement.placementId

theorem listed_call : run.listed.db = run.returning.db ∧
    run.listed.calls[run.returning.calls.length]? =
      some (.flapListed (run.returning.db.listLostOnNode nodeId)) := by
  have began := run.list
  simp only [step, DB.begin, Option.some.injEq] at began
  rw [← began]
  exact ⟨rfl, by simp⟩

theorem verified_call : run.verified.db = run.verifying.db ∧
    run.verified.calls[run.returning.calls.length]? =
      some (.flapRestoring run.restoreIds run.expireIds) := by
  have current := run.beforeVerdict.call run.listed_call.2
  have moved := run.revalidate
  simp only [step, current, DB.advance, Option.some.injEq] at moved
  rw [← moved]
  exact ⟨rfl, by rw [getElem?_set_here current]; rfl⟩

theorem restored_call :
    run.restored.db = run.restoring.db.restorePlacements run.restoreIds ∧
      run.restored.calls[run.returning.calls.length]? = some (.flapExpiring run.expireIds) := by
  have current := run.beforeRestore.call run.verified_call.2
  have moved := run.restore
  simp only [step, current, DB.advance, Option.some.injEq] at moved
  rw [← moved]
  exact ⟨rfl, getElem?_set_here current⟩

theorem ended_db : run.ended.db = run.expiring.db.expirePlacements run.expireIds := by
  have current := run.beforeExpire.call run.restored_call.2
  have moved := run.expire
  simp only [step, current, DB.advance, Option.some.injEq] at moved
  rw [← moved]

theorem expiring_schema : run.expiring.db.Schema := by
  have schema₁ := run.beforeVerdict.schema (run.listed_call.1 ▸ run.schema)
  have schema₂ := run.beforeRestore.schema (run.verified_call.1 ▸ schema₁)
  exact run.beforeExpire.schema (step_schema _ _ _ schema₂ run.restore)

/-- A verified row, as it stands when the two UPDATEs run: restored if it was not
flagged, still lost if it was. -/
theorem row_expiring {row : LostPlacement} (member : row ∈ run.good) :
    ∃ p ∈ run.expiring.db.placements, p.id = row.placementId ∧ p.fragmentId = row.fragmentId ∧
      p.nodeId = nodeId ∧ p.status = if row.reconstructedElsewhere then .lost else .stored := by
  obtain ⟨listed, -⟩ := mem_filter.mp member
  obtain ⟨t, inTargets, onNode, lost, isRow⟩ := DB.mem_listLostOnNode listed
  have ofRow : t.placement.id = row.placementId ∧ t.placement.fragmentId = row.fragmentId := by
    rw [isRow]
    exact ⟨rfl, rfl⟩
  have here : t.placement ∈ run.restoring.db.placements := by
    have atList : t.placement ∈ run.listed.db.placements :=
      run.listed_call.1 ▸ (DB.mem_placementTargets.mp inTargets).1
    have atVerdict := run.beforeVerdict.row atList onNode
    exact run.beforeRestore.row (run.verified_call.1 ▸ atVerdict) onNode
  have after : ∀ p ∈ run.restored.db.placements, p.nodeId = nodeId →
      p ∈ run.expiring.db.placements := fun p inRows => run.beforeExpire.row inRows
  rw [run.restored_call.1, DB.restorePlacements] at after
  cases flagged : row.reconstructedElsewhere with
  | true =>
    -- a flagged row is not in the list of the restore
    have kept : t.placement.id ∉ run.restoreIds := by
      intro listed'
      obtain ⟨row', good', same⟩ := mem_map.mp listed'
      obtain ⟨inGood, unflagged⟩ := mem_filter.mp good'
      have sameRow := DB.listLostOnNode_inj run.schema (mem_filter.mp inGood).1 listed
        (same.trans ofRow.1)
      rw [sameRow, flagged] at unflagged
      cases unflagged
    refine ⟨t.placement, after _ ?_ onNode, ofRow.1, ofRow.2, onNode, lost⟩
    exact mem_updateWhere.mpr (.inr ⟨here, by simp [kept]⟩)
  | false =>
    have listed' : t.placement.id ∈ run.restoreIds := by
      rw [ofRow.1]
      exact mem_map_of_mem (mem_filter.mpr ⟨member, by simp [flagged]⟩)
    refine ⟨t.placement.setStatus .stored, after _ ?_ onNode, ofRow.1, ofRow.2, onNode, rfl⟩
    exact mem_updateWhere.mpr (.inl ⟨t.placement, here, by simp [listed', lost], rfl⟩)

/-- `ExpirePlacements` only touches lost rows. -/
theorem stored_ended (stored : p.status = .stored) :
    p ∈ run.ended.db.placements ↔ p ∈ run.expiring.db.placements := by
  rw [run.ended_db, DB.expirePlacements]
  simp only [mem_updateWhere]
  constructor
  · rintro (⟨old, -, -, rfl⟩ | ⟨member, -⟩)
    · cases stored
    · exact member
  · intro member
    exact .inr ⟨member, by simp [stored]⟩

end FlapRun

/-- Every verified fragment is stored right after `ApplyFlap` exactly when, as
`ExpirePlacements` runs, each of them that was flagged as reconstructed is still
stored on another node. -/
theorem flap_keeps_copy_iff {sigOk : SigCheck} {nodeId : Uuid} {verdict : Nat → Bool}
    (run : FlapRun sigOk nodeId verdict) :
    (∀ row ∈ run.returning.db.listLostOnNode nodeId, verdict row.placementId = true →
      run.ended.db.HasStored row.fragmentId) ↔
    ∀ row ∈ run.returning.db.listLostOnNode nodeId, verdict row.placementId = true →
      row.reconstructedElsewhere = true →
        run.expiring.db.StoredElsewhere nodeId row.fragmentId := by
  constructor
  · intro kept row listed passed flagged
    obtain ⟨p, inRows, onFragment, stored⟩ := kept row listed passed
    have before := (run.stored_ended stored).mp inRows
    refine ⟨p, before, onFragment, stored, fun onNode => ?_⟩
    -- the pair has one row, and the flagged one is lost
    obtain ⟨q, inRows', -, onFragment', onNode', status⟩ :=
      run.row_expiring (mem_filter.mpr ⟨listed, passed⟩)
    have same := run.expiring_schema.placement_pair.eq_of_key before inRows'
      (Prod.ext (onFragment.trans onFragment'.symm) (onNode.trans onNode'.symm))
    rw [flagged, if_pos rfl, ← same, stored] at status
    cases status
  · intro elsewhere row listed passed
    cases flagged : row.reconstructedElsewhere with
    | true =>
      obtain ⟨p, inRows, onFragment, stored, -⟩ := elsewhere row listed passed flagged
      exact ⟨p, (run.stored_ended stored).mpr inRows, onFragment, stored⟩
    | false =>
      obtain ⟨p, inRows, -, onFragment, -, status⟩ :=
        run.row_expiring (mem_filter.mpr ⟨listed, passed⟩)
      have stored : p.status = .stored := by simpa [flagged] using status
      exact ⟨p, (run.stored_ended stored).mpr inRows, onFragment, stored⟩

namespace Sample

/-- Node 0 goes offline, and its shard is rebuilt on node 14. -/
def rebuild : List Event :=
  [.act (.nodeOffline (node 0).id),
    .request (.planRepair chunk.id), .move 2 .load, .move 2 (.place (env fun i => i = 14)),
    .move 2 .insert, .move 2 (.finish sign),
    .request (.commitRepair chunk.id [wire 0 14] [target 15 0 14]), .move 3 .commit]

def rebuilt : System where
  db :=
    { committed.db with
      placements := placement 1 0 0 .lost ::
        ((List.range' 1 13).map fun i => placement (i + 1) i i .stored) ++
          [placement 15 0 14 .stored]
      nextPlacementId := 16 }
  calls := [.done, .done, .done, .done]

theorem rebuild_rebuilt : exec (step toySig) committed rebuild = some rebuilt := by
  decide +kernel

theorem rebuilt_reachable : Reachable toySig rebuilt.db := reachable_of_run rebuild_rebuilt

/-- The rebuilt state after some events of node 0's flap. -/
def flapped (db : DB) (call : Call) : System where
  db := db
  calls := rebuilt.calls ++ [call]

/-- Node 0 returns, its copy verifies, and nothing else happens. -/
def quietFlap : FlapRun toySig (node 0).id fun _ => true where
  returning := rebuilt
  listed := flapped rebuilt.db (.flapListed (rebuilt.db.listLostOnNode (node 0).id))
  verifying := flapped rebuilt.db (.flapListed (rebuilt.db.listLostOnNode (node 0).id))
  verified := flapped rebuilt.db (.flapRestoring [] [1])
  restoring := flapped rebuilt.db (.flapRestoring [] [1])
  restored := flapped rebuilt.db (.flapExpiring [1])
  expiring := flapped rebuilt.db (.flapExpiring [1])
  ended := flapped (rebuilt.db.expirePlacements [1]) .done
  schema := reachable_schema rebuilt_reachable
  list := rfl
  beforeVerdict := .refl _
  revalidate := by decide +kernel
  beforeRestore := .refl _
  restore := by decide +kernel
  beforeExpire := .refl _
  expire := by decide +kernel

/-- Node 0 returns, and while its copy is being verified node 14 goes offline. -/
def outageFlap : FlapRun toySig (node 0).id fun _ => true where
  returning := rebuilt
  listed := flapped rebuilt.db (.flapListed (rebuilt.db.listLostOnNode (node 0).id))
  verifying := flapped (rebuilt.db.markPlacementsLostByNode (node 14).id).2
    (.flapListed (rebuilt.db.listLostOnNode (node 0).id))
  verified := flapped (rebuilt.db.markPlacementsLostByNode (node 14).id).2 (.flapRestoring [] [1])
  restoring := flapped (rebuilt.db.markPlacementsLostByNode (node 14).id).2 (.flapRestoring [] [1])
  restored := flapped (rebuilt.db.markPlacementsLostByNode (node 14).id).2 (.flapExpiring [1])
  expiring := flapped (rebuilt.db.markPlacementsLostByNode (node 14).id).2 (.flapExpiring [1])
  ended := flapped ((rebuilt.db.markPlacementsLostByNode (node 14).id).2.expirePlacements [1]) .done
  schema := reachable_schema rebuilt_reachable
  list := rfl
  beforeVerdict := by
    refine ⟨[.act (.nodeOffline (node 14).id)], rfl, ?_⟩
    intro t moved
    cases moved
    refine ⟨⟨nofun, ?_⟩, trivial⟩
    decide +kernel
  revalidate := by decide +kernel
  beforeRestore := .refl _
  restore := by decide +kernel
  beforeExpire := .refl _
  expire := by decide +kernel

end Sample

theorem quietFlap_keeps_copy :
    ∀ row ∈ rebuilt.db.listLostOnNode (node 0).id,
      quietFlap.ended.db.HasStored row.fragmentId := by
  have elsewhere : ∀ row ∈ rebuilt.db.listLostOnNode (node 0).id,
      ∃ p ∈ rebuilt.db.placements, p.fragmentId = row.fragmentId ∧ p.status = .stored ∧
        p.nodeId ≠ (node 0).id := by decide +kernel
  intro row listed
  exact (flap_keeps_copy_iff quietFlap).mpr (fun row listed _ _ => elsewhere row listed)
    row listed rfl

/-- The copy on node 0 verified and is expired all the same; fragment 0 has no
stored placement left. -/
theorem flap_expires_last_copy :
    Reachable toySig outageFlap.returning.db ∧
      ∃ row ∈ outageFlap.returning.db.listLostOnNode (node 0).id,
        ¬ outageFlap.ended.db.HasStored row.fragmentId := by
  refine ⟨rebuilt_reachable, ?_⟩
  change ∃ row ∈ rebuilt.db.listLostOnNode (node 0).id,
    ¬ ∃ p ∈ ((rebuilt.db.markPlacementsLostByNode
      (node 14).id).2.expirePlacements [1]).placements,
        p.fragmentId = row.fragmentId ∧ p.status = .stored
  decide +kernel

end StoragePlatform
