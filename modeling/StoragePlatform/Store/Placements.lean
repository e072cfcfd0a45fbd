/-
Module: StoragePlatform.Store.Placements
Purpose: The statements on `fragment_placements` (internal/store/repair.go,
  challenges.go, lifecycle.go and the placement part of uploads.go).
Trusted boundary: human-reviewed spec
Main exports: DB.insertPlacement, markStored, DB.listLostOnNode
-/
import StoragePlatform.Store.Schema

namespace StoragePlatform

open Lib

def Placement.setStatus (status : PlacementStatus) (p : Placement) : Placement :=
  { p with status := status }

@[simp] theorem Placement.setStatus_id (status : PlacementStatus) (p : Placement) :
    (p.setStatus status).id = p.id := rfl

@[simp] theorem Placement.setStatus_fragmentId (status : PlacementStatus) (p : Placement) :
    (p.setStatus status).fragmentId = p.fragmentId := rfl

@[simp] theorem Placement.setStatus_nodeId (status : PlacementStatus) (p : Placement) :
    (p.setStatus status).nodeId = p.nodeId := rfl

@[simp] theorem Placement.setStatus_status (status : PlacementStatus) (p : Placement) :
    (p.setStatus status).status = status := rfl

@[simp] theorem Placement.setStatus_self (p : Placement) : p.setStatus p.status = p := rfl

/-! ### Joins shared by the queries -/

/-- `fragment_placements p JOIN fragments fr ON fr.id = p.fragment_id`. -/
def DB.placedFragments (db : DB) : List (Placement × Fragment) :=
  innerJoin (fun p fr => fr.id = p.fragmentId) db.placements db.fragments

/-- A placement with its fragment and node rows, as the receipt checks load it. -/
structure PlacementTarget where
  placement : Placement
  fragment : Fragment
  node : Node
deriving DecidableEq, Repr

/-- The join above with `JOIN nodes n ON n.id = p.node_id`. -/
def DB.placementTargets (db : DB) : List PlacementTarget :=
  (innerJoin (fun (pf : Placement × Fragment) n => n.id = pf.1.nodeId)
    db.placedFragments db.nodes).map fun pfn =>
      { placement := pfn.1.1, fragment := pfn.1.2, node := pfn.2 }

theorem DB.mem_placedFragments {db : DB} {p : Placement} {fr : Fragment} :
    (p, fr) ∈ db.placedFragments ↔
      p ∈ db.placements ∧ fr ∈ db.fragments ∧ fr.id = p.fragmentId := by
  simp [placedFragments]

theorem DB.mem_placementTargets {db : DB} {t : PlacementTarget} :
    t ∈ db.placementTargets ↔
      t.placement ∈ db.placements ∧ t.fragment ∈ db.fragments ∧ t.node ∈ db.nodes ∧
        t.fragment.id = t.placement.fragmentId ∧ t.node.id = t.placement.nodeId := by
  simp only [placementTargets, List.mem_map, Prod.exists, mem_innerJoin, mem_placedFragments,
    decide_eq_true_eq]
  constructor
  · rintro ⟨p, fr, n, ⟨⟨hp, hfr, joined⟩, hn, onNode⟩, rfl⟩
    exact ⟨hp, hfr, hn, joined, onNode⟩
  · rintro ⟨hp, hfr, hn, joined, onNode⟩
    exact ⟨t.placement, t.fragment, t.node, ⟨⟨hp, hfr, joined⟩, hn, onNode⟩, rfl⟩

/-! ### Inserting -/

/-- One statement of `InsertPlacements`.  An existing row for the pair, in
whatever status, makes the INSERT do nothing; the sequence value is spent either
way. -/
def DB.insertPlacement (db : DB) (fragmentId nodeId : Uuid) : Except StoreErr DB :=
  if ¬ (db.fragments.any fun fr => fr.id = fragmentId) ∨
      ¬ (db.nodes.any fun n => n.id = nodeId) then
    .error (.query "store.insertPlacements")
  else if db.placements.any fun p => p.fragmentId = fragmentId ∧ p.nodeId = nodeId then
    .ok { db with nextPlacementId := db.nextPlacementId + 1 }
  else
    .ok { db with
      placements := db.placements ++
        [{ id := db.nextPlacementId, fragmentId := fragmentId, nodeId := nodeId,
           status := .pending }]
      nextPlacementId := db.nextPlacementId + 1 }

/-- `InsertPlacements`: one autocommitted statement per pair; the first error
stops the loop and keeps the rows already written. -/
def DB.insertPlacements : DB → List (Uuid × Uuid) → Except StoreErr Unit × DB
  | db, [] => (.ok (), db)
  | db, (fragmentId, nodeId) :: pairs =>
    match db.insertPlacement fragmentId nodeId with
    | .error e => (.error e, db)
    | .ok db' => db'.insertPlacements pairs

/-! ### Committing -/

/-- The loop of both commit paths: for each listed fragment
`UPDATE fragment_placements SET status = 'stored' WHERE fragment_id = $1 AND
status = 'pending'`.  The node is not part of the condition. -/
def markStored (fragmentIds : List Uuid) (rows : List Placement) : List Placement :=
  fragmentIds.foldl
    (fun rows fragmentId =>
      updateWhere (fun p => p.fragmentId = fragmentId ∧ p.status = .pending)
        (Placement.setStatus .stored) rows)
    rows

/-- `CommitRepairPlacements`. -/
def DB.commitRepairPlacements (db : DB) (fragmentIds : List Uuid) : DB :=
  { db with placements := markStored fragmentIds db.placements }

/-- `PendingTargetsForChunk`, in table order. -/
def DB.pendingTargetsForChunk (db : DB) (chunkId : Uuid) : List PlacementTarget :=
  db.placementTargets.filter fun t => t.fragment.chunkId = chunkId ∧ t.placement.status = .pending

/-! ### Losing -/

/-- A lost fragment copy, as the loss and flap queries return it. -/
structure LostPlacement where
  placementId : Nat
  fragmentId : Uuid
  chunkId : Uuid
  shardIndex : Int
  sizeBytes : Int
  sha256 : Bytes
  nodeId : Uuid
  endpoint : Text := []
  publicKey : Bytes := []
  reconstructedElsewhere : Bool := false
deriving DecidableEq, Repr

def lostPlacement (p : Placement) (fr : Fragment) : LostPlacement where
  placementId := p.id
  fragmentId := p.fragmentId
  chunkId := fr.chunkId
  shardIndex := fr.shardIndex
  sizeBytes := fr.sizeBytes
  sha256 := fr.sha256
  nodeId := p.nodeId

/-- `MarkPlacementsLostByNode`: one UPDATE; the result is the RETURNING list. -/
def DB.markPlacementsLostByNode (db : DB) (nodeId : Uuid) : List LostPlacement × DB :=
  ((db.placedFragments.filter fun pf => pf.1.nodeId = nodeId ∧ pf.1.live).map
      fun pf => lostPlacement pf.1 pf.2,
    { db with
      placements :=
        updateWhere
          (fun p => p.nodeId = nodeId ∧ p.live ∧ db.fragments.any fun fr => fr.id = p.fragmentId)
          (Placement.setStatus .lost) db.placements })

/-- `MarkPlacementLost`: the same UPDATE for one pair.  No row is `ErrNotFound`
and no change. -/
def DB.markPlacementLost (db : DB) (fragmentId nodeId : Uuid) :
    Except StoreErr LostPlacement × DB :=
  match db.placedFragments.find? fun pf =>
      pf.1.fragmentId = fragmentId ∧ pf.1.nodeId = nodeId ∧ pf.1.live with
  | none => (.error .notFound, db)
  | some pf =>
    (.ok (lostPlacement pf.1 pf.2),
      { db with
        placements :=
          updateWhere
            (fun p => p.fragmentId = fragmentId ∧ p.nodeId = nodeId ∧ p.live ∧
              db.fragments.any fun fr => fr.id = p.fragmentId)
            (Placement.setStatus .lost) db.placements })

/-! ### Flap handling -/

/-- `ListLostOnNode`.  `reconstructedElsewhere` looks for a stored copy on
another node; a pending one does not count. -/
def DB.listLostOnNode (db : DB) (nodeId : Uuid) : List LostPlacement :=
  (db.placementTargets.filter fun t =>
      t.placement.nodeId = nodeId ∧ t.placement.status = .lost).map fun t =>
    { lostPlacement t.placement t.fragment with
      endpoint := t.node.endpoint
      publicKey := t.node.publicKey
      reconstructedElsewhere := db.placements.any fun p =>
        p.fragmentId = t.placement.fragmentId ∧ p.status = .stored ∧
          p.nodeId ≠ t.placement.nodeId }

/-- `RestorePlacements`. -/
def DB.restorePlacements (db : DB) (ids : List Nat) : DB :=
  { db with
    placements := updateWhere (fun p => p.id ∈ ids ∧ p.status = .lost)
      (Placement.setStatus .stored) db.placements }

/-- `ExpirePlacements`. -/
def DB.expirePlacements (db : DB) (ids : List Nat) : DB :=
  { db with
    placements := updateWhere (fun p => p.id ∈ ids ∧ p.status = .lost)
      (Placement.setStatus .expiring) db.placements }

/-- `MarkPlacementDeleted`: the reaper's confirmation. -/
def DB.markPlacementDeleted (db : DB) (id : Nat) : DB :=
  { db with
    placements := updateWhere (fun p => p.id = id ∧ p.status = .expiring)
      (Placement.setStatus .deleted) db.placements }

/-! ### Reading -/

/-- `ChunkHealth`: the number of stored placement rows of the chunk. -/
def DB.chunkHealth (db : DB) (chunkId : Uuid) : Nat :=
  db.placedFragments.countP fun pf => pf.2.chunkId = chunkId ∧ pf.1.status = .stored

/-- `CountLivePlacementsAll`, read at one node. -/
def DB.countLivePlacements (db : DB) (nodeId : Uuid) : Nat :=
  db.placements.countP fun p => p.nodeId = nodeId ∧ p.live

/-- A node that already holds a fragment of a chunk. -/
structure Occupant where
  chunkId : Uuid
  node : Node
deriving DecidableEq, Repr

/-- `ListOccupants`: the distinct pending or stored holders of the chunks. -/
def DB.listOccupants (db : DB) (chunkIds : List Uuid) : List Occupant :=
  ((db.placementTargets.filter fun t => t.fragment.chunkId ∈ chunkIds ∧ t.placement.live).map
    fun t => { chunkId := t.fragment.chunkId, node := t.node }).dedup

/-- One shard of a committed chunk and, if there is one, its live placement. -/
structure RepairFragment where
  fragment : Fragment
  placement : Option Placement
  node : Option Node
deriving DecidableEq, Repr

/-- First query of `LoadRepairChunk`: the chunk, if its version is committed. -/
def DB.repairChunk (db : DB) (chunkId : Uuid) : Except StoreErr Chunk :=
  match (innerJoin (fun (c : Chunk) (v : FileVersion) => v.id = c.versionId)
      db.chunks db.versions).find? fun cv => cv.1.id = chunkId ∧ cv.2.status = .committed with
  | none => .error .notFound
  | some cv => .ok cv.1

/-- `CASE p.status WHEN 'stored' THEN 0 WHEN 'pending' THEN 1 ELSE 2 END`. -/
def PlacementStatus.rank : PlacementStatus → Nat
  | .stored => 0
  | .pending => 1
  | _ => 2

/-- The order of `DISTINCT ON (fr.id)` inside one fragment. -/
def Placement.preferred (p q : Placement) : Bool :=
  p.status.rank < q.status.rank ∨ (p.status.rank = q.status.rank ∧ p.id ≤ q.id)

/-- The live placement `DISTINCT ON` keeps for a fragment. -/
def DB.livePlacement (db : DB) (fragmentId : Uuid) : Option Placement :=
  (orderBy Placement.preferred
    (db.placements.filter fun p => p.fragmentId = fragmentId ∧ p.live)).head?

/-- Second query of `LoadRepairChunk`. -/
def DB.repairFragments (db : DB) (chunkId : Uuid) : List RepairFragment :=
  (orderBy (fun a b => a.id.toNat ≤ b.id.toNat)
    (db.fragments.filter fun fr => fr.chunkId = chunkId)).map fun fr =>
      let placement := db.livePlacement fr.id
      { fragment := fr
        placement := placement
        node := placement.bind fun p => db.nodes.find? fun n => n.id = p.nodeId }

end StoragePlatform
