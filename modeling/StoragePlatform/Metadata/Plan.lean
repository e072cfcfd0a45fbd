/-
Module: StoragePlatform.Metadata.Plan
Purpose: PlanUpload and PlanRepair of the metadata service, cut at the points
  where they call the store or the scheduler (internal/metadata/upload.go,
  internal/metadata/repair.go).
Trusted boundary: human-reviewed spec; ticket signing is a parameter
Main exports: SignTicket, ShardRef, PlannedUpload.needs, DB.uploadPlan, DB.planRepair
-/
import StoragePlatform.Scheduler
import StoragePlatform.Store.Uploads
import StoragePlatform.Lib.Bytes

namespace StoragePlatform

open Lib

inductive TicketOp where
  | put | get | delete | challenge
deriving DecidableEq, Repr

/-- `SignTicket`: operation, fragment, node, hash and byte cap to a wire and its
expiry. -/
abbrev SignTicket := TicketOp → Uuid → Uuid → Bytes → Nat → Except StoreErr (Text × Time)

/-- One shard at one node with the ticket to move it.  `RepairSource`,
`RepairTarget` and `DownloadFragment` of the source all have these fields. -/
structure ShardRef where
  shardIndex : Int
  fragmentId : Uuid
  sha256 : Bytes
  sizeBytes : Int
  nodeId : Uuid
  endpoint : Text
  ticket : Text
deriving DecidableEq, Repr

def shardRef (fr : Fragment) (n : Node) (ticket : Text) : ShardRef where
  shardIndex := fr.shardIndex
  fragmentId := fr.id
  sha256 := fr.sha256
  sizeBytes := fr.sizeBytes
  nodeId := n.id
  endpoint := n.endpoint
  ticket := ticket

def signShard (sign : SignTicket) (op : TicketOp) (fr : Fragment) (n : Node) :
    Except StoreErr (Text × Time) :=
  sign op fr.id n.id fr.sha256 (toUint64 fr.sizeBytes)

/-- Tickets for a list of shards; the first failure is the call's error. -/
def signAll (sign : SignTicket) (op : TicketOp) :
    List (Fragment × Node) → Except StoreErr (List ShardRef)
  | [] => .ok []
  | (fr, n) :: rest =>
    match signShard sign op fr n with
    | .error e => .error e
    | .ok (wire, _) =>
      match signAll sign op rest with
      | .error e => .error e
      | .ok refs => .ok (shardRef fr n wire :: refs)

theorem signAll_ok {sign : SignTicket} {op : TicketOp} {shards : List (Fragment × Node)}
    {refs : List ShardRef} (signed : signAll sign op shards = .ok refs) :
    refs.map (fun r => (r.shardIndex, r.fragmentId, r.nodeId)) =
      shards.map fun s => (s.1.shardIndex, s.1.id, s.2.id) := by
  induction shards generalizing refs with
  | nil =>
    simp only [signAll, Except.ok.injEq] at signed
    simp [← signed]
  | cons shard rest ih =>
    obtain ⟨fr, n⟩ := shard
    simp only [signAll] at signed
    split at signed
    · cases signed
    · split at signed <;> cases signed
      rename_i refs' signed'
      simp [shardRef, ih signed']

/-- `byFrag[...] = node` in a loop: the last node given for a fragment. -/
def lastNode (pairs : List (Uuid × Node)) (fragmentId : Uuid) : Option Node :=
  (pairs.reverse.find? fun pair => pair.1 = fragmentId).map Prod.snd

def assignedPairs (assigns : List PlaceAssign) : List (Uuid × Node) :=
  assigns.map fun a => (a.fragmentId, a.node)

/-- The rows handed to `InsertPlacements`. -/
def placementRows (assigns : List PlaceAssign) : List (Uuid × Uuid) :=
  assigns.map fun a => (a.fragmentId, a.node.id)

/-! ### Uploads -/

/-- Fragments of the plan that have no live placement. -/
def PlannedUpload.needs (planned : PlannedUpload) : List PlaceNeed :=
  (planned.pending.filter fun pf => pf.placement = none).map fun pf =>
    { fragmentId := pf.fragment.id, chunkId := pf.chunk.id, sizeBytes := pf.fragment.sizeBytes }

structure PlannedPlacement where
  chunkSeq : Int
  shardIndex : Int
  fragmentId : Uuid
  nodeId : Uuid
  endpoint : Text
  ticket : Text
deriving DecidableEq, Repr

structure PlanResult where
  uploadId : Uuid
  fileId : Uuid
  expiresAt : Option Time
  placements : List PlannedPlacement
deriving DecidableEq, Repr

def maxPlanFragments : Nat := 10000

/-- `NodeByID` of the nodes that already hold a pending placement of the plan. -/
def DB.existingNodes (db : DB) : List PlannedFragment → Except StoreErr (List (Uuid × Node))
  | [] => .ok []
  | pf :: rest =>
    match pf.placement with
    | none => existingNodes db rest
    | some p =>
      match db.nodes.find? fun n => n.id = p.nodeId with
      | none => .error .notFound
      | some n =>
        match existingNodes db rest with
        | .error e => .error e
        | .ok pairs => .ok ((pf.fragment.id, n) :: pairs)

/-- `perChunk[id]`: stored rows plus pending rows whose fragment has a node. -/
def PlannedUpload.perChunk (planned : PlannedUpload) (pairs : List (Uuid × Node))
    (chunkId : Uuid) : Nat :=
  planned.stored.countP (fun pf => pf.chunk.id = chunkId) +
    planned.pending.countP fun pf =>
      pf.chunk.id = chunkId ∧ (lastNode pairs pf.fragment.id).isSome

/-- The tickets of the plan and the earliest expiry among them. -/
def signPlacements (sign : SignTicket) (pairs : List (Uuid × Node)) :
    List PlannedFragment → Except StoreErr (List PlannedPlacement × Option Time)
  | [] => .ok ([], none)
  | pf :: rest =>
    match lastNode pairs pf.fragment.id with
    | none => signPlacements sign pairs rest
    | some n =>
      match signShard sign .put pf.fragment n with
      | .error e => .error e
      | .ok (wire, until_) =>
        match signPlacements sign pairs rest with
        | .error e => .error e
        | .ok (placements, expires) =>
          .ok
            ({ chunkSeq := pf.chunk.seq
               shardIndex := pf.fragment.shardIndex
               fragmentId := pf.fragment.id
               nodeId := n.id
               endpoint := n.endpoint
               ticket := wire } :: placements,
              some (match expires with
                | none => until_
                | some earliest => min until_ earliest))

/-- `PlanUpload` after the placement rows are written.  An error here makes the
deferred function abort the version, unless the plan was a resume. -/
def DB.uploadPlan (db : DB) (sign : SignTicket) (planned : PlannedUpload)
    (assigns : List PlaceAssign) : Except StoreErr PlanResult :=
  match db.existingNodes planned.pending with
  | .error e => .error e
  | .ok existing =>
    let pairs := assignedPairs assigns ++ existing
    if (planned.stored ++ planned.pending).any fun pf =>
        planned.perChunk pairs pf.chunk.id < commitThreshold then
      .error .unavailable
    else
      match signPlacements sign pairs planned.pending with
      | .error e => .error e
      | .ok (placements, expires) =>
        if maxPlanFragments < placements.length then .error .invalid
        else
          .ok
            { uploadId := planned.version.id
              fileId := planned.file.id
              expiresAt := expires
              placements := placements }

/-! ### Repairs -/

/-- What `PlanRepair` does with a fragment: read it from the node that has it,
write it again to the node it is pending on, or place it anew. -/
inductive RepairUse where
  | source (n : Node)
  | reuse (n : Node)
  | missing
deriving DecidableEq, Repr

def RepairFragment.use (rf : RepairFragment) : RepairUse :=
  match rf.placement, rf.node with
  | some p, some n =>
    if p.status = .stored then .source n
    else if p.status = .pending ∧ n.status ≠ .offline ∧ n.status ≠ .quarantined then .reuse n
    else .missing
  | _, _ => .missing

def repairSources (frags : List RepairFragment) : List (Fragment × Node) :=
  frags.filterMap fun rf =>
    match rf.use with
    | .source n => some (rf.fragment, n)
    | _ => none

def repairReused (frags : List RepairFragment) : List (Fragment × Node) :=
  frags.filterMap fun rf =>
    match rf.use with
    | .reuse n => some (rf.fragment, n)
    | _ => none

/-- `toPlace`. -/
def repairMissing (frags : List RepairFragment) : List Fragment :=
  frags.filterMap fun rf =>
    match rf.use with
    | .missing => some rf.fragment
    | _ => none

def repairNeeds (chunkId : Uuid) (frags : List RepairFragment) : List PlaceNeed :=
  (repairMissing frags).map fun fr =>
    { fragmentId := fr.id, chunkId := chunkId, sizeBytes := fr.sizeBytes }

/-- The missing fragments the scheduler found a node for.  The node is read off
the assignments, not off the inserted rows. -/
def repairPlaced (frags : List RepairFragment) (assigns : List PlaceAssign) :
    List (Fragment × Node) :=
  (repairMissing frags).filterMap fun fr =>
    (lastNode (assignedPairs assigns) fr.id).map fun n => (fr, n)

structure RepairPlan where
  chunkId : Uuid
  sizeBytes : Int
  sha256 : Bytes
  healthy : Nat
  sources : List ShardRef
  targets : List ShardRef
deriving DecidableEq, Repr

def repairPlan (ch : Chunk) (sources targets : List ShardRef) : RepairPlan where
  chunkId := ch.id
  sizeBytes := ch.sizeBytes
  sha256 := ch.sha256
  healthy := sources.length
  sources := sources
  targets := targets

/-- The last part of `PlanRepair`, from the loaded fragments on. -/
def DB.planLoaded (db : DB) (env : PlaceEnv) (sign : SignTicket) (ch : Chunk)
    (frags : List RepairFragment) : Except StoreErr RepairPlan × DB :=
  match signAll sign .get (repairSources frags), signAll sign .put (repairReused frags) with
  | .error e, _ => (.error e, db)
  | _, .error e => (.error e, db)
  | .ok sources, .ok reused =>
    if repairNeeds ch.id frags = [] then (.ok (repairPlan ch sources reused), db)
    else
      match db.place env (repairNeeds ch.id frags) with
      | .error _ => (.error .unavailable, db)
      | .ok assigns =>
        match db.insertPlacements (placementRows assigns) with
        | (.error e, db') => (.error e, db')
        | (.ok (), db') =>
          match signAll sign .put (repairPlaced frags assigns) with
          | .error e => (.error e, db')
          | .ok placed => (.ok (repairPlan ch sources (reused ++ placed)), db')

/-- `PlanRepair` with nothing in between.  A failed call may have inserted
placement rows. -/
def DB.planRepair (db : DB) (env : PlaceEnv) (sign : SignTicket) (chunkId : Uuid) :
    Except StoreErr RepairPlan × DB :=
  match db.repairChunk chunkId with
  | .error e => (.error e, db)
  | .ok ch => db.planLoaded env sign ch (db.repairFragments chunkId)

end StoragePlatform
