/-
Module: StoragePlatform.System
Purpose: The control plane as a transition system: concurrent metadata and repair
  calls over one database, at the granularity of their transactions.
Trusted boundary: human-reviewed spec
Main exports: Call, Request, Move, Action, Event, System, step, Reachable
-/
import StoragePlatform.Metadata.Commit
import StoragePlatform.Metadata.Plan
import StoragePlatform.Store.Files
import StoragePlatform.Lib.Runs

namespace StoragePlatform

open Lib

/-!
A call of the metadata service or of the repair worker is a sequence of database
steps with local computation between them.  A `Call` is such a call stopped
between two of its steps, with what it has read so far; the system is the
database and the calls in flight.  A transaction is one step, and so is a single
statement outside a transaction: the reads that precede a transaction, every
INSERT of `InsertPlacements`, and the two UPDATEs of `ApplyFlap`.  What other calls
do between the statements of a transaction and its COMMIT is in `PlacementTx` for
the placements and in `Store.Transactions` for files and versions.

Everything the calls do not decide is in the event: who calls, which call moves,
the order a query without ORDER BY returns, what the scheduler reads and draws,
what a returning node answers, and where a call fails or its process dies.  A
call that is refused before it has written anything is no event.
-/

/-- A planning call between loading its fragments and returning its plan. -/
inductive Planner where
  | upload (planned : PlannedUpload)
  | repair (ch : Chunk) (frags : List RepairFragment)
deriving DecidableEq, Repr

def Planner.needs : Planner → List PlaceNeed
  | .upload planned => planned.needs
  | .repair ch frags => repairNeeds ch.id frags

/-- Which of the two commit calls. -/
inductive CommitKind where
  | upload (ownerId versionId : Uuid)
  | repair
deriving DecidableEq, Repr

inductive Call where
  | done
  /-- `PlanRepair` has found the chunk and not yet read its fragments. -/
  | repairFound (ch : Chunk)
  /-- A plan is about to ask the scheduler. -/
  | placing (plan : Planner)
  /-- A plan is inside `InsertPlacements`; `todo` are the rows left. -/
  | inserting (plan : Planner) (assigns : List PlaceAssign) (todo : List (Uuid × Uuid))
  /-- `PlanUpload` has failed and its deferred function is to run. -/
  | uploadFailed (planned : PlannedUpload)
  /-- A commit has read its targets and matched the wires; `stored` is the list it
  will hand to the store. -/
  | committing (kind : CommitKind) (wires : List Text) (targets : List PlacementTarget)
      (stored : List Uuid)
  /-- `onNodeOnline` has the lost rows of the returning node. -/
  | flapListed (rows : List LostPlacement)
  | flapRestoring (restore expire : List Nat)
  | flapExpiring (expire : List Nat)
  /-- `SoftDeleteFile` has read the file row. -/
  | deleting (f : File)
deriving DecidableEq, Repr

/-- Where an error leaves a planning call. -/
def Planner.failed : Planner → Call
  | .upload planned => .uploadFailed planned
  | .repair _ _ => .done

/-! ### Starting a call -/

inductive Request where
  | planUpload (ownerId : Uuid) (m : UploadManifest) (gen : Nat → Uuid)
  | commitUpload (ownerId versionId : Uuid) (wires : List Text) (targets : List PlacementTarget)
  | planRepair (chunkId : Uuid)
  | commitRepair (chunkId : Uuid) (wires : List Text) (targets : List PlacementTarget)
  | nodeOnline (nodeId : Uuid)
  | deleteFile (ownerId fileId : Uuid)

/-- The first database step of a call. -/
def DB.begin (sigOk : SigCheck) (db : DB) : Request → Option (Call × DB)
  | .planUpload ownerId m gen =>
    match db.beginUpload ownerId m gen with
    | .error _ => none
    | .ok (planned, db') => some (.placing (.upload planned), db')
  | .commitUpload ownerId versionId wires targets =>
    if targets.isPerm (db.pendingTargetsForVersion versionId) then
      match uploadReceipts sigOk targets wires with
      | .error _ => none
      | .ok stored => some (.committing (.upload ownerId versionId) wires targets stored, db)
    else none
  | .planRepair chunkId =>
    match db.repairChunk chunkId with
    | .error _ => none
    | .ok ch => some (.repairFound ch, db)
  | .commitRepair chunkId wires targets =>
    if targets.isPerm (db.pendingTargetsForChunk chunkId) then
      match repairReceipts sigOk targets wires with
      | .error _ => none
      | .ok stored => some (.committing .repair wires targets stored, db)
    else none
  | .nodeOnline nodeId => some (.flapListed (db.listLostOnNode nodeId), db)
  | .deleteFile ownerId fileId =>
    match db.fileById ownerId fileId with
    | .error _ => none
    | .ok f => some (.deleting f, db)

/-! ### Moving a call -/

inductive Move where
  | load
  | place (env : PlaceEnv)
  | insert
  | finish (sign : SignTicket)
  | abort
  | commit
  /-- The answers of the returning node, by placement id. -/
  | revalidate (verdict : Nat → Bool)
  | restore
  | expire
  | delete (now : Time)
  /-- The call runs into an error of a service it uses. -/
  | fail
  /-- The process of the call dies: nothing deferred runs. -/
  | crash

/-- The next database step of a call. -/
def DB.advance (db : DB) : Call → Move → Option (Call × DB)
  | .done, _ => none
  | _, .crash => some (.done, db)
  | .placing plan, .fail => some (plan.failed, db)
  | .inserting plan _ _, .fail => some (plan.failed, db)
  | _, .fail => some (.done, db)
  | .repairFound ch, .load => some (.placing (.repair ch (db.repairFragments ch.id)), db)
  | .placing plan, .place env =>
    if plan.needs = [] then some (.inserting plan [] [], db)
    else
      match db.place env plan.needs with
      | .error _ => some (plan.failed, db)
      | .ok assigns => some (.inserting plan assigns (placementRows assigns), db)
  | .inserting plan assigns ((fragmentId, nodeId) :: todo), .insert =>
    match db.insertPlacement fragmentId nodeId with
    | .error _ => some (plan.failed, db)
    | .ok db' => some (.inserting plan assigns todo, db')
  | .inserting (.upload planned) assigns [], .finish sign =>
    match db.uploadPlan sign planned assigns with
    | .error _ => some (.uploadFailed planned, db)
    | .ok _ => some (.done, db)
  | .inserting (.repair _ _) _ [], .finish _ => some (.done, db)
  | .uploadFailed planned, .abort =>
    some (.done, if planned.resume then db else db.abortUpload planned.version.id)
  | .committing (.upload ownerId versionId) _ _ stored, .commit =>
    match db.commitUpload ownerId versionId stored with
    | .error _ => some (.done, db)
    | .ok (_, db') => some (.done, db')
  | .committing .repair _ _ stored, .commit => some (.done, db.commitRepairPlacements stored)
  | .flapListed rows, .revalidate verdict =>
    let good := rows.filter fun row => verdict row.placementId
    some
      (.flapRestoring
        ((good.filter fun row => !row.reconstructedElsewhere).map LostPlacement.placementId)
        ((good.filter fun row => row.reconstructedElsewhere).map LostPlacement.placementId), db)
  | .flapRestoring restore expire, .restore =>
    some (.flapExpiring expire, db.restorePlacements restore)
  | .flapExpiring expire, .expire => some (.done, db.expirePlacements expire)
  | .deleting f, .delete now => some (.done, db.softDeleteTx f now)
  | _, _ => none

/-! ### Single-step actions -/

/-- What heartbeats, the health monitor, certificate renewal and operators change
on a node row.  Identity and public key stay. -/
structure NodeUpdate where
  endpoint : Text
  capacityBytes : Int
  usedBytes : Int
  status : NodeStatus
  certExpiresAt : Option Time
  probationUntil : Option Time
  revokedAt : Option Time
deriving DecidableEq, Repr

def Node.update (u : NodeUpdate) (n : Node) : Node :=
  { n with
    endpoint := u.endpoint
    capacityBytes := u.capacityBytes
    usedBytes := u.usedBytes
    status := u.status
    certExpiresAt := u.certExpiresAt
    probationUntil := u.probationUntil
    revokedAt := u.revokedAt }

@[simp] theorem Node.update_id (u : NodeUpdate) (n : Node) : (n.update u).id = n.id := rfl

inductive Action where
  | createBucket (b : Bucket)
  | createFolder (ownerId bucketId : Uuid) (path : Text) (id : Uuid)
  | renameFile (ownerId fileId : Uuid) (newPath : Text) (order : List Uuid)
  | registerNode (n : Node)
  | updateNode (nodeId : Uuid) (u : NodeUpdate)
  /-- The UPDATE of `onNodeOffline`. -/
  | nodeOffline (nodeId : Uuid)
  /-- A failed PUT of a repair, a failed audit or a scrub report. -/
  | placementLost (fragmentId nodeId : Uuid)
  /-- The reaper's confirmation. -/
  | confirmDeleted (placementId : Nat)

def DB.act (db : DB) : Action → Option DB
  | .createBucket b =>
    if db.buckets.any fun b' => b'.id = b.id then none
    else some { db with buckets := db.buckets ++ [b] }
  | .createFolder ownerId bucketId path id =>
    match db.createFolder ownerId bucketId path id with
    | .error _ => none
    | .ok (_, db') => some db'
  | .renameFile ownerId fileId newPath order =>
    match db.renameFile ownerId fileId newPath order with
    | .error _ => none
    | .ok (_, db') => some db'
  | .registerNode n =>
    if db.nodes.any fun n' => n'.id = n.id then none
    else some { db with nodes := db.nodes ++ [n] }
  | .updateNode nodeId u =>
    some { db with nodes := updateWhere (fun n => n.id = nodeId) (Node.update u) db.nodes }
  | .nodeOffline nodeId => some (db.markPlacementsLostByNode nodeId).2
  | .placementLost fragmentId nodeId => some (db.markPlacementLost fragmentId nodeId).2
  | .confirmDeleted placementId => some (db.markPlacementDeleted placementId)

/-! ### The system -/

inductive Event where
  | request (r : Request)
  | move (i : Nat) (m : Move)
  | act (a : Action)

/-- The database and the calls, each at the position it started at. -/
structure System where
  db : DB
  calls : List Call
deriving DecidableEq, Repr

def System.init : System where
  db := DB.empty
  calls := []

def step (sigOk : SigCheck) (s : System) : Event → Option System
  | .request r =>
    match s.db.begin sigOk r with
    | none => none
    | some (call, db) => some { db := db, calls := s.calls ++ [call] }
  | .move i m =>
    match s.calls[i]? with
    | none => none
    | some call =>
      match s.db.advance call m with
      | none => none
      | some (call', db) => some { db := db, calls := s.calls.set i call' }
  | .act a =>
    match s.db.act a with
    | none => none
    | some db => some { s with db := db }

/-- The databases some run of the empty system leads to. -/
def Reachable (sigOk : SigCheck) (db : DB) : Prop :=
  ∃ events s, exec (step sigOk) System.init events = some s ∧ s.db = db

end StoragePlatform
