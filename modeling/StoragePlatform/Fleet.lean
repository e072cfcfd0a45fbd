/-
Module: StoragePlatform.Fleet
Purpose: The control plane together with its nodes: what each node has been asked, and which
  placements have been read in order to ask for GET tickets (PlanDownload, PlanRepair and
  ListLostForNode of internal/metadata, the refill of internal/healthmon/challenge.go).
Trusted boundary: human-reviewed spec
Main exports: NodeHistory, GetQuery, DB.asks, Fleet, Fleet.step
-/
import StoragePlatform.Agent.Handlers
import StoragePlatform.Store.Challenges
import StoragePlatform.System

namespace StoragePlatform

open Lib

/-!
Four calls of the repository ask for GET tickets, each for the rows of a query it has made:
of stored placements, or of lost ones.  Between the query and the signature other calls may
move.  `POST /internal/challenges/tickets` looks at no status itself; the refill of the
health monitor is what calls it for GET tickets, with rows of `ListDueAudits`.
-/

/-- All requests made of a node so far. -/
structure NodeHistory where
  env : NodeEnv
  events : List (NodeRequest × Clocks)

inductive GetQuery where
  /-- `LoadDownload`. -/
  | download (versionId : Uuid)
  /-- `LoadRepairChunk`. -/
  | repair (chunkId : Uuid)
  /-- `ListLostOnNode`. -/
  | lost (nodeId : Uuid)
  /-- `ListDueAudits`. -/
  | due (audits : AuditDB) (now : Instant) (minAge limit : Int)

/-- The fragments and nodes a query finds. -/
def DB.asks (db : DB) : GetQuery → List (Uuid × Uuid)
  | .download versionId =>
    (db.downloadRows versionId).map fun row => (row.2.fragment.id, row.2.node.id)
  | .repair chunkId =>
    (repairSources (db.repairFragments chunkId)).map fun source => (source.1.id, source.2.id)
  | .lost nodeId => (db.listLostOnNode nodeId).map fun row => (row.fragmentId, row.nodeId)
  | .due audits now minAge limit =>
    if audits.db = db then
      (audits.listDueAudits now minAge limit).map fun t => (t.fragmentId, t.nodeId)
    else []

/-- The control plane, the nodes by their public keys, and what GET tickets may have been
signed for. -/
structure Fleet where
  system : System
  history : Bytes → NodeHistory
  asked : List (Uuid × Uuid)

inductive FleetEvent where
  | system (e : Event)
  | query (q : GetQuery)
  | node (pub : Bytes) (request : NodeRequest) (at_ : Clocks)

def Fleet.init (env : Bytes → NodeEnv) : Fleet where
  system := System.init
  history pub := ⟨env pub, []⟩
  asked := []

def Fleet.step (sigOk : SigCheck) (s : Fleet) : FleetEvent → Option Fleet
  | .system e =>
    match StoragePlatform.step sigOk s.system e with
    | none => none
    | some system => some { s with system := system }
  | .query q => some { s with asked := s.asked ++ s.system.db.asks q }
  | .node pub request at_ =>
    some { s with
      history := fun key =>
        if key = pub then
          { s.history key with events := (s.history key).events ++ [(request, at_)] }
        else s.history key }

end StoragePlatform
