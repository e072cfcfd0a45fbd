/-
Module: StoragePlatform.Repair.Offline
Purpose: The node.offline handler of the repair worker under failures, crashes
  and redelivery (internal/repair/worker.go, internal/events/events.go).
Trusted boundary: human-reviewed spec
Main exports: OfflineState, OfflineEvent, offlineStep, HandledBeforeFailing
-/
import StoragePlatform.Store.Placements
import StoragePlatform.Events
import StoragePlatform.Lib.Runs

namespace StoragePlatform

open Lib

/-!
`onNodeOffline` commits its UPDATE first and then walks the rows that the UPDATE
returned: it reads the health of each new chunk and publishes a job when it is
below the target.  Any store or publish error makes the handler return, and the
message is delivered again; so does a crash.  The next delivery runs the UPDATE
again, which returns only what is still pending or stored.
-/

/-- Where a delivery is: in the loop, or between the health read and the publish
of a chunk. -/
inductive OfflineHandler where
  | looping (rows : List LostPlacement) (seen : List Uuid)
  | publishing (job : RepairJob) (rows : List LostPlacement) (seen : List Uuid)
deriving DecidableEq, Repr

/-- The database, the job stream, the delivery in progress, the chunks that some
delivery has taken a placement from, and whether the message is acknowledged. -/
structure OfflineState where
  db : DB
  stream : JobStream
  handler : Option OfflineHandler
  flipped : List Uuid
  acked : Bool
deriving DecidableEq, Repr

def OfflineState.init (db : DB) : OfflineState where
  db := db
  stream := JobStream.empty
  handler := none
  flipped := []
  acked := false

inductive OfflineEvent where
  /-- A delivery starts and its UPDATE commits; `rows` is the RETURNING list. -/
  | deliver (rows : List LostPlacement)
  /-- The loop takes the next row, up to the health read. -/
  | next
  | publish (now : Time)
  /-- A store or publish call fails, or the process dies. -/
  | fail
  /-- The loop is over and the message is acknowledged. -/
  | ack
  /-- Other processes change the database. -/
  | others (db : DB)

/-- `onNodeOffline` for one node, delivered until it is acknowledged. -/
def offlineStep (nodeId : Uuid) (s : OfflineState) (e : OfflineEvent) : Option OfflineState :=
  if s.acked then none
  else
    match e, s.handler with
    | .deliver rows, none =>
      if rows.isPerm (s.db.markPlacementsLostByNode nodeId).1 then
        some { s with
          db := (s.db.markPlacementsLostByNode nodeId).2
          handler := some (.looping rows [])
          flipped := rows.map LostPlacement.chunkId ++ s.flipped }
      else none
    | .next, some (.looping (row :: rows) seen) =>
      if row.chunkId ∈ seen then some { s with handler := some (.looping rows seen) }
      else
        let healthy := s.db.chunkHealth row.chunkId
        if prioritySubject healthy = none then
          some { s with handler := some (.looping rows (row.chunkId :: seen)) }
        else
          some { s with
            handler := some (.publishing { chunkId := row.chunkId, healthy := healthy } rows
              (row.chunkId :: seen)) }
    | .publish now, some (.publishing job rows seen) =>
      some { s with
        stream := s.stream.publishRepair now job
        handler := some (.looping rows seen) }
    | .fail, some _ => some { s with handler := none }
    | .ack, some (.looping [] _) => some { s with handler := none, acked := true }
    | .others db, _ => some { s with db := db }
    | _, _ => none

/-! ### The property -/

/-- Once the message is acknowledged, every chunk that lost a placement to it and
is below the target has had a job published. -/
def FlippedPublished (s : OfflineState) : Prop :=
  s.acked = true → ∀ c ∈ s.flipped, s.db.chunkHealth c < 16 → s.stream.hasPublished c = true

/-- The chunks a delivery has still to handle. -/
def OfflineHandler.todo : OfflineHandler → List Uuid
  | .looping rows seen => (rows.map LostPlacement.chunkId).filter fun c => c ∉ seen
  | .publishing job rows seen =>
    job.chunkId :: (rows.map LostPlacement.chunkId).filter fun c => c ∉ seen

/-- A chunk needs nothing more: it has a job, or it is at the target. -/
def OfflineState.covered (s : OfflineState) (c : Uuid) : Prop :=
  s.stream.hasPublished c = true ∨ 16 ≤ s.db.chunkHealth c
deriving Decidable

/-- A delivery that fails has nothing left to handle, and no other process takes a
flipped chunk below the target. -/
def HandledBeforeFailing (s : OfflineState) (e : OfflineEvent) (t : OfflineState) : Prop :=
  match e with
  | .fail => ∀ handler ∈ s.handler.toList, ∀ c ∈ handler.todo, s.covered c
  | .others _ => ∀ c ∈ s.flipped, s.covered c → t.covered c
  | _ => True

instance (s : OfflineState) (e : OfflineEvent) (t : OfflineState) :
    Decidable (HandledBeforeFailing s e t) :=
  match e with
  | .fail => inferInstanceAs
      (Decidable (∀ handler ∈ s.handler.toList, ∀ c ∈ handler.todo, s.covered c))
  | .others _ => inferInstanceAs (Decidable (∀ c ∈ s.flipped, s.covered c → t.covered c))
  | .deliver _ | .next | .publish _ | .ack => inferInstanceAs (Decidable True)

end StoragePlatform
