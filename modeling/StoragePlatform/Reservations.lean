/-
Module: StoragePlatform.Reservations
Purpose: The reservations that `Place` writes to Redis, over a sequence of calls
  (internal/scheduler/scheduler.go).
Trusted boundary: human-reviewed spec
Main exports: Reservation, setReservation, reserveLoop, DB.placeReserving, placeStep
-/
import StoragePlatform.Scheduler

namespace StoragePlatform

/-!
A chosen node gets a key `reserve:<node>:<fragment>` with the size of the fragment
and the lifetime of the tickets.  No statement reads these keys: they are the record
of what was promised, and `eligible` looks at `capacity_bytes - used_bytes` only.  A
call that fails in the middle leaves the keys it has written.
-/

/-- A `reserve:` key with its value. -/
structure Reservation where
  nodeId : Uuid
  fragmentId : Uuid
  sizeBytes : Int
  expires : Time
deriving DecidableEq, Repr

/-- `SET`: the key of a node and a fragment has one value. -/
def setReservation (redis : List Reservation) (r : Reservation) : List Reservation :=
  (redis.filter fun old => ¬ (old.nodeId = r.nodeId ∧ old.fragmentId = r.fragmentId)) ++ [r]

/-- The `TTL` of the service; 15 minutes if it is not set. -/
def reservationTtl (ttl : Time) : Time := if ttl ≤ 0 then 15 * 60 else ttl

def reservation (now ttl : Time) (need : PlaceNeed) (n : Node) : Reservation where
  nodeId := n.id
  fragmentId := need.fragmentId
  sizeBytes := need.sizeBytes
  expires := now + reservationTtl ttl

/-- The loop of `Place` with its writes. -/
def reserveLoop (env : PlaceEnv) (ttl : Time) (occupants : List Occupant) :
    List LiveNode → List (Uuid × Node) → Nat → List PlaceNeed → List Reservation →
      List Reservation × Except StoreErr (List PlaceAssign)
  | _, _, _, [], redis => (redis, .ok [])
  | live, assigned, k, need :: needs, redis =>
    match pick env.now live (usedInChunk occupants assigned need.chunkId) (env.draw k) with
    | none => reserveLoop env ttl occupants live assigned (k + 1) needs redis
    | some chosen =>
      if env.reserve k = false then (redis, .error (.query "scheduler.place"))
      else
        match reserveLoop env ttl occupants (bumpLive chosen.node.id live)
            (assigned ++ [(need.chunkId, chosen.node)]) (k + 1) needs
            (setReservation redis (reservation env.now ttl need chosen.node)) with
        | (redis', .error e) => (redis', .error e)
        | (redis', .ok rest) =>
          (redis', .ok ({ fragmentId := need.fragmentId, node := chosen.node } :: rest))

/-- `Place`, with what it leaves in Redis. -/
def DB.placeReserving (db : DB) (env : PlaceEnv) (ttl : Time) (needs : List PlaceNeed)
    (redis : List Reservation) : List Reservation × Except StoreErr (List PlaceAssign) :=
  if (db.listOnlineNodes env.now).any fun n => env.alive n.id = none then
    (redis, .error (.query "scheduler.place"))
  else if db.liveNodes env = [] then (redis, .error .unavailable)
  else if env.readsOk = false then (redis, .error (.query "scheduler.place"))
  else
    reserveLoop env ttl (db.listOccupants (needs.map PlaceNeed.chunkId)) (db.liveNodes env) [] 0
      needs redis

/-! ### The same call without its writes -/

theorem reserveLoop_outcome (env : PlaceEnv) (ttl : Time) (occupants : List Occupant)
    (live : List LiveNode) (assigned : List (Uuid × Node)) (k : Nat) (needs : List PlaceNeed)
    (redis : List Reservation) :
    (reserveLoop env ttl occupants live assigned k needs redis).2 =
      placeLoop env occupants live assigned k needs := by
  induction needs generalizing live assigned k redis with
  | nil => rfl
  | cons need needs ih =>
    simp only [reserveLoop, placeLoop]
    cases pick env.now live (usedInChunk occupants assigned need.chunkId) (env.draw k) with
    | none => exact ih live assigned (k + 1) redis
    | some chosen =>
      have rest := ih (bumpLive chosen.node.id live)
        (assigned ++ [(need.chunkId, chosen.node)]) (k + 1)
        (setReservation redis (reservation env.now ttl need chosen.node))
      cases env.reserve k with
      | false => rfl
      | true =>
        simp only [Bool.true_eq_false, if_false, ← rest]
        split <;> rename_i ran <;> rw [ran]

/-! ### A sequence of calls -/

/-- A call with the tables it reads. -/
structure PlaceCall where
  db : DB
  schema : db.Schema
  env : PlaceEnv
  ttl : Time
  needs : List PlaceNeed

/-- What the calls so far have left: the keys, the fragments assigned to each node, and
the clock and the nodes of the last call. -/
structure PlaceHistory where
  now : Time
  nodes : List Node
  redis : List Reservation
  assigned : List (Uuid × Uuid)

def PlaceHistory.init : PlaceHistory where
  now := 0
  nodes := []
  redis := []
  assigned := []

/-- The (node, fragment) pairs that a call returns. -/
def returnedPairs (outcome : Except StoreErr (List PlaceAssign)) : List (Uuid × Uuid) :=
  match outcome with
  | .error _ => []
  | .ok assigns => assigns.map fun a => (a.node.id, a.fragmentId)

def PlaceHistory.call (h : PlaceHistory) (c : PlaceCall) : PlaceHistory where
  now := c.env.now
  nodes := c.db.nodes
  redis := (c.db.placeReserving c.env c.ttl c.needs h.redis).1
  assigned := h.assigned ++
    returnedPairs (c.db.placeReserving c.env c.ttl c.needs h.redis).2

/-- A step of the sequence: every call can be made. -/
def placeStep (h : PlaceHistory) (c : PlaceCall) : Option PlaceHistory := some (h.call c)

/-- The bytes of a node's keys that have not expired, among the chosen keys. -/
def reservedBytes (now : Time) (nodeId : Uuid) (keys : List Reservation) : Int :=
  ((keys.filter fun r => r.nodeId = nodeId ∧ now < r.expires).map Reservation.sizeBytes).sum

/-- The sizes assigned to a node whose reservations have not expired. -/
def PlaceHistory.committed (h : PlaceHistory) (nodeId : Uuid) : Int :=
  reservedBytes h.now nodeId (h.redis.filter fun r => (r.nodeId, r.fragmentId) ∈ h.assigned)

end StoragePlatform
