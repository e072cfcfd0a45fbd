/-
Module: StoragePlatform.Scheduler
Purpose: Fragment placement under the hard caps (internal/scheduler/scheduler.go).
Trusted boundary: human-reviewed spec; the weighted draw is an oracle
Main exports: PlaceNeed, PlaceAssign, ChunkUse, eligible, PlaceEnv, DB.place, pick_mem
-/
import StoragePlatform.Store.Placements

namespace StoragePlatform

open Lib

/-!
What the scheduler reads outside the database is in a `PlaceEnv`: the liveness
keys and reservation writes of Redis, and the random draws.  `pick` samples the
eligible nodes by floating-point weight; a draw is modelled by the position of
the chosen candidate, so every choice the weights allow is covered.
-/

/-- A fragment the scheduler must assign. -/
structure PlaceNeed where
  fragmentId : Uuid
  chunkId : Uuid
  sizeBytes : Int
deriving DecidableEq, Repr

/-- A chosen node for a fragment. -/
structure PlaceAssign where
  fragmentId : Uuid
  node : Node
deriving DecidableEq, Repr

structure PlaceEnv where
  now : Time
  /-- `EXISTS node:live:<id>`; `none` is a Redis error. -/
  alive : Uuid → Option Bool
  /-- The node statistics and heartbeat reads succeed. -/
  readsOk : Bool
  /-- Position of the candidate drawn for the `k`-th need; `none` when the random
  source fails. -/
  draw : Nat → Option Nat
  /-- The reservation write for the `k`-th need succeeds. -/
  reserve : Nat → Bool

def regionCap : Nat := 3
def asnCap : Nat := 3
def ownerCap : Nat := 2
def probationQuota : Nat := 2

/-- `chunkUse`: what a chunk already occupies.  A count in one of the source's
maps is the number of occurrences here. -/
structure ChunkUse where
  nodes : List Uuid
  regions : List Text
  asns : List Int
  owners : List Uuid
deriving DecidableEq, Repr

def ChunkUse.new : ChunkUse where
  nodes := []
  regions := []
  asns := []
  owners := []

/-- `chunkUse.add`. -/
def ChunkUse.add (u : ChunkUse) (n : Node) : ChunkUse where
  nodes := n.id :: u.nodes
  regions := if n.region = [] then u.regions else n.region :: u.regions
  asns := n.asn.toList ++ u.asns
  owners := n.ownerId :: u.owners

/-- A live node with its running placement count. -/
structure LiveNode where
  node : Node
  livePlacements : Nat
deriving DecidableEq, Repr

/-- The difference of the two columns as an `int64`; heartbeats store any number. -/
def Node.freeBytes (n : Node) : Int := (n.capacityBytes - n.usedBytes).bmod (2 ^ 64)

/-- `inProbation`.  The source reads the clock for each candidate, this model once for each
call of `Place`. -/
def inProbation (now : Time) (n : Node) : Bool :=
  match n.probationUntil with
  | none => false
  | some until_ => now < until_

/-- `eligible`. -/
def eligible (now : Time) (u : ChunkUse) (n : LiveNode) : Bool :=
  n.node.id ∉ u.nodes ∧
  (n.node.region = [] ∨ u.regions.count n.node.region < regionCap) ∧
  (∀ asn ∈ n.node.asn.toList, u.asns.count asn < asnCap) ∧
  u.owners.count n.node.ownerId < ownerCap ∧
  0 < n.node.freeBytes ∧
  ¬ (inProbation now n.node ∧ probationQuota ≤ n.livePlacements)

/-- `pick`: the drawn candidate, if there is one. -/
def pick (now : Time) (nodes : List LiveNode) (u : ChunkUse) (draw : Option Nat) :
    Option LiveNode :=
  let candidates := nodes.filter (eligible now u)
  match draw with
  | none => none
  | some i => candidates.getD i <$> candidates.getLast?

/-- `ListOnlineNodes`. -/
def DB.listOnlineNodes (db : DB) (now : Time) : List Node :=
  orderBy (fun a b => a.id.toNat ≤ b.id.toNat)
    (db.nodes.filter fun n => n.status = .online ∧ n.revokedAt = none ∧
      ∀ expires ∈ n.certExpiresAt.toList, now < expires)

/-- The online nodes that answer for themselves and have room. -/
def DB.liveNodes (db : DB) (env : PlaceEnv) : List LiveNode :=
  ((db.listOnlineNodes env.now).filter fun n =>
      env.alive n.id = some true ∧ 0 < n.freeBytes).map fun n =>
    { node := n, livePlacements := db.countLivePlacements n.id }

/-- The use of a chunk before anything is placed: its occupants. -/
def seedUse (occupants : List Occupant) (chunkId : Uuid) : ChunkUse :=
  (occupants.filter fun o => o.chunkId = chunkId).foldl (fun u o => u.add o.node) ChunkUse.new

/-- The use of a chunk in the middle of the loop: occupants, then the nodes
assigned in this call. -/
def usedInChunk (occupants : List Occupant) (assigned : List (Uuid × Node)) (chunkId : Uuid) :
    ChunkUse :=
  (assigned.filter fun a => a.1 = chunkId).foldl (fun u a => u.add a.2)
    (seedUse occupants chunkId)

def bumpLive (id : Uuid) (live : List LiveNode) : List LiveNode :=
  updateWhere (fun n => n.node.id = id)
    (fun n => { n with livePlacements := n.livePlacements + 1 }) live

/-- The loop of `Place`.  A need without an eligible node is left out; a failed
reservation write fails the call. -/
def placeLoop (env : PlaceEnv) (occupants : List Occupant) :
    List LiveNode → List (Uuid × Node) → Nat → List PlaceNeed →
      Except StoreErr (List PlaceAssign)
  | _, _, _, [] => .ok []
  | live, assigned, k, need :: needs =>
    match pick env.now live (usedInChunk occupants assigned need.chunkId) (env.draw k) with
    | none => placeLoop env occupants live assigned (k + 1) needs
    | some chosen =>
      if env.reserve k = false then .error (.query "scheduler.place")
      else
        match placeLoop env occupants (bumpLive chosen.node.id live)
            (assigned ++ [(need.chunkId, chosen.node)]) (k + 1) needs with
        | .error e => .error e
        | .ok rest => .ok ({ fragmentId := need.fragmentId, node := chosen.node } :: rest)

/-- `Place`. -/
def DB.place (db : DB) (env : PlaceEnv) (needs : List PlaceNeed) :
    Except StoreErr (List PlaceAssign) :=
  if (db.listOnlineNodes env.now).any fun n => env.alive n.id = none then
    .error (.query "scheduler.place")
  else if db.liveNodes env = [] then .error .unavailable
  else if env.readsOk = false then .error (.query "scheduler.place")
  else
    placeLoop env (db.listOccupants (needs.map PlaceNeed.chunkId)) (db.liveNodes env) [] 0 needs

theorem pick_mem {now : Time} {nodes : List LiveNode} {u : ChunkUse} {draw : Option Nat}
    {n : LiveNode} (picked : pick now nodes u draw = some n) :
    n ∈ nodes ∧ eligible now u n = true := by
  cases draw with
  | none => simp [pick] at picked
  | some i =>
    simp only [pick, Option.map_eq_map, Option.map_eq_some_iff] at picked
    obtain ⟨last, isLast, rfl⟩ := picked
    have member : (nodes.filter (eligible now u)).getD i last ∈ nodes.filter (eligible now u) := by
      rw [List.getD_eq_getElem?_getD]
      cases found : (nodes.filter (eligible now u))[i]? with
      | none => simpa using List.mem_of_getLast? isLast
      | some m => simpa using List.mem_of_getElem? found
    simpa using member

end StoragePlatform
