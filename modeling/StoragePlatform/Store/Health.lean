/-
Module: StoragePlatform.Store.Health
Purpose: The two scans over the stored placements of committed chunks and the
  checks built on them (internal/store/repair.go, internal/invariants/invariants.go).
Trusted boundary: human-reviewed spec
Main exports: Node.usable, DB.storedOnChunks, DB.underHealthyChunks, DB.checkCaps
-/
import StoragePlatform.Scheduler

namespace StoragePlatform

open Lib

/-!
Both scans join the placements with status `stored` to their fragment, node,
chunk and committed version, and then group.  The rows of an inner join are the
same from whichever table it starts, so one join serves the two statements.
-/

/-- `n.status NOT IN ('offline', 'quarantined')`. -/
def Node.usable (n : Node) : Bool :=
  n.status ≠ .offline ∧ n.status ≠ .quarantined

/-- `chunks c JOIN file_versions v ON v.id = c.version_id AND v.status = 'committed'`. -/
def DB.committedChunks (db : DB) : List (Chunk × FileVersion) :=
  innerJoin (fun c v => v.id = c.versionId ∧ v.status = .committed) db.chunks db.versions

/-- The stored placements of committed chunks with the rows they join. -/
def DB.storedOnChunks (db : DB) : List (PlacementTarget × Chunk × FileVersion) :=
  innerJoin (fun t cv => cv.1.id = t.fragment.chunkId)
    (db.placementTargets.filter fun t => t.placement.status = .stored) db.committedChunks

/-- `UnderHealthyChunks`. -/
def DB.underHealthyChunks (db : DB) (min : Int) : List Uuid :=
  groupHaving (fun row => row.2.1.id) (fun count => count < min)
    (db.storedOnChunks.filter fun row => row.1.node.usable)

/-! ### Caps -/

/-- The rows of `live` whose chunk is in `wide`: stored on ten nodes or more. -/
def DB.wideRows (db : DB) : List (PlacementTarget × Chunk × FileVersion) :=
  db.storedOnChunks.filter fun row =>
    10 ≤ ((db.storedOnChunks.filter fun other =>
      other.1.fragment.chunkId = row.1.fragment.chunkId).map fun other =>
        other.1.node.id).dedup.length

/-- One branch of the UNION: the chunks with more than `cap` rows that agree on
`attr`, where `attr` is not null or empty. -/
def DB.overCap {κ : Type} [DecidableEq κ] (db : DB) (attr : Node → Option κ) (cap : Nat) :
    List Uuid :=
  (groupHaving (fun row => (row.1.fragment.chunkId, attr row.1.node)) (fun count => cap < count)
    (db.wideRows.filter fun row => (attr row.1.node).isSome)).map Prod.fst

/-- `l.region <> ''`. -/
def Node.knownRegion (n : Node) : Option Text :=
  if n.region = [] then none else some n.region

/-- `ChunkCapViolations`. -/
def DB.chunkCapViolations (db : DB) (regionCap asnCap ownerCap : Nat) : List Uuid :=
  (db.overCap (fun n => some n.id) 1 ++ db.overCap Node.knownRegion regionCap ++
    db.overCap Node.asn asnCap ++ db.overCap (fun n => some n.ownerId) ownerCap).dedup

/-! ### Checks -/

/-- The errors of the checks, with the values their texts print. -/
inductive CheckErr where
  /-- `invariants.durability: %d chunks below %d healthy (first %s)` -/
  | durability (chunks : Nat) (minHealthy : Int) (first : Uuid)
  /-- `invariants.caps: %d chunks violate placement caps (first %s)` -/
  | caps (chunks : Nat) (first : Uuid)
deriving DecidableEq, Repr

def minHealthy : Int := 12

/-- `CheckDurability`, when the query succeeds. -/
def DB.checkDurability (db : DB) : Except CheckErr Unit :=
  match db.underHealthyChunks minHealthy with
  | [] => .ok ()
  | first :: rest => .error (.durability (rest.length + 1) minHealthy first)

/-- `CheckCaps`, when the query succeeds. -/
def DB.checkCaps (db : DB) : Except CheckErr Unit :=
  match db.chunkCapViolations regionCap asnCap ownerCap with
  | [] => .ok ()
  | first :: rest => .error (.caps (rest.length + 1) first)

end StoragePlatform
