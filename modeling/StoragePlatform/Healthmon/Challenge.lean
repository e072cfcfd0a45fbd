/-
Module: StoragePlatform.Healthmon.Challenge
Purpose: One audit of a stored placement: the refill of its challenge set by a
  full GET, the challenge and the verdict (internal/healthmon/challenge.go).
Trusted boundary: human-reviewed spec; the database, the repair stream and ticket
  minting do not fail, the node's answers are inputs
Main exports: computeChallengeSet, AuditEnv, AuditDB.failPlacement, AuditDB.auditActions
-/
import StoragePlatform.Agent.Requests
import StoragePlatform.Store.Challenges

namespace StoragePlatform

open Lib

/-- What `ComputeChallengeSet` draws for one tuple: two unsigned words and a
nonce. -/
structure ChallengeDraw where
  length : Nat
  offset : Nat
  nonce : Bytes
deriving DecidableEq, Repr

def defaultChallengeSetSize : Int := 8

def defaultChallengeMaxRange : Int := 4096

/-- `ComputeChallengeSet`. -/
def computeChallengeSet (hash : Bytes → Bytes) (data : Bytes) (fragmentId nodeId : Uuid)
    (n maxRange : Int) (draw : Nat → ChallengeDraw) : List Challenge :=
  let n := if n ≤ 0 then defaultChallengeSetSize else n
  let maxRange := if maxRange ≤ 0 then defaultChallengeMaxRange else maxRange
  let maxRange := if maxChallengeRange < maxRange then maxChallengeRange else maxRange
  let size := data.length
  if size = 0 then []
  else
    (List.range n.toNat).map fun i =>
      let length := min maxRange.toNat size
      let length := if 1 < length then 1 + (draw i).length % length else length
      let maxOff := size - length
      let offset := if 0 < maxOff then (draw i).offset % (maxOff + 1) else 0
      { fragmentId := fragmentId
        nodeId := nodeId
        seq := i
        offset := offset
        length := length
        nonce := (draw i).nonce
        expected := hash ((draw i).nonce ++ (data.drop offset).take length) }

/-- The surroundings of one audit: what the node answers to the GET and to a
challenge (`none` is an error), the random draws and the clock readings. -/
structure AuditEnv where
  hash : Bytes → Bytes
  getFragment : Option Bytes
  doChallenge : Challenge → Option Bytes
  draw : Nat → ChallengeDraw
  setSize : Int
  maxRange : Int
  spentAt : Instant
  touchedAt : Instant
  publishedAt : Time

inductive AuditErr where
  | get
  | notFound
deriving DecidableEq, Repr

/-- `lowWater`. -/
def lowWater : Nat := 2

namespace AuditDB

/-- `failPlacement`. -/
def failPlacement (s : AuditDB) (env : AuditEnv) (t : AuditTarget) :
    AuditDB × Option AuditErr :=
  match s.db.markPlacementLost t.fragmentId t.nodeId with
  | (.error _, _) => (s, some .notFound)
  | (.ok lost, db) =>
    let job : RepairJob := ⟨lost.chunkId, db.chunkHealth lost.chunkId⟩
    ({ s with db := db, stream := s.stream.publishRepair env.publishedAt job }, none)

/-- A failed check: the reputation event, the audit counter, the placement. -/
def fail (s : AuditDB) (env : AuditEnv) (t : AuditTarget) : AuditDB × Option AuditErr :=
  AuditDB.failPlacement
    ((s.applyReputationEvent t.nodeId signalChallengeFailed).bumpNodeAudit t.nodeId false) env t

/-- `refill`. -/
def refill (s : AuditDB) (env : AuditEnv) (t : AuditTarget) : AuditDB × Option AuditErr :=
  match env.getFragment with
  | none => (s, some .get)
  | some body =>
    if env.hash body ≠ t.sha256 then s.fail env t
    else
      (s.insertChallengeSet (computeChallengeSet env.hash body t.fragmentId t.nodeId env.setSize
        env.maxRange env.draw), none)

/-- `audit` after the refill. -/
def challenge (s : AuditDB) (env : AuditEnv) (t : AuditTarget) : AuditDB × Option AuditErr :=
  match s.takeNextUnspent t.fragmentId t.nodeId with
  | none => (s, some .notFound)
  | some ch =>
    let touched := (s.markChallengeSpent t.fragmentId t.nodeId ch.seq env.spentAt).touchLastAudit
      t.fragmentId t.nodeId env.touchedAt
    if env.doChallenge ch ≠ some ch.expected then touched.fail env t
    else
      ((touched.applyReputationEvent t.nodeId signalChallengePassed).bumpNodeAudit t.nodeId true,
        none)

/-- `audit`. -/
def audit (s : AuditDB) (env : AuditEnv) (t : AuditTarget) : AuditDB × Option AuditErr :=
  if t.remaining < lowWater then
    match s.refill env t with
    | (s', some e) => (s', some e)
    | (s', none) => s'.challenge env t
  else s.challenge env t

end AuditDB

/-! ### What an audit does, in order -/

/-- The acts of an audit that the node, its record or its placement feel. -/
inductive AuditAction where
  | get
  | challenge (ch : Challenge)
  /-- `ApplyReputationEvent`, with `SignalChallengePassed` or `SignalChallengeFailed`. -/
  | reputation (passed : Bool)
  /-- `BumpNodeAudit`. -/
  | counter (passed : Bool)
  /-- `MarkPlacementLost` has flipped the placement. -/
  | lost
deriving DecidableEq, Repr

namespace AuditDB

/-- `MarkPlacementLost` finds the placement pending or stored. -/
def losable (s : AuditDB) (t : AuditTarget) : Bool :=
  match s.db.markPlacementLost t.fragmentId t.nodeId with
  | (.error _, _) => false
  | (.ok _, _) => true

def failActions (s : AuditDB) (t : AuditTarget) : List AuditAction :=
  [.reputation false, .counter false] ++ if s.losable t then [.lost] else []

def refillActions (s : AuditDB) (env : AuditEnv) (t : AuditTarget) : List AuditAction :=
  match env.getFragment with
  | none => [.get]
  | some body => if env.hash body ≠ t.sha256 then .get :: s.failActions t else [.get]

def challengeActions (s : AuditDB) (env : AuditEnv) (t : AuditTarget) : List AuditAction :=
  match s.takeNextUnspent t.fragmentId t.nodeId with
  | none => []
  | some ch =>
    .challenge ch ::
      if env.doChallenge ch ≠ some ch.expected then s.failActions t
      else [.reputation true, .counter true]

def auditActions (s : AuditDB) (env : AuditEnv) (t : AuditTarget) : List AuditAction :=
  if t.remaining < lowWater then
    s.refillActions env t ++
      match s.refill env t with
      | (_, some _) => []
      | (s', none) => s'.challengeActions env t
  else s.challengeActions env t

end AuditDB

end StoragePlatform
