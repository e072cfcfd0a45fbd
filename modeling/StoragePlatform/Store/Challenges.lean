/-
Module: StoragePlatform.Store.Challenges
Purpose: The challenge sets of stored placements, the audit clock and the queries
  of an audit (internal/store/challenges.go, ApplyReputationEvent and
  BumpNodeAudit).
Trusted boundary: human-reviewed spec; a REAL is its exact value
Main exports: Challenge, AuditTarget, AuditDB, AuditDB.listDueAudits
-/
import Mathlib.Data.Rat.Defs
import Mathlib.Algebra.Order.Ring.Unbundled.Rat
import StoragePlatform.Events
import StoragePlatform.Healthmon.Status

namespace StoragePlatform

open Lib

/-- One storage-proof tuple. -/
structure Challenge where
  fragmentId : Uuid
  nodeId : Uuid
  seq : Int
  offset : Int
  length : Int
  nonce : Bytes
  expected : Bytes
deriving DecidableEq, Repr

/-- A row of `fragment_challenges`. -/
structure ChallengeRow where
  challenge : Challenge
  spentAt : Option Instant
deriving DecidableEq, Repr

structure AuditTarget where
  placementId : Nat
  fragmentId : Uuid
  nodeId : Uuid
  chunkId : Uuid
  sizeBytes : Int
  sha256 : Bytes
  endpoint : Text
  reputation : Rat
  remaining : Nat

/-- The placement map with what audits read and write: the challenge rows,
`last_audit_at` by placement, the nodes' reputation and the repair stream.
`signals` and `audits` are the history of reputation events and of audit counter
increments. -/
structure AuditDB where
  db : DB
  challenges : List ChallengeRow
  lastAuditAt : Nat → Option Instant
  reputation : Uuid → Rat
  signals : List (Uuid × Rat)
  audits : List (Uuid × Bool)
  stream : JobStream

namespace AuditDB

/-! ### Challenges -/

/-- The unspent rows of a placement. -/
def unspent (s : AuditDB) (fragmentId nodeId : Uuid) : List ChallengeRow :=
  s.challenges.filter fun row =>
    row.challenge.fragmentId = fragmentId ∧ row.challenge.nodeId = nodeId ∧ row.spentAt = none

/-- The primary key. -/
def sameKey (c : Challenge) (row : ChallengeRow) : Bool :=
  row.challenge.fragmentId = c.fragmentId ∧ row.challenge.nodeId = c.nodeId ∧
    row.challenge.seq = c.seq

/-- INSERT … ON CONFLICT DO UPDATE. -/
def upsertChallenge (rows : List ChallengeRow) (c : Challenge) : List ChallengeRow :=
  if rows.any (sameKey c) then updateWhere (sameKey c) (fun _ => ⟨c, none⟩) rows
  else rows ++ [⟨c, none⟩]

/-- `InsertChallengeSet`. -/
def insertChallengeSet (s : AuditDB) (set : List Challenge) : AuditDB :=
  match set with
  | [] => s
  | first :: _ =>
    let kept := s.challenges.filter fun row =>
      ¬ (row.challenge.fragmentId = first.fragmentId ∧ row.challenge.nodeId = first.nodeId ∧
        row.spentAt = none)
    { s with challenges := set.foldl upsertChallenge kept }

/-- `TakeNextUnspent`; `none` is `ErrNotFound`. -/
def takeNextUnspent (s : AuditDB) (fragmentId nodeId : Uuid) : Option Challenge :=
  ((orderBy (fun a b => decide (a.challenge.seq ≤ b.challenge.seq))
    (s.unspent fragmentId nodeId)).head?).map ChallengeRow.challenge

/-- `MarkChallengeSpent`. -/
def markChallengeSpent (s : AuditDB) (fragmentId nodeId : Uuid) (seq : Int) (now : Instant) :
    AuditDB :=
  { s with
    challenges := updateWhere
      (fun row => row.challenge.fragmentId = fragmentId ∧ row.challenge.nodeId = nodeId ∧
        row.challenge.seq = seq ∧ row.spentAt = none)
      (fun row => { row with spentAt := some now }) s.challenges }

/-! ### Audit bookkeeping -/

/-- `TouchLastAudit`. -/
def touchLastAudit (s : AuditDB) (fragmentId nodeId : Uuid) (now : Instant) : AuditDB :=
  { s with
    lastAuditAt := fun id =>
      if s.db.placements.any fun p =>
          p.id = id ∧ p.fragmentId = fragmentId ∧ p.nodeId = nodeId then some now
      else s.lastAuditAt id }

def signalChallengePassed : Rat := 85 / 100

def signalChallengeFailed : Rat := 0

/-- `ApplyReputationEvent`: the EWMA step with weight 0.15, clamped. -/
def applyReputationEvent (s : AuditDB) (nodeId : Uuid) (signal : Rat) : AuditDB :=
  { s with
    reputation := fun id =>
      if id = nodeId then max 0 (min 1 ((1 - 15 / 100) * s.reputation id + 15 / 100 * signal))
      else s.reputation id
    signals := s.signals ++ [(nodeId, signal)] }

/-- `BumpNodeAudit`. -/
def bumpNodeAudit (s : AuditDB) (nodeId : Uuid) (passed : Bool) : AuditDB :=
  { s with audits := s.audits ++ [(nodeId, passed)] }

/-! ### Due audits -/

/-- One row of the audit query. -/
def auditTarget (s : AuditDB) (t : PlacementTarget) : AuditTarget where
  placementId := t.placement.id
  fragmentId := t.placement.fragmentId
  nodeId := t.placement.nodeId
  chunkId := t.fragment.chunkId
  sizeBytes := t.fragment.sizeBytes
  sha256 := t.fragment.sha256
  endpoint := t.node.endpoint
  reputation := s.reputation t.node.id
  remaining := (s.unspent t.placement.fragmentId t.placement.nodeId).length

/-- A stored placement on an online node whose last audit, if any, is older than
the given time. -/
def isDue (s : AuditDB) (before : Instant) (t : PlacementTarget) : Bool :=
  decide (t.placement.status = .stored) && decide (t.node.status = .online) &&
    match s.lastAuditAt t.placement.id with
    | none => true
    | some last => decide (last < before)

/-- NULLS FIRST. -/
def auditedBefore : Option Instant → Option Instant → Bool
  | none, _ => true
  | some _, none => false
  | some a, some b => decide (a ≤ b)

/-- `ORDER BY n.reputation ASC, p.last_audit_at NULLS FIRST, p.id`. -/
def dueOrder (s : AuditDB) (a b : PlacementTarget) : Bool :=
  let ra := s.reputation a.node.id
  let rb := s.reputation b.node.id
  let la := s.lastAuditAt a.placement.id
  let lb := s.lastAuditAt b.placement.id
  decide (ra < rb) ||
    (decide (ra = rb) &&
      ((auditedBefore la lb && !auditedBefore lb la) ||
        (decide (la = lb) && decide (a.placement.id ≤ b.placement.id))))

/-- `ListDueAudits`. -/
def listDueAudits (s : AuditDB) (now : Instant) (minAge limit : Int) : List AuditTarget :=
  let secs := max 0 (wholeSeconds minAge)
  let due := s.db.placementTargets.filter (s.isDue (now - secs * 1000000000))
  ((orderBy s.dueOrder due).take (if limit ≤ 0 then 16 else limit.toNat)).map s.auditTarget

end AuditDB

end StoragePlatform
