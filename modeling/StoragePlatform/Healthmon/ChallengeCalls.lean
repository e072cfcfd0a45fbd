/-
Module: StoragePlatform.Healthmon.ChallengeCalls
Purpose: Audits and revalidations side by side, statement by statement: which challenge
  each takes, sends to the node and marks spent (internal/healthmon/challenge.go,
  internal/repair/worker.go).
Trusted boundary: human-reviewed spec; answers of the nodes and random draws are inputs
Main exports: Challenge.tuple, ChallengeCall, ChallengeMove, ChallengeSystem.step
-/
import StoragePlatform.Healthmon.Challenge

namespace StoragePlatform

open Lib

/-!
`TakeNextUnspent` is a read and `MarkChallengeSpent` an update of its own, with the minting
of a ticket and the request to the node in between.  What follows the update (the verdict)
neither reads nor writes challenges, so a call ends with it here.
-/

/-- What the node is asked: fragment, node, nonce and range. -/
def Challenge.tuple (c : Challenge) : Uuid × Uuid × Bytes × Int × Int :=
  (c.fragmentId, c.nodeId, c.nonce, c.offset, c.length)

/-- Where a call stands.  `ticket` says whether the lost row came with a challenge
ticket. -/
inductive ChallengeCall where
  | auditing (t : AuditTarget)
  | asking (t : AuditTarget)
  | revalidating (fragmentId nodeId : Uuid) (ticket : Bool) (sha256 : Bytes)
  | taken (ch : Challenge)
  | sent (ch : Challenge)
  | fetching (fragmentId nodeId : Uuid) (sha256 : Bytes)
  | done

/-- What a call does next.  `stop` is an error, a ticket that is not minted, or a crash. -/
inductive ChallengeMove where
  | refill (env : AuditEnv)
  | take
  | takeFails
  | send
  | spend (now : Instant)
  | spendFails
  | insert (env : AuditEnv) (ok : Bool)
  | stop

/-- The challenge set drawn from the body of a GET, if it is the fragment's. -/
def AuditEnv.drawn (env : AuditEnv) (fragmentId nodeId : Uuid) (sha256 : Bytes)
    (setSize maxRange : Int) : List Challenge :=
  match env.getFragment with
  | none => []
  | some body =>
    if env.hash body ≠ sha256 then []
    else computeChallengeSet env.hash body fragmentId nodeId setSize maxRange env.draw

/-- One statement of a call: where it stands then, the tables, and the challenges sent. -/
def AuditDB.advanceChallenge (s : AuditDB) :
    ChallengeCall → ChallengeMove → Option (ChallengeCall × AuditDB × List Challenge)
  | .done, _ => none
  | .auditing t, .refill env =>
    if t.remaining < lowWater then
      match s.refill env t with
      | (s', some _) => some (.done, s', [])
      | (s', none) => some (.asking t, s', [])
    else some (.asking t, s, [])
  | .asking t, .take =>
    match s.takeNextUnspent t.fragmentId t.nodeId with
    | none => some (.done, s, [])
    | some ch => some (.taken ch, s, [])
  | .revalidating fragmentId nodeId ticket sha256, .take =>
    match s.takeNextUnspent fragmentId nodeId, ticket with
    | some ch, true => some (.taken ch, s, [])
    | _, _ => some (.fetching fragmentId nodeId sha256, s, [])
  -- an error of the read sends the worker to the full GET; an audit returns it
  | .revalidating fragmentId nodeId _ sha256, .takeFails =>
    some (.fetching fragmentId nodeId sha256, s, [])
  | .taken ch, .send => some (.sent ch, s, [ch])
  | .sent ch, .spend now =>
    some (.done, s.markChallengeSpent ch.fragmentId ch.nodeId ch.seq now, [])
  | .sent _, .spendFails => some (.done, s, [])
  | .fetching fragmentId nodeId sha256, .insert env ok =>
    -- a failed INSERT is logged and nothing else
    if ok then
      some (.done, s.insertChallengeSet (env.drawn fragmentId nodeId sha256 8 4096), [])
    else some (.done, s, [])
  | _, .stop => some (.done, s, [])
  | _, _ => none

/-- The tables, the calls, and the history of the challenge requests. -/
structure ChallengeSystem where
  store : AuditDB
  calls : List ChallengeCall
  sent : List Challenge

def ChallengeSystem.init (store : AuditDB) : ChallengeSystem := ⟨store, [], []⟩

inductive ChallengeEvent where
  | audit (t : AuditTarget)
  | revalidate (fragmentId nodeId : Uuid) (ticket : Bool) (sha256 : Bytes)
  | move (i : Nat) (m : ChallengeMove)

def ChallengeSystem.step (s : ChallengeSystem) : ChallengeEvent → Option ChallengeSystem
  | .audit t => some { s with calls := s.calls ++ [.auditing t] }
  | .revalidate fragmentId nodeId ticket sha256 =>
    some { s with calls := s.calls ++ [.revalidating fragmentId nodeId ticket sha256] }
  | .move i m =>
    match s.calls[i]? with
    | none => none
    | some call =>
      match s.store.advanceChallenge call m with
      | none => none
      | some (call', store, sent) =>
        some { store := store, calls := s.calls.set i call', sent := s.sent ++ sent }

end StoragePlatform
