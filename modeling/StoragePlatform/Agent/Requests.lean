/-
Module: StoragePlatform.Agent.Requests
Purpose: The requests an agent serves, up to the point where their ticket nonce
  is consumed (internal/agent/fragments.go, ConsumeNonce of
  internal/agent/store.go).
Trusted boundary: human-reviewed spec; ids, numbers and the challenge nonce
  arrive as parsed or as unparsable
Main exports: AgentRequest, AgentRequest.accept, consumeNonce, AgentState.step
-/
import Mathlib.Logic.Function.Basic
import StoragePlatform.Lib.Runs
import StoragePlatform.Tickets

namespace StoragePlatform

open Lib

/-- The ticket key an agent has pinned and its own node id. -/
structure AgentEnv where
  sigOk : SigCheck
  ticketKey : Bytes
  nodeId : Uuid

/-- A request with the wire `ticketFrom` finds.  A path or query value that does
not parse is `none`. -/
inductive AgentRequest where
  | put (id : Option Uuid) (wire : Text)
  | get (id : Option Uuid) (wire : Text)
  | delete (id : Option Uuid) (wire : Text)
  | challenge (id : Option Uuid) (offset length : Option Int) (nonce : Option Bytes)
      (wire : Text)
deriving DecidableEq, Repr

/-- An error answer. -/
structure Answer where
  status : Nat
  text : String
deriving DecidableEq, Repr

def Answer.badRequest (text : String) : Answer := ⟨400, text⟩

def Answer.forbidden : Answer := ⟨403, "forbidden"⟩

def Answer.replay : Answer := ⟨403, "replay"⟩

/-- `MaxChallengeRange`. -/
def maxChallengeRange : Int := 65536

/-! ### Before the nonce -/

/-- What `handlePut`, `handleGet` and `handleDelete` check before the nonce. -/
def admitFragment (env : AgentEnv) (now : Instant) (op : TicketOp) (id : Option Uuid)
    (wire : Text) : Except Answer Ticket :=
  match id with
  | none => .error (.badRequest "invalid fragment id")
  | some id =>
    match verifyTicket env.sigOk env.ticketKey now wire op env.nodeId id with
    | .error _ => .error .forbidden
    | .ok tk => .ok tk

/-- What `handleChallenge` checks before the nonce. -/
def admitChallenge (env : AgentEnv) (now : Instant) (id : Option Uuid)
    (offset length : Option Int) (nonce : Option Bytes) (wire : Text) : Except Answer Ticket :=
  match id with
  | none => .error (.badRequest "invalid fragment id")
  | some id =>
    if offset.getD (-1) < 0 then .error (.badRequest "invalid offset")
    else if length.getD 0 ≤ 0 then .error (.badRequest "invalid length")
    else if maxChallengeRange < length.getD 0 then .error (.badRequest "length exceeds max")
    else if nonce.getD [] = [] then .error (.badRequest "invalid nonce")
    else
      match verifyTicket env.sigOk env.ticketKey now wire .challenge env.nodeId id with
      | .error _ => .error .forbidden
      | .ok tk =>
        if 0 < tk.maxBytes ∧ tk.maxBytes < toUint64 (length.getD 0) then
          .error (.badRequest "length exceeds max")
        else .ok tk

/-- The checks of each handler, `now` being the clock `Verifier.Parse` reads. -/
def AgentRequest.accept (env : AgentEnv) (now : Instant) : AgentRequest → Except Answer Ticket
  | .put id wire => admitFragment env now .put id wire
  | .get id wire => admitFragment env now .get id wire
  | .delete id wire => admitFragment env now .delete id wire
  | .challenge id offset length nonce wire => admitChallenge env now id offset length nonce wire

/-! ### The nonce -/

/-- The `nonces` bucket: the eight bytes under each key, read as an unsigned
number. -/
abbrev NonceBucket := Bytes → Option Nat

/-- `ConsumeNonce` with the clock it reads; `none` is `ErrReplay`. -/
def consumeNonce (nonces : NonceBucket) (nonce : Bytes) (exp now : Instant) :
    Option NonceBucket :=
  let kept := Function.update nonces nonce (some (toUint64 exp.unix))
  match nonces nonce with
  | none => some kept
  | some value => if now.unix < toInt64 value then none else some kept

/-! ### Requests in flight -/

/-!
`ConsumeNonce` reads its clock before it enters the `bbolt` transaction, and
write transactions run one at a time.  So a request moves in three steps after
it arrived: it is verified, it reads the clock a second time, and its
transaction runs.  Steps of different requests interleave freely.
-/

inductive RequestPhase where
  | arrived (request : AgentRequest)
  | verified (ticket : Ticket)
  | consuming (ticket : Ticket) (now : Instant)
  | passed (ticket : Ticket)
  | answered (answer : Answer)
deriving DecidableEq, Repr

/-- `clock` is the last reading; later readings are not before it. -/
structure AgentState where
  nonces : NonceBucket
  clock : Instant
  requests : List RequestPhase

def AgentState.init (clock : Instant) : AgentState where
  nonces := fun _ => none
  clock := clock
  requests := []

inductive AgentEvent where
  | arrive (request : AgentRequest)
  | verify (i : Nat) (now : Instant)
  | readClock (i : Nat) (now : Instant)
  | update (i : Nat)
deriving DecidableEq, Repr

def AgentState.setPhase (s : AgentState) (i : Nat) (phase : RequestPhase) : AgentState :=
  { s with requests := s.requests.set i phase }

/-- What `Verify` makes of a request. -/
def AgentRequest.admitted (env : AgentEnv) (now : Instant) (request : AgentRequest) :
    RequestPhase :=
  match request.accept env now with
  | .error answer => .answered answer
  | .ok tk => .verified tk

def AgentState.step (env : AgentEnv) (s : AgentState) : AgentEvent → Option AgentState
  | .arrive request => some { s with requests := s.requests ++ [.arrived request] }
  | .verify i now =>
    match s.requests[i]? with
    | some (.arrived request) =>
      if s.clock ≤ now then some { s.setPhase i (request.admitted env now) with clock := now }
      else none
    | _ => none
  | .readClock i now =>
    match s.requests[i]? with
    | some (.verified tk) =>
      if s.clock ≤ now then some { s.setPhase i (.consuming tk now) with clock := now }
      else none
    | _ => none
  | .update i =>
    match s.requests[i]? with
    | some (.consuming tk now) =>
      match consumeNonce s.nonces tk.nonce tk.expiresAt now with
      | none => some (s.setPhase i (.answered .replay))
      | some nonces => some { s.setPhase i (.passed tk) with nonces := nonces }
    | _ => none

theorem admitFragment_inv {env : AgentEnv} {now : Instant} {op : TicketOp} {id : Option Uuid}
    {wire : Text} {tk : Ticket} (admitted : admitFragment env now op id wire = .ok tk) :
    id = some tk.fragmentId ∧ tk.nodeId = env.nodeId ∧
      verifyTicket env.sigOk env.ticketKey now wire op env.nodeId tk.fragmentId = .ok tk := by
  simp only [admitFragment] at admitted
  repeat' split at admitted
  all_goals cases admitted
  rename_i verified
  obtain ⟨-, -, -, -, -, sameNode, rfl⟩ := verifyTicket_inv verified
  exact ⟨rfl, sameNode, verified⟩

theorem AgentRequest.admit_expiry {env : AgentEnv} {now : Instant} {request : AgentRequest}
    {tk : Ticket} (admitted : request.accept env now = .ok tk) :
    toInt64 (toUint64 tk.expiresAt.unix) = tk.expiresAt.unix := by
  have fragment : ∀ op id wire, admitFragment env now op id wire = .ok tk →
      toInt64 (toUint64 tk.expiresAt.unix) = tk.expiresAt.unix := fun op id wire served =>
    verifyTicket_expiry (admitFragment_inv served).2.2
  cases request with
  | put id wire => exact fragment _ _ _ admitted
  | get id wire => exact fragment _ _ _ admitted
  | delete id wire => exact fragment _ _ _ admitted
  | challenge id offset length nonce wire =>
    simp only [accept, admitChallenge] at admitted
    repeat' split at admitted
    all_goals cases admitted
    rename_i verified _
    exact verifyTicket_expiry verified

end StoragePlatform
