/-
Module: StoragePlatform.Proofs.SingleUse
Purpose: How often one ticket nonce passes at an agent, over every interleaving
  of its requests.
Trusted boundary: none
Main exports: SingleUse, InTime, NonceInv, single_use_iff
-/
import StoragePlatform.Agent.Requests

namespace StoragePlatform

open Lib List

variable {requests : List RequestPhase} {i : Nat} {old phase : RequestPhase} {now : Instant}
variable {nonces : NonceBucket} {tk : Ticket}

/-!
An agent keeps a nonce only until the second in which its ticket expires, and
`Verify` has read its own clock by then.  A request that was verified before the
expiry may therefore reach the nonce bucket after it, where the entry no longer
counts.  The condition below rules out exactly these requests.
-/

/-- Each nonce has passed for at most one request. -/
def SingleUse (s : AgentState) : Prop :=
  ∀ (i j : Nat) (tk tk' : Ticket), s.requests[i]? = some (.passed tk) →
    s.requests[j]? = some (.passed tk') →
    tk.nonce = tk'.nonce → i = j

/-- A request that comes to the bucket with a nonce that has passed before read
its clock before that earlier ticket expired. -/
def InTime (s : AgentState) : AgentEvent → Prop
  | .update i =>
    ∀ (tk : Ticket) (now : Instant) (j : Nat) (earlier : Ticket),
      s.requests[i]? = some (.consuming tk now) →
      s.requests[j]? = some (.passed earlier) → earlier.nonce = tk.nonce →
        now.unix < earlier.expiresAt.unix
  | _ => True

/-! ### What a step does -/

/-- The ticket a request holds. -/
def RequestPhase.ticket? : RequestPhase → Option Ticket
  | .verified tk => some tk
  | .consuming tk _ => some tk
  | .passed tk => some tk
  | _ => none

/-- The expiry of every ticket in flight fits its eight bytes. -/
def TicketsFit (s : AgentState) : Prop :=
  ∀ phase ∈ s.requests, ∀ tk, phase.ticket? = some tk →
    toInt64 (toUint64 tk.expiresAt.unix) = tk.expiresAt.unix

/-- What a step does to the bucket and to the requests that have passed: nothing,
or one request passes and its nonce is recorded. -/
inductive NonceEffect (s t : AgentState) (e : AgentEvent) : Prop where
  | quiet (nonces : t.nonces = s.nonces)
      (passed : ∀ (i : Nat) (tk : Ticket),
        t.requests[i]? = some (.passed tk) ↔ s.requests[i]? = some (.passed tk))
  | pass (i : Nat) (tk : Ticket) (now : Instant) (event : e = .update i)
      (current : s.requests[i]? = some (.consuming tk now))
      (free : ∀ value, s.nonces tk.nonce = some value → toInt64 value ≤ now.unix)
      (nonces : t.nonces =
        Function.update s.nonces tk.nonce (some (toUint64 tk.expiresAt.unix)))
      (passed : ∀ (j : Nat) (tk' : Ticket), t.requests[j]? = some (.passed tk') ↔
        (j = i ∧ tk' = tk) ∨ s.requests[j]? = some (.passed tk'))

theorem passed_set (current : requests[i]? = some old) (notYet : ∀ tk, old ≠ .passed tk)
    (phase : RequestPhase) (j : Nat) (tk : Ticket) :
    (requests.set i phase)[j]? = some (.passed tk) ↔
      (j = i ∧ phase = .passed tk) ∨ requests[j]? = some (.passed tk) := by
  by_cases here : i = j
  · subst here
    rw [getElem?_set_here current, current]
    constructor
    · intro set
      exact .inl ⟨rfl, Option.some.inj set⟩
    · rintro (⟨_, isPassed⟩ | old)
      · rw [isPassed]
      · exact absurd (Option.some.inj old) (notYet tk)
  · rw [getElem?_set_ne here]
    constructor
    · exact .inr
    · rintro (⟨there, _⟩ | same)
      · exact absurd there.symm here
      · exact same

theorem passed_set_quiet (current : requests[i]? = some old) (notYet : ∀ tk, old ≠ .passed tk)
    (notNow : ∀ tk, phase ≠ .passed tk) (j : Nat) (tk : Ticket) :
    (requests.set i phase)[j]? = some (.passed tk) ↔ requests[j]? = some (.passed tk) := by
  rw [passed_set current notYet]
  constructor
  · rintro (⟨_, isPassed⟩ | same)
    · exact absurd isPassed (notNow tk)
    · exact same
  · exact .inr

theorem admitted_ne_passed {env : AgentEnv} {request : AgentRequest} (tk : Ticket) :
    request.admitted env now ≠ .passed tk := by
  simp only [AgentRequest.admitted]
  split <;> simp

theorem consumeNonce_some {kept : NonceBucket} {nonce : Bytes} {exp : Instant}
    (consumed : consumeNonce nonces nonce exp now = some kept) :
    kept = Function.update nonces nonce (some (toUint64 exp.unix)) ∧
      ∀ value, nonces nonce = some value → toInt64 value ≤ now.unix := by
  simp only [consumeNonce] at consumed
  cases found : nonces nonce with
  | none =>
    rw [found] at consumed
    exact ⟨(Option.some.inj consumed).symm, by simp⟩
  | some value =>
    simp only [found] at consumed
    split at consumed
    · cases consumed
    · rename_i late
      refine ⟨(Option.some.inj consumed).symm, ?_⟩
      intro other same
      cases same
      omega

section Steps

variable {env : AgentEnv} {s t : AgentState} {e : AgentEvent}

theorem AgentState.step_effect (moved : s.step env e = some t) : NonceEffect s t e := by
  cases e with
  | arrive request =>
    simp only [step, Option.some.injEq] at moved
    subst moved
    refine .quiet rfl fun i tk => ?_
    rw [getElem?_append]
    split
    · rfl
    · rename_i beyond
      simp only [getElem?_singleton, getElem?_eq_none (Nat.le_of_not_lt beyond)]
      split <;> simp
  | verify i now =>
    simp only [step] at moved
    split at moved
    · rename_i request current
      split at moved <;> cases moved
      exact .quiet rfl (passed_set_quiet current (by simp) admitted_ne_passed)
    · cases moved
  | readClock i now =>
    simp only [step] at moved
    split at moved
    · rename_i tk current
      split at moved <;> cases moved
      exact .quiet rfl (passed_set_quiet current (by simp) (by simp))
    · cases moved
  | update i =>
    simp only [step] at moved
    split at moved
    · rename_i tk now current
      split at moved
      · cases moved
        exact .quiet rfl (passed_set_quiet current (by simp) (by simp))
      · rename_i nonces consumed
        cases moved
        obtain ⟨kept, free⟩ := consumeNonce_some consumed
        refine .pass i tk now rfl current free kept fun j tk' => ?_
        rw [setPhase, passed_set current (by simp)]
        simp only [RequestPhase.passed.injEq, eq_comm]
    · cases moved

theorem TicketsFit.set {nonces' : NonceBucket} {clock clock' : Instant}
    (fit : TicketsFit ⟨nonces, clock, requests⟩) (new : ∀ tk, phase.ticket? = some tk →
      toInt64 (toUint64 tk.expiresAt.unix) = tk.expiresAt.unix) (i : Nat) :
    TicketsFit ⟨nonces', clock', requests.set i phase⟩ := by
  intro other member tk holds
  rcases mem_or_eq_of_mem_set member with old | rfl
  · exact fit other old tk holds
  · exact new tk holds

theorem TicketsFit.step (fit : TicketsFit s) (moved : s.step env e = some t) : TicketsFit t := by
  have held : ∀ {i : Nat} {phase : RequestPhase}, s.requests[i]? = some phase →
      ∀ tk, phase.ticket? = some tk →
        toInt64 (toUint64 tk.expiresAt.unix) = tk.expiresAt.unix :=
    fun current => fit _ (mem_of_getElem? current)
  cases e with
  | arrive request =>
    cases moved
    intro phase member tk holds
    rcases mem_append.mp member with old | new
    · exact fit phase old tk holds
    · rw [mem_singleton.mp new] at holds
      cases holds
  | verify i now =>
    simp only [AgentState.step] at moved
    split at moved
    · rename_i request current
      split at moved <;> cases moved
      refine fit.set (fun tk holds => ?_) i
      simp only [AgentRequest.admitted] at holds
      split at holds <;> cases holds
      rename_i admitted
      exact AgentRequest.admit_expiry admitted
    · cases moved
  | readClock i now =>
    simp only [AgentState.step] at moved
    split at moved
    · rename_i tk current
      split at moved <;> cases moved
      refine fit.set (fun tk' holds => ?_) i
      cases holds
      exact held current tk rfl
    · cases moved
  | update i =>
    simp only [AgentState.step] at moved
    split at moved
    · rename_i tk now current
      split at moved
      · cases moved
        exact fit.set (fun _ holds => by cases holds) i
      · cases moved
        refine fit.set (fun tk' holds => ?_) i
        cases holds
        exact held current tk rfl
    · cases moved

end Steps

/-! ### The invariant -/

/-- The bucket records exactly the nonces that have passed, each with the expiry
of the one ticket it passed for. -/
structure NonceInv (s : AgentState) : Prop where
  single : SingleUse s
  recorded : ∀ (i : Nat) (tk : Ticket), s.requests[i]? = some (.passed tk) →
    s.nonces tk.nonce = some (toUint64 tk.expiresAt.unix)
  owned : ∀ nonce value, s.nonces nonce = some value →
    ∃ (i : Nat) (tk : Ticket), s.requests[i]? = some (.passed tk) ∧ tk.nonce = nonce
  fit : TicketsFit s

theorem NonceInv.init (clock : Instant) : NonceInv (.init clock) where
  single := by simp [SingleUse, AgentState.init]
  recorded := by simp [AgentState.init]
  owned := by simp [AgentState.init]
  fit := by simp [TicketsFit, AgentState.init]

theorem NonceInv.expiry {s : AgentState} (inv : NonceInv s)
    (passed : s.requests[i]? = some (.passed tk)) :
    toInt64 (toUint64 tk.expiresAt.unix) = tk.expiresAt.unix :=
  inv.fit _ (mem_of_getElem? passed) tk rfl

section Run

variable {env : AgentEnv} {s t : AgentState} {e : AgentEvent}

/-- A request in time whose nonce has passed before does not pass. -/
theorem NonceInv.not_passed_before (inv : NonceInv s)
    (current : s.requests[i]? = some (.consuming tk now))
    (free : ∀ value, s.nonces tk.nonce = some value → toInt64 value ≤ now.unix)
    (inTime : InTime s (.update i)) : s.nonces tk.nonce = none := by
  cases found : s.nonces tk.nonce with
  | none => rfl
  | some value =>
    obtain ⟨j, earlier, passed, same⟩ := inv.owned tk.nonce value found
    have before := inTime tk now j earlier current passed same
    have value_eq : value = toUint64 earlier.expiresAt.unix := by
      have recorded := inv.recorded j earlier passed
      rw [same, found] at recorded
      exact Option.some.inj recorded
    have late := free value found
    rw [value_eq, inv.expiry passed] at late
    omega

theorem NonceInv.step (inv : NonceInv s) (moved : s.step env e = some t) (inTime : InTime s e) :
    NonceInv t := by
  have fit := inv.fit.step moved
  cases AgentState.step_effect moved with
  | quiet nonces passed =>
    refine ⟨fun i j tk tk' one two => ?_, fun i tk one => ?_, fun nonce value found => ?_, fit⟩
    · exact inv.single i j tk tk' ((passed i tk).mp one) ((passed j tk').mp two)
    · rw [nonces]
      exact inv.recorded i tk ((passed i tk).mp one)
    · rw [nonces] at found
      obtain ⟨i, tk, one, same⟩ := inv.owned nonce value found
      exact ⟨i, tk, (passed i tk).mpr one, same⟩
  | pass i tk now event current free nonces passed =>
    subst event
    have fresh := inv.not_passed_before current free inTime
    -- no request that passed before has this nonce, since the bucket has no entry for it
    have other : ∀ (j : Nat) (tk' : Ticket), s.requests[j]? = some (.passed tk') →
        tk'.nonce ≠ tk.nonce := by
      intro j tk' one same
      have recorded := inv.recorded j tk' one
      rw [same, fresh] at recorded
      cases recorded
    refine ⟨fun j k tj tk' one two same => ?_, fun j tj one => ?_, fun nonce value found => ?_, fit⟩
    · rcases (passed j tj).mp one with ⟨rfl, rfl⟩ | old
      · rcases (passed k tk').mp two with ⟨rfl, _⟩ | old'
        · rfl
        · exact absurd same.symm (other k tk' old')
      · rcases (passed k tk').mp two with ⟨rfl, rfl⟩ | old'
        · exact absurd same (other j tj old)
        · exact inv.single j k tj tk' old old' same
    · rw [nonces]
      rcases (passed j tj).mp one with ⟨rfl, rfl⟩ | old
      · rw [Function.update_self]
      · rw [Function.update_of_ne (other j tj old)]
        exact inv.recorded j tj old
    · rw [nonces] at found
      by_cases same : nonce = tk.nonce
      · exact ⟨i, tk, (passed i tk).mpr (.inl ⟨rfl, rfl⟩), same.symm⟩
      · rw [Function.update_of_ne same] at found
        obtain ⟨j, tj, old, named⟩ := inv.owned nonce value found
        exact ⟨j, tj, (passed j tj).mpr (.inr old), named⟩

/-- A request that comes late with a nonce that has passed before does pass. -/
theorem NonceInv.inTime_of_single (inv : NonceInv s) (moved : s.step env e = some t)
    (single : SingleUse t) : InTime s e := by
  cases e with
  | update i =>
    intro tk now j earlier current passed same
    by_contra late
    have found := inv.recorded j earlier passed
    rw [same] at found
    have expired : ¬ now.unix < toInt64 (toUint64 earlier.expiresAt.unix) := by
      rw [inv.expiry passed]
      exact late
    simp only [AgentState.step, current, consumeNonce, found, if_neg expired,
      Option.some.injEq] at moved
    subst moved
    have apart : i ≠ j := by
      rintro rfl
      rw [current] at passed
      cases passed
    have second : (s.requests.set i (.passed tk))[i]? = some (.passed tk) :=
      getElem?_set_here current
    have first : (s.requests.set i (.passed tk))[j]? = some (.passed earlier) := by
      rw [getElem?_set_ne apart, passed]
    exact apart (single i j tk earlier second first same.symm)
  | _ => trivial

end Run

/-- In a run of an agent each ticket nonce passes for at most one request exactly
if no request brings a nonce that has passed before to the bucket with a clock
reading at or after the second in which the earlier ticket expired. -/
theorem single_use_iff (env : AgentEnv) (clock : Instant) (events : List AgentEvent) :
    EveryState (AgentState.step env) SingleUse (.init clock) events ↔
      EveryStep (AgentState.step env) (fun s e _ => InTime s e) (.init clock) events := by
  apply EveryState.iff_everyStep (I := NonceInv)
  · exact fun s inv => inv.single
  · exact fun s e t inv moved single => inv.inTime_of_single moved single
  · exact fun s e t inv moved inTime => inv.step moved inTime
  · exact NonceInv.init clock

namespace Sample

/-- A GET ticket that expires at second 100. -/
def getTicket : Ticket where
  op := TicketOp.bytes .get
  fragmentId := 1
  nodeId := 2
  sha256 := List.replicate 32 0
  maxBytes := 10
  expiresAt := .ofUnix 100
  nonce := List.replicate 16 7
  raw := []

def getWire : Text := encodeWire getTicket.encode (List.replicate 64 0)

def agentEnv : AgentEnv := ⟨fun _ _ _ => true, List.replicate 32 1, 2⟩

/-- The same wire twice: both are verified a nanosecond before the expiry, one
reads its second clock then and one a nanosecond later. -/
def straddle : List AgentEvent :=
  [.arrive (.get (some 1) getWire), .arrive (.get (some 1) getWire),
    .verify 0 99999999999, .verify 1 99999999999,
    .readClock 0 99999999999, .update 0, .readClock 1 100000000000, .update 1]

end Sample

open Sample

/-- A GET ticket served twice across the instant it expires. -/
theorem ticket_passes_twice :
    ∃ s tk, exec (AgentState.step agentEnv) (.init 0) straddle = some s ∧
      s.requests = [.passed tk, .passed tk] ∧ ¬ SingleUse s := by
  have ran : (exec (AgentState.step agentEnv) (.init 0) straddle).map (fun s => s.requests) =
        some [.passed { getTicket with raw := getWire },
          .passed { getTicket with raw := getWire }] := by
    decide +kernel
  rw [Option.map_eq_some_iff] at ran
  obtain ⟨s, reached, requests⟩ := ran
  refine ⟨s, _, reached, requests, fun single => ?_⟩
  have same := single 0 1 _ _ (by rw [requests]; rfl) (by rw [requests]; rfl) rfl
  cases same

end StoragePlatform
