/-
Module: StoragePlatform.Proofs.Verdicts
Purpose: When one audit reaches one verdict, for every number of remaining challenges
  and every answer of the node.
Trusted boundary: none
Main exports: OneOutcome, AuditDB.audit_records, one_outcome_iff
-/
import StoragePlatform.Proofs.Audit

namespace StoragePlatform

open Lib List Sample

/-!
`refill` decides about the placement when the full GET returns wrong bytes, and answers
with the result of `failPlacement`.  A nil from there reads like a refilled set, and `audit`
asks what is left of the old one.
-/

/-! ### One outcome -/

def AuditAction.reputation? : AuditAction → Option Bool
  | .reputation passed => some passed
  | _ => none

def AuditAction.counter? : AuditAction → Option Bool
  | .counter passed => some passed
  | _ => none

/-- Neither a challenge nor a pass. -/
def AuditAction.quiet : AuditAction → Bool
  | .challenge _ => false
  | .reputation passed => !passed
  | .counter passed => !passed
  | _ => true

/-- After the placement was lost there is no challenge and no pass. -/
def quietAfterLoss : List AuditAction → Bool
  | [] => true
  | .lost :: rest => rest.all AuditAction.quiet
  | _ :: rest => quietAfterLoss rest

/-- At most one reputation event and one counter increment, with one verdict, and nothing
after a loss. -/
structure OneOutcome (actions : List AuditAction) : Prop where
  reputation : (actions.filterMap AuditAction.reputation?).length ≤ 1
  counter : (actions.filterMap AuditAction.counter?).length ≤ 1
  verdict : ∀ v ∈ actions.filterMap AuditAction.reputation?,
    ∀ w ∈ actions.filterMap AuditAction.counter?, v = w
  final : quietAfterLoss actions = true

theorem OneOutcome.silent {actions : List AuditAction} (a : AuditAction)
    (noEvent : a.reputation? = none) (noCount : a.counter? = none) (kept : a ≠ .lost)
    (one : OneOutcome actions) : OneOutcome (a :: actions) := by
  constructor
  · rw [filterMap_cons_none noEvent]
    exact one.reputation
  · rw [filterMap_cons_none noCount]
    exact one.counter
  · rw [filterMap_cons_none noEvent, filterMap_cons_none noCount]
    exact one.verdict
  · cases a with
    | lost => exact absurd rfl kept
    | _ => exact one.final

namespace AuditDB

variable (s : AuditDB) (env : AuditEnv) (t : AuditTarget)

/-! ### The actions are those of the audit -/

/-- What the history of a state says was done since another. -/
structure Records (before after : AuditDB) (t : AuditTarget) (actions : List AuditAction) :
    Prop where
  signals : after.signals = before.signals ++
    (actions.filterMap AuditAction.reputation?).map fun passed =>
      (t.nodeId, if passed then signalChallengePassed else signalChallengeFailed)
  audits : after.audits = before.audits ++
    (actions.filterMap AuditAction.counter?).map fun passed => (t.nodeId, passed)
  lost : after.db = if AuditAction.lost ∈ actions then
    (before.db.markPlacementLost t.fragmentId t.nodeId).2 else before.db

theorem fail_records : Records s (s.fail env t).1 t (s.failActions t) := by
  rcases marked : s.db.markPlacementLost t.fragmentId t.nodeId with ⟨e | row, db⟩
  all_goals
    simp only [fail, failPlacement, failActions, losable, bumpNodeAudit, applyReputationEvent,
      marked]
    constructor
    · rfl
    · rfl
    · simp [marked]

/-- The answer of `fail`: nil exactly if the placement was lost. -/
theorem fail_error : (s.fail env t).2 = none ↔ s.losable t = true := by
  simp only [fail, failPlacement, losable, bumpNodeAudit, applyReputationEvent]
  rcases s.db.markPlacementLost t.fragmentId t.nodeId with ⟨e | row, db⟩ <;> simp

/-- A second failure finds the placement lost. -/
theorem not_losable_of_lost (lost : s.losable t = true) :
    (s.fail env t).1.losable t = false := by
  have after := (s.fail_records env t).lost
  have marked : AuditAction.lost ∈ s.failActions t := by
    rw [failActions, if_pos lost]
    decide
  rw [if_pos marked] at after
  obtain ⟨e, twice⟩ := DB.markPlacementLost_twice s.db t.fragmentId t.nodeId
  rw [losable, after, twice]

theorem Records.refl : Records s s t [] := by
  constructor <;> simp

variable {s env t}

/-- Acts that leave no record. -/
theorem Records.silent {after : AuditDB} {actions : List AuditAction} (a : AuditAction)
    (noEvent : a.reputation? = none) (noCount : a.counter? = none) (kept : a ≠ .lost)
    (records : Records s after t actions) : Records s after t (a :: actions) := by
  constructor
  · rw [filterMap_cons_none noEvent]
    exact records.signals
  · rw [filterMap_cons_none noCount]
    exact records.audits
  · simp only [mem_cons, kept.symm, false_or]
    exact records.lost

/-- One stretch after the other; a lost placement is not lost again. -/
theorem Records.append {middle after : AuditDB} {first rest : List AuditAction}
    (one : Records s middle t first) (two : Records middle after t rest)
    (once : .lost ∈ first → .lost ∉ rest) : Records s after t (first ++ rest) := by
  constructor
  · rw [two.signals, one.signals, filterMap_append, map_append, append_assoc]
  · rw [two.audits, one.audits, filterMap_append, map_append, append_assoc]
  · rw [two.lost, one.lost]
    by_cases before : AuditAction.lost ∈ first
    · rw [if_neg (once before), if_pos before, if_pos (mem_append_left _ before)]
    · simp [before]

/-- A refill that loses the placement: the GET returned wrong bytes for a placement that was
pending or stored. -/
theorem lost_mem_refillActions :
    AuditAction.lost ∈ s.refillActions env t ↔
      (∃ body, env.getFragment = some body ∧ env.hash body ≠ t.sha256) ∧ s.losable t = true := by
  simp only [refillActions]
  cases env.getFragment with
  | none => simp
  | some body =>
    by_cases wrong : env.hash body ≠ t.sha256
    · simp [failActions, wrong]
    · simp [wrong]

theorem refill_of_wrong {body : Bytes} (got : env.getFragment = some body)
    (wrong : env.hash body ≠ t.sha256) : s.refill env t = s.fail env t := by
  simp only [refill, got, if_pos wrong]

/-- A challenge that is asked after the placement was lost does not lose it again. -/
theorem lost_not_mem_challengeActions (gone : s.losable t = false) :
    AuditAction.lost ∉ s.challengeActions env t := by
  simp only [challengeActions, failActions, gone]
  split
  · simp
  · split <;> simp

/-- Every challenge that is asked is followed by a reputation event. -/
theorem challengeActions_reputation {ch : Challenge}
    (left : s.takeNextUnspent t.fragmentId t.nodeId = some ch) :
    ∃ passed, (s.challengeActions env t).filterMap AuditAction.reputation? = [passed] := by
  simp only [challengeActions, left, failActions]
  by_cases wrong : env.doChallenge ch ≠ some ch.expected
  · rw [if_pos wrong]
    exact ⟨false, by cases s.losable t <;> rfl⟩
  · rw [if_neg wrong]
    exact ⟨true, rfl⟩

variable (s env t)

theorem challenge_records : Records s (s.challenge env t).1 t (s.challengeActions env t) := by
  simp only [challenge, challengeActions]
  split
  · exact .refl s t
  · rename_i ch _
    refine .silent _ rfl rfl (by simp) ?_
    by_cases wrong : env.doChallenge ch ≠ some ch.expected
    · rw [if_pos wrong, if_pos wrong]
      have failed := fail_records ((s.markChallengeSpent t.fragmentId t.nodeId ch.seq
        env.spentAt).touchLastAudit t.fragmentId t.nodeId env.touchedAt) env t
      exact ⟨failed.signals, failed.audits, failed.lost⟩
    · rw [if_neg wrong, if_neg wrong]
      exact ⟨rfl, rfl, rfl⟩

theorem refill_records : Records s (s.refill env t).1 t (s.refillActions env t) := by
  simp only [refill, refillActions]
  cases env.getFragment with
  | none => exact .silent _ rfl rfl (by decide) (.refl s t)
  | some body =>
    dsimp only
    by_cases wrong : env.hash body ≠ t.sha256
    · rw [if_pos wrong, if_pos wrong]
      exact .silent _ rfl rfl (by decide) (s.fail_records env t)
    · rw [if_neg wrong, if_neg wrong]
      refine .silent _ rfl rfl (by decide) ?_
      cases computeChallengeSet env.hash body t.fragmentId t.nodeId env.setSize env.maxRange
        env.draw <;> exact ⟨by simp [insertChallengeSet], by simp [insertChallengeSet], rfl⟩

/-- The actions of an audit are what its history records. -/
theorem audit_records : Records s (s.audit env t).1 t (s.auditActions env t) := by
  by_cases low : t.remaining < lowWater
  · rw [audit, auditActions, if_pos low, if_pos low]
    have first := s.refill_records env t
    rcases refilled : s.refill env t with ⟨s', _ | e⟩
    · rw [refilled] at first
      refine first.append (s'.challenge_records env t) fun lost => ?_
      obtain ⟨⟨body, got, wrong⟩, losable⟩ := lost_mem_refillActions.mp lost
      rw [refill_of_wrong got wrong] at refilled
      have gone := not_losable_of_lost s env t losable
      rw [refilled] at gone
      exact lost_not_mem_challengeActions gone
    · rw [refilled] at first
      simp only [append_nil]
      exact first
  · rw [audit, auditActions, if_neg low, if_neg low]
    exact s.challenge_records env t

/-! ### Counting verdicts -/

theorem failActions_oneOutcome : OneOutcome (s.failActions t) := by
  rw [failActions]
  cases s.losable t <;> exact ⟨by decide, by decide, by decide, by decide⟩

theorem challengeActions_oneOutcome : OneOutcome (s.challengeActions env t) := by
  rw [challengeActions]
  split
  · exact ⟨by decide, by decide, by decide, rfl⟩
  · refine .silent _ rfl rfl (by simp) ?_
    split
    · exact s.failActions_oneOutcome t
    · exact ⟨by decide, by decide, by decide, rfl⟩

theorem fail_takeNextUnspent : (s.fail env t).1.takeNextUnspent t.fragmentId t.nodeId =
      s.takeNextUnspent t.fragmentId t.nodeId := by
  rw [takeNextUnspent, takeNextUnspent, unspent, unspent, fail_challenges]

end AuditDB

/-- For every state, target, number of remaining challenges and answers of the node: the
history records the actions of the audit, and they reach one outcome exactly if a refill
that has lost the placement finds no challenge left of the old set. -/
theorem one_outcome_iff (s : AuditDB) (env : AuditEnv) (t : AuditTarget) :
    AuditDB.Records s (s.audit env t).1 t (s.auditActions env t) ∧
    (OneOutcome (s.auditActions env t) ↔
      (t.remaining < lowWater → ∀ body, env.getFragment = some body → env.hash body ≠ t.sha256 →
        s.losable t = true → s.takeNextUnspent t.fragmentId t.nodeId = none)) := by
  refine ⟨s.audit_records env t, ?_⟩
  by_cases low : t.remaining < lowWater
  · rw [AuditDB.auditActions, if_pos low]
    cases answer : env.getFragment with
    | none =>
      have stopped : s.refill env t = (s, some .get) := by
        simp only [AuditDB.refill, answer]
      simp only [AuditDB.refillActions, answer, stopped]
      exact iff_of_true ⟨by decide, by decide, by decide, rfl⟩ fun _ _ got => by cases got
    | some body =>
      by_cases wrong : env.hash body ≠ t.sha256
      · have refilled := @AuditDB.refill_of_wrong s env t body answer wrong
        have actions : s.refillActions env t = .get :: s.failActions t := by
          simp only [AuditDB.refillActions, answer, if_pos wrong]
        have ended : OneOutcome (.get :: s.failActions t) :=
          .silent _ rfl rfl (by decide) (s.failActions_oneOutcome t)
        rw [actions, refilled]
        rcases failed : s.fail env t with ⟨s', _ | e⟩
        · have losable : s.losable t = true := (s.fail_error env t).mp (by rw [failed])
          have same := s.fail_takeNextUnspent env t
          rw [failed] at same
          dsimp only at same ⊢
          cases left : s.takeNextUnspent t.fragmentId t.nodeId with
          | none =>
            have nothing : s'.challengeActions env t = [] := by
              rw [AuditDB.challengeActions, same, left]
            rw [nothing, append_nil]
            exact iff_of_true ended fun _ _ _ _ _ => rfl
          | some ch =>
            -- the second verdict of this audit
            refine iff_of_false (fun one => ?_) fun stops => ?_
            · obtain ⟨passed, second⟩ :=
                @AuditDB.challengeActions_reputation s' env t ch (same.trans left)
              have both := one.reputation
              rw [filterMap_append, second, AuditDB.failActions, losable,
                length_append, length_singleton] at both
              exact absurd both (by decide)
            · cases stops low body rfl wrong losable
        · have gone : ¬ s.losable t = true := by
            rw [← s.fail_error env t, failed]
            exact Option.some_ne_none e
          rw [append_nil]
          exact iff_of_true ended fun _ _ _ _ losable => absurd losable gone
      · have actions : s.refillActions env t = [.get] := by
          simp only [AuditDB.refillActions, answer, if_neg wrong]
        have refilled : (s.refill env t).2 = none := by
          simp only [AuditDB.refill, answer, if_neg wrong]
        rw [actions]
        rcases made : s.refill env t with ⟨s', _ | e⟩
        · refine iff_of_true
            (.silent _ rfl rfl (by decide) (s'.challengeActions_oneOutcome env t)) ?_
          intro _ other same
          cases same
          exact fun bad => absurd bad wrong
        · rw [made] at refilled
          cases refilled
  · rw [AuditDB.auditActions, if_neg low]
    exact iff_of_true (s.challengeActions_oneOutcome env t) fun isLow => absurd isLow low

namespace Sample

/-- A node that returns wrong bytes to the GET and the right answer to a challenge. -/
def halfHonest : AuditEnv :=
  { deadNode with getFragment := some [9], doChallenge := fun ch => some ch.expected }

def leftover : Challenge where
  fragmentId := (fragment 0).id
  nodeId := (node 0).id
  seq := 0
  offset := 0
  length := 1
  nonce := [1]
  expected := digest

end Sample

/-- With one challenge left the audit fails the node, loses the placement, and then asks the
challenge and records a pass. -/
theorem halfHonest_fails_and_passes :
    (auditDB 1).auditActions halfHonest
        ((auditDB 1).auditTarget audited) =
      [.get, .reputation false, .counter false, .lost, .challenge leftover,
        .reputation true, .counter true] ∧
    ((auditDB 1).audit halfHonest
        ((auditDB 1).auditTarget audited)).1.audits =
      [((node 0).id, false), ((node 0).id, true)] ∧
    ¬ OneOutcome ((auditDB 1).auditActions halfHonest
        ((auditDB 1).auditTarget audited)) := by
  refine ⟨by decide +kernel, by decide +kernel, fun one => ?_⟩
  exact absurd one.counter (by decide +kernel)

end StoragePlatform
