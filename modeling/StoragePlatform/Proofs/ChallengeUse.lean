/-
Module: StoragePlatform.Proofs.ChallengeUse
Purpose: When no challenge is sent to its node twice, over every interleaving of audits
  and revalidations.
Trusted boundary: none
Main exports: SentOnce, NewTuples, Orderly, challenges_single_use
-/
import StoragePlatform.Healthmon.ChallengeCalls
import StoragePlatform.Proofs.Audit

namespace StoragePlatform

open Lib List Sample

variable {rows : List ChallengeRow} {row : ChallengeRow} {set : List Challenge} {ch : Challenge}
variable {store : AuditDB}

/-- The challenge between the read and the update that spends it. -/
def ChallengeCall.inFlight : ChallengeCall → Option Challenge
  | .taken ch => some ch
  | .sent ch => some ch
  | _ => none

/-- The placement a call is about to take a challenge of. -/
def ChallengeCall.takes : ChallengeCall → Option (Uuid × Uuid)
  | .asking t => some (t.fragmentId, t.nodeId)
  | .revalidating fragmentId nodeId _ _ => some (fragmentId, nodeId)
  | _ => none

def Challenge.placement (c : Challenge) : Uuid × Uuid := (c.fragmentId, c.nodeId)

namespace ChallengeSystem

/-- The set an event inserts. -/
def drawn (s : ChallengeSystem) : ChallengeEvent → List Challenge
  | .move i (.refill env) =>
    match s.calls[i]? with
    | some (.auditing t) =>
      if t.remaining < lowWater then
        env.drawn t.fragmentId t.nodeId t.sha256 env.setSize env.maxRange
      else []
    | _ => []
  | .move i (.insert env true) =>
    match s.calls[i]? with
    | some (.fetching fragmentId nodeId sha256) => env.drawn fragmentId nodeId sha256 8 4096
    | _ => []
  | _ => []

/-- The tuples stored, sent, or held by a call. -/
def known (s : ChallengeSystem) : List (Uuid × Uuid × Bytes × Int × Int) :=
  s.store.challenges.map (fun row => row.challenge.tuple) ++ s.sent.map Challenge.tuple ++
    s.calls.filterMap fun call => call.inFlight.map Challenge.tuple

end ChallengeSystem

/-- No tuple was sent in two requests. -/
def SentOnce (s : ChallengeSystem) : Prop := (s.sent.map Challenge.tuple).Nodup

/-- The random draws of a refill repeat no tuple. -/
def NewTuples (s : ChallengeSystem) (e : ChallengeEvent) : Prop :=
  ((s.drawn e).map Challenge.tuple).Nodup ∧ ∀ c ∈ s.drawn e, c.tuple ∉ s.known

/-- A challenge is taken only while no call holds another of the same placement, and a call
that has sent one goes on to mark it, with success. -/
def Orderly (s : ChallengeSystem) : ChallengeEvent → Bool
  | .move i .take =>
    (s.calls[i]?.bind ChallengeCall.takes).all fun placement =>
      s.calls.all fun call => call.inFlight.all fun ch => ch.placement ≠ placement
  | .move i .spendFails | .move i .stop =>
    match s.calls[i]? with
    | some (.sent _) => false
    | _ => true
  | _ => true

/-! ### Challenge rows -/

namespace AuditDB

theorem of_mem_upsertChallenge {c : Challenge} (member : row ∈ upsertChallenge rows c) :
    row ∈ rows ∨ row = ⟨c, none⟩ := by
  rw [upsertChallenge] at member
  split at member
  · rcases mem_updateWhere.mp member with ⟨_, _, _, same⟩ | ⟨old, _⟩
    · exact .inr same.symm
    · exact .inl old
  · simpa using member

theorem of_mem_foldl_upsertChallenge (member : row ∈ set.foldl upsertChallenge rows) :
    row ∈ rows ∨ row.challenge ∈ set := by
  induction set generalizing rows with
  | nil => exact .inl member
  | cons c set ih =>
    rcases ih member with old | new
    · rcases of_mem_upsertChallenge old with older | same
      · exact .inl older
      · exact .inr (by simp [same])
    · exact .inr (mem_cons_of_mem c new)

/-- A row after `InsertChallengeSet` was there before or is of the set. -/
theorem of_mem_insertChallengeSet {s : AuditDB}
    (member : row ∈ (s.insertChallengeSet set).challenges) :
    row ∈ s.challenges ∨ row.challenge ∈ set := by
  rw [insertChallengeSet.eq_def] at member
  split at member
  · exact .inl member
  · rcases of_mem_foldl_upsertChallenge member with kept | new
    · exact .inl (mem_filter.mp kept).1
    · exact .inr new

theorem of_takeNextUnspent {s : AuditDB} {f n : Uuid} (next : s.takeNextUnspent f n = some ch) :
    ⟨ch, none⟩ ∈ s.challenges ∧ ch.placement = (f, n) := by
  obtain ⟨⟨_, spentAt⟩, first, rfl⟩ := Option.map_eq_some_iff.mp next
  obtain ⟨stored, found⟩ := mem_filter.mp (mem_orderBy.mp (mem_of_head? first))
  simp only [decide_eq_true_eq] at found
  obtain ⟨rfl, rfl, rfl⟩ := found
  exact ⟨stored, rfl⟩

/-- A row after `MarkChallengeSpent` was there before, and is not the one marked if it is
unspent. -/
theorem of_mem_markChallengeSpent {s : AuditDB} {now : Instant}
    (member : row ∈ (s.markChallengeSpent ch.fragmentId ch.nodeId ch.seq now).challenges) :
    (∃ old ∈ s.challenges, old.challenge = row.challenge) ∧
      (row.spentAt = none → row ∈ s.challenges ∧ row.challenge ≠ ch) := by
  rcases mem_updateWhere.mp member with ⟨old, stored, _, rfl⟩ | ⟨stored, other⟩
  · exact ⟨⟨old, stored, rfl⟩, nofun⟩
  · refine ⟨⟨row, stored, rfl⟩, fun unspent => ⟨stored, ?_⟩⟩
    rintro rfl
    simp [unspent] at other

theorem refill_challenges (s : AuditDB) (env : AuditEnv) (t : AuditTarget) :
    (s.refill env t).1.challenges = (s.insertChallengeSet
      (env.drawn t.fragmentId t.nodeId t.sha256 env.setSize env.maxRange)).challenges := by
  rw [refill, AuditEnv.drawn]
  cases env.getFragment with
  | none => rfl
  | some body =>
    dsimp only
    by_cases wrong : env.hash body ≠ t.sha256
    · rw [if_pos wrong, if_pos wrong]
      exact s.fail_challenges env t
    · rw [if_neg wrong, if_neg wrong]

end AuditDB

/-! ### What a call holds -/

/-- A tuple that was sent and is not marked is held by the call that sent it; one that was
taken was not sent before; and no two calls hold challenges of one placement. -/
structure ChallengeInv (s : ChallengeSystem) : Prop where
  once : SentOnce s
  oneRow : ∀ row ∈ s.store.challenges, ∀ other ∈ s.store.challenges,
    row.challenge.tuple = other.challenge.tuple → row.challenge = other.challenge
  unspent : ∀ row ∈ s.store.challenges, row.spentAt = none →
    row.challenge.tuple ∈ s.sent.map Challenge.tuple → .sent row.challenge ∈ s.calls
  unsent : ∀ ch, .taken ch ∈ s.calls → ch.tuple ∉ s.sent.map Challenge.tuple
  source : ∀ ch, .taken ch ∈ s.calls → ∀ row ∈ s.store.challenges,
    row.challenge.tuple = ch.tuple → row.challenge = ch
  apart : ∀ {i j : Nat} {a b : ChallengeCall} {x y : Challenge}, s.calls[i]? = some a →
    s.calls[j]? = some b → a.inFlight = some x → b.inFlight = some y →
    x.placement = y.placement → i = j

namespace ChallengeInv

variable {s t : ChallengeSystem} {i : Nat} {call call' : ChallengeCall}

theorem mem_known_of_row (stored : row ∈ s.store.challenges) : row.challenge.tuple ∈ s.known := by
  refine mem_append_left _ (mem_append_left _ ?_)
  exact mem_map_of_mem stored

theorem mem_known_of_sent {tuple : Uuid × Uuid × Bytes × Int × Int}
    (sent : tuple ∈ s.sent.map Challenge.tuple) : tuple ∈ s.known :=
  mem_append_left _ (mem_append_right _ sent)

theorem mem_known_of_taken (held : .taken ch ∈ s.calls) : ch.tuple ∈ s.known := by
  refine mem_append_right _ (mem_filterMap.mpr ⟨_, held, ?_⟩)
  rfl

/-- A call that takes or sends nothing.  A row it leaves was there before, with the same
mark if it has none now, or is of a set of new tuples. -/
theorem settle (inv : ChallengeInv s) (set : List Challenge)
    (distinct : (set.map Challenge.tuple).Nodup) (new : ∀ c ∈ set, c.tuple ∉ s.known)
    (sent : t.sent = s.sent)
    (held : ∀ (j : Nat) a, t.calls[j]? = some a → a.inFlight ≠ none → s.calls[j]? = some a)
    (rows : ∀ row ∈ t.store.challenges,
      (∃ old ∈ s.store.challenges, old.challenge = row.challenge) ∧
          (row.spentAt = none → row ∈ s.store.challenges) ∨ row.challenge ∈ set)
    (marked : ∀ row ∈ t.store.challenges, row.spentAt = none → .sent row.challenge ∈ s.calls →
      .sent row.challenge ∈ t.calls) : ChallengeInv t := by
  have heldBefore : ∀ a ∈ t.calls, a.inFlight ≠ none → a ∈ s.calls := by
    intro a member flying
    obtain ⟨j, here⟩ := mem_iff_getElem?.mp member
    exact mem_of_getElem? (held j a here flying)
  have fresh : ∀ c ∈ set, ∀ row ∈ s.store.challenges, c.tuple ≠ row.challenge.tuple := by
    intro c member row stored same
    exact new c member (same ▸ mem_known_of_row stored)
  constructor
  case once =>
    rw [SentOnce, sent]
    exact inv.once
  case oneRow =>
    intro row stored other stored' same
    rcases rows row stored with ⟨⟨old, before, same₁⟩, _⟩ | drawn
    · rcases rows other stored' with ⟨⟨old', before', same₂⟩, _⟩ | drawn'
      · rw [← same₁, ← same₂] at same ⊢
        exact inv.oneRow old before old' before' same
      · exact absurd (same.symm.trans (same₁ ▸ rfl)) (fresh _ drawn' old before)
    · rcases rows other stored' with ⟨⟨old', before', same₂⟩, _⟩ | drawn'
      · exact absurd (same.trans (same₂ ▸ rfl)) (fresh _ drawn old' before')
      · exact inj_on_of_nodup_map distinct drawn drawn' same
  case unspent =>
    intro row stored open_ wasSent
    rw [sent] at wasSent
    rcases rows row stored with ⟨_, before⟩ | drawn
    · exact marked row stored open_ (inv.unspent row (before open_) open_ wasSent)
    · exact absurd (mem_known_of_sent wasSent) (new _ drawn)
  case unsent =>
    intro c holds
    rw [sent]
    exact inv.unsent c (heldBefore _ holds nofun)
  case source =>
    intro c holds row stored same
    have before := heldBefore _ holds nofun
    rcases rows row stored with ⟨⟨old, was, same'⟩, _⟩ | drawn
    · rw [← same'] at same ⊢
      exact inv.source c before old was same
    · exact absurd (same ▸ mem_known_of_taken before) (new _ drawn)
  case apart =>
    intro j k a b x y here there flying flying' same
    exact inv.apart (held j a here (by simp [flying])) (held k b there (by simp [flying']))
      flying flying' same

/-- The calls after one of them has come to hold nothing. -/
theorem held_of_set (idle : call'.inFlight = none) (j : Nat) (a : ChallengeCall)
    (here : (s.calls.set i call')[j]? = some a) (flying : a.inFlight ≠ none) :
    s.calls[j]? = some a := by
  rcases getElem?_set_inv here with ⟨-, rfl⟩ | ⟨-, here⟩
  · exact absurd idle flying
  · exact here

/-- A call that comes to hold nothing and inserts nothing, and had nothing sent. -/
theorem leave (inv : ChallengeInv s) (here : s.calls[i]? = some call) (unsent : ∀ c, call ≠ .sent c)
    (idle : call'.inFlight = none) (rows : store.challenges = s.store.challenges) :
    ChallengeInv { store := store, calls := s.calls.set i call', sent := s.sent ++ [] } := by
  refine inv.settle [] nodup_nil nofun (append_nil _)
    (held_of_set idle) (fun row stored => .inl ?_) fun row _ _ member =>
      mem_set_of_ne here member (Ne.symm (unsent _))
  rw [rows] at stored
  exact ⟨⟨row, stored, rfl⟩, fun _ => stored⟩

/-- A call that inserts a set of new tuples. -/
theorem insert (inv : ChallengeInv s) (here : s.calls[i]? = some call)
    (unsent : ∀ c, call ≠ .sent c) (idle : call'.inFlight = none)
    (distinct : (set.map Challenge.tuple).Nodup) (new : ∀ c ∈ set, c.tuple ∉ s.known)
    (rows : store.challenges = (s.store.insertChallengeSet set).challenges) :
    ChallengeInv { store := store, calls := s.calls.set i call', sent := s.sent ++ [] } := by
  refine inv.settle set distinct new (append_nil _) (held_of_set idle)
    (fun row stored => ?_) fun row _ _ member =>
      mem_set_of_ne here member (Ne.symm (unsent _))
  rw [rows] at stored
  rcases AuditDB.of_mem_insertChallengeSet stored with old | drawn
  · exact .inl ⟨⟨row, old, rfl⟩, fun _ => old⟩
  · exact .inr drawn

/-- The update that spends what the call has sent. -/
theorem spend (inv : ChallengeInv s) (here : s.calls[i]? = some (.sent ch)) (now : Instant) :
    ChallengeInv
      { store := s.store.markChallengeSpent ch.fragmentId ch.nodeId ch.seq now
        calls := s.calls.set i .done
        sent := s.sent ++ [] } := by
  refine inv.settle [] nodup_nil nofun (append_nil _) (held_of_set rfl)
    (fun row stored => .inl ?_) fun row stored open_ member => mem_set_of_ne here member ?_
  · obtain ⟨before, unmarked⟩ := AuditDB.of_mem_markChallengeSpent stored
    exact ⟨before, fun open_ => (unmarked open_).1⟩
  · obtain ⟨_, other⟩ := (AuditDB.of_mem_markChallengeSpent stored).2 open_
    simpa using other

/-- The read of a challenge while no call holds another of the placement. -/
theorem take (inv : ChallengeInv s) (here : s.calls[i]? = some call) (idle : call.inFlight = none)
    {f n : Uuid} (next : s.store.takeNextUnspent f n = some ch)
    (alone : ∀ other ∈ s.calls, ∀ x, other.inFlight = some x → x.placement ≠ (f, n)) :
    ChallengeInv
      { store := s.store, calls := s.calls.set i (.taken ch), sent := s.sent ++ [] } := by
  obtain ⟨stored, placed⟩ := AuditDB.of_takeNextUnspent next
  have unsent : ch.tuple ∉ s.sent.map Challenge.tuple := by
    intro wasSent
    have holder := inv.unspent _ stored rfl wasSent
    exact alone _ holder ch rfl placed
  rw [append_nil]
  constructor
  case once => exact inv.once
  case oneRow => exact inv.oneRow
  case unspent =>
    intro row stored' open_ wasSent
    refine mem_set_of_ne here (inv.unspent row stored' open_ wasSent) ?_
    rintro rfl
    cases idle
  case unsent =>
    intro c holds
    rcases mem_or_eq_of_mem_set holds with old | new
    · exact inv.unsent c old
    · cases new
      exact unsent
  case source =>
    intro c holds row stored' same
    rcases mem_or_eq_of_mem_set holds with old | new
    · exact inv.source c old row stored' same
    · cases new
      exact inv.oneRow row stored' _ stored same
  case apart =>
    -- the call that has just taken one is alone on its placement
    have lone : ∀ {j : Nat} {b : ChallengeCall} {y : Challenge},
        (s.calls.set i (.taken ch))[j]? = some b → b.inFlight = some y →
          y.placement = ch.placement → j = i := by
      intro j b y there flying same
      rcases getElem?_set_inv there with ⟨here, -⟩ | ⟨-, there⟩
      · exact here.symm
      · cases alone b (mem_of_getElem? there) y flying (same.trans placed)
    have taken : ∀ {j : Nat} {a : ChallengeCall} {x : Challenge},
        (s.calls.set i (.taken ch))[j]? = some a → a.inFlight = some x → j = i → x = ch := by
      rintro j a x there flying rfl
      rcases getElem?_set_inv there with ⟨-, rfl⟩ | ⟨apart, -⟩
      · exact (Option.some.inj flying).symm
      · exact absurd rfl apart
    intro j k a b x y there there' flying flying' same
    by_cases first : j = i
    · cases taken there flying first
      exact first.trans (lone there' flying' same.symm).symm
    by_cases second : k = i
    · cases taken there' flying' second
      exact (lone there flying same).trans second.symm
    · rw [getElem?_set_ne (Ne.symm first)] at there
      rw [getElem?_set_ne (Ne.symm second)] at there'
      exact inv.apart there there' flying flying' same

/-- The request. -/
theorem send (inv : ChallengeInv s) (here : s.calls[i]? = some (.taken ch)) :
    ChallengeInv
      { store := s.store, calls := s.calls.set i (.sent ch), sent := s.sent ++ [ch] } := by
  have holds := mem_of_getElem? here
  have long : i < s.calls.length := (List.getElem?_eq_some_iff.mp here).1
  have sends : .sent ch ∈ s.calls.set i (.sent ch) := mem_set long _
  constructor
  case once =>
    rw [SentOnce, map_append, map_singleton, nodup_append]
    refine ⟨inv.once, nodup_singleton _, fun old sent new same => ?_⟩
    rw [mem_singleton.mp same]
    rintro rfl
    exact inv.unsent ch holds sent
  case oneRow => exact inv.oneRow
  case unspent =>
    intro row stored open_ wasSent
    rw [map_append, mem_append] at wasSent
    rcases wasSent with before | now
    · exact mem_set_of_ne here (inv.unspent row stored open_ before) nofun
    · rw [inv.source ch holds row stored (mem_singleton.mp now)]
      exact sends
  case unsent =>
    intro c held
    obtain ⟨j, there⟩ := mem_iff_getElem?.mp held
    obtain ⟨-, new⟩ | ⟨apart, there⟩ := getElem?_set_inv there
    · cases new
    rw [map_append, mem_append, not_or]
    refine ⟨inv.unsent c (mem_of_getElem? there), fun same => apart ?_⟩
    have tuples : c.tuple = ch.tuple := mem_singleton.mp same
    simp only [Challenge.tuple, Prod.mk.injEq] at tuples
    refine inv.apart here there rfl rfl ?_
    simp [Challenge.placement, tuples]
  case source =>
    intro c held row stored same
    rcases mem_or_eq_of_mem_set held with old | new
    · exact inv.source c old row stored same
    · cases new
  case apart =>
    -- the call holds what it held
    have held : ∀ {j : Nat} {a : ChallengeCall} {x : Challenge},
        (s.calls.set i (.sent ch))[j]? = some a → a.inFlight = some x →
          ∃ before, s.calls[j]? = some before ∧ before.inFlight = some x := by
      intro j a x there flying
      rcases getElem?_set_inv there with ⟨rfl, rfl⟩ | ⟨-, there⟩
      · exact ⟨_, here, flying⟩
      · exact ⟨a, there, flying⟩
    intro j k a b x y there there' flying flying' same
    obtain ⟨a', before, flies⟩ := held there flying
    obtain ⟨b', before', flies'⟩ := held there' flying'
    exact inv.apart before before' flies flies' same

/-- A new call. -/
theorem arrive (inv : ChallengeInv s) (idle : call.inFlight = none) :
    ChallengeInv { s with calls := s.calls ++ [call] } := by
  refine inv.settle [] nodup_nil nofun rfl (fun j a there flying => ?_)
    (fun row stored => .inl ⟨⟨row, stored, rfl⟩, fun _ => stored⟩)
    fun row _ _ member => mem_append_left _ member
  rcases getElem?_append_inv there with there | ⟨-, rfl⟩
  · exact there
  · exact absurd idle flying

end ChallengeInv

theorem Orderly.alone {s : ChallengeSystem} {i : Nat} {call : ChallengeCall}
    {placement : Uuid × Uuid} (orderly : Orderly s (.move i .take) = true)
    (here : s.calls[i]? = some call) (takes : call.takes = some placement) :
    ∀ other ∈ s.calls, ∀ x, other.inFlight = some x → x.placement ≠ placement := by
  intro other member x flying
  simp only [Orderly, here, Option.bind_some, takes, Option.all_some, all_eq_true] at orderly
  have apart := orderly other member
  rw [flying, Option.all_some, decide_eq_true_eq] at apart
  exact apart

/-- Every orderly step with new draws keeps the invariant. -/
theorem ChallengeSystem.step_inv {s t : ChallengeSystem} {e : ChallengeEvent}
    (inv : ChallengeInv s) (moved : s.step e = some t) (new : NewTuples s e)
    (orderly : Orderly s e = true) : ChallengeInv t := by
  cases e with
  | audit | revalidate =>
    cases moved
    exact inv.arrive rfl
  | move i m =>
    simp only [ChallengeSystem.step] at moved
    split at moved
    · cases moved
    rename_i call here
    split at moved <;> cases moved
    rename_i out advanced
    unfold AuditDB.advanceChallenge at advanced
    split at advanced
    · cases advanced
    · rename_i target env
      split at advanced
      · rename_i low
        obtain ⟨distinct, fresh⟩ := new
        simp only [ChallengeSystem.drawn, here, if_pos low] at distinct fresh
        have rows := s.store.refill_challenges env target
        split at advanced <;> cases advanced
        all_goals
          rename_i refilled
          rw [refilled] at rows
          exact inv.insert here nofun rfl distinct fresh rows
      · cases advanced
        exact inv.leave here nofun rfl rfl
    · rename_i target
      split at advanced <;> cases advanced
      · exact inv.leave here nofun rfl rfl
      · rename_i next
        exact inv.take here rfl next (Orderly.alone orderly here rfl)
    · split at advanced <;> cases advanced
      · rename_i next
        exact inv.take here rfl next (Orderly.alone orderly here rfl)
      · exact inv.leave here nofun rfl rfl
    · cases advanced
      exact inv.leave here nofun rfl rfl
    · cases advanced
      exact inv.send here
    · rename_i now
      cases advanced
      exact inv.spend here now
    · simp only [Orderly, here] at orderly
      cases orderly
    · rename_i env ok
      split at advanced
      · rename_i isOk
        cases isOk
        cases advanced
        obtain ⟨distinct, fresh⟩ := new
        simp only [ChallengeSystem.drawn, here] at distinct fresh
        exact inv.insert here nofun rfl distinct fresh rfl
      · cases advanced
        exact inv.leave here nofun rfl rfl
    · -- a call that stops after its request is not orderly
      cases advanced
      refine inv.leave here (fun c isSent => ?_) rfl rfl
      cases isSent
      simp only [Orderly, here] at orderly
      cases orderly
    · cases advanced

/-- For every challenge table without repeated tuples and every interleaving of audits and
revalidations: if refills draw new tuples, challenges are taken while none of the placement
is held, and every challenge sent is marked, then no tuple is ever sent twice. -/
theorem challenges_single_use (start : AuditDB)
    (distinct : (start.challenges.map fun row => row.challenge.tuple).Nodup)
    (events : List ChallengeEvent)
    (new : EveryStep ChallengeSystem.step (fun s e _ => NewTuples s e) (.init start) events)
    (orderly : EveryStep ChallengeSystem.step (fun s e _ => Orderly s e = true) (.init start)
      events) :
    EveryState ChallengeSystem.step SentOnce (.init start) events := by
  have begun : ChallengeInv (.init start) := by
    constructor
    case once => exact nodup_nil
    case oneRow =>
      intro row stored other stored' same
      rw [inj_on_of_nodup_map distinct stored stored' same]
    case unspent =>
      intro row _ _ sent
      cases sent
    all_goals nofun
  have carried : EveryState ChallengeSystem.step ChallengeInv (.init start) events :=
    EveryState.of_step
      (fun s e t inv moved given => ChallengeSystem.step_inv inv moved given.1 given.2) begun
      (new.and orderly)
  exact carried.mono fun s inv => inv.once

namespace Sample

/-- The challenges of the audited placement, with a nonce each. -/
def asked (i : Nat) : Challenge where
  fragmentId := (fragment 0).id
  nodeId := (node 0).id
  seq := i
  offset := 0
  length := 1
  nonce := [i.toUInt8]
  expected := digest

/-- Two unspent challenges. -/
def askable : AuditDB := { auditDB 0 with challenges := [⟨asked 0, none⟩, ⟨asked 1, none⟩] }

/-- An audit and a revalidation one after the other. -/
def askedInTurn : List ChallengeEvent :=
  [.audit (askable.auditTarget audited), .move 0 (.refill deadNode), .move 0 .take, .move 0 .send,
    .move 0 (.spend 1), .revalidate (fragment 0).id (node 0).id true digest, .move 1 .take,
    .move 1 .send, .move 1 (.spend 2)]

/-- Two audits of the placement, of which the second reads before the first has marked. -/
def sideBySide : List ChallengeEvent :=
  [.audit (askable.auditTarget audited), .audit (askable.auditTarget audited),
    .move 0 (.refill deadNode), .move 1 (.refill deadNode), .move 0 .take, .move 0 .send,
    .move 1 .take, .move 1 .send]

/-- The update of the audit fails and the worker asks the same again. -/
def notMarked : List ChallengeEvent :=
  [.audit (askable.auditTarget audited), .move 0 (.refill deadNode), .move 0 .take, .move 0 .send,
    .move 0 .spendFails, .revalidate (fragment 0).id (node 0).id true digest, .move 1 .take,
    .move 1 .send]

end Sample

instance (s : ChallengeSystem) (e : ChallengeEvent) : Decidable (NewTuples s e) :=
  inferInstanceAs (Decidable (_ ∧ _))

/-- The two calls one after the other ask different tuples. -/
theorem inTurn_asks_once :
    EveryState ChallengeSystem.step SentOnce (.init askable) askedInTurn ∧
    (exec ChallengeSystem.step (.init askable) askedInTurn).map ChallengeSystem.sent =
      some [asked 0, asked 1] :=
  ⟨challenges_single_use askable (by decide +kernel) askedInTurn (by decide +kernel)
    (by decide +kernel), by decide +kernel⟩

/-- Two audits send one tuple twice, and so do an audit whose update fails and the next
revalidation. -/
theorem challenge_sent_twice :
    (exec ChallengeSystem.step (.init askable) sideBySide).map
      ChallengeSystem.sent = some [asked 0, asked 0] ∧
    (exec ChallengeSystem.step (.init askable) notMarked).map
      ChallengeSystem.sent = some [asked 0, asked 0] ∧
    ¬ EveryState ChallengeSystem.step SentOnce (.init askable) sideBySide := by
  have twice : (exec ChallengeSystem.step (.init askable) sideBySide).map
      ChallengeSystem.sent = some [asked 0, asked 0] := by decide +kernel
  refine ⟨twice, by decide +kernel, fun always => ?_⟩
  obtain ⟨last, run, sent⟩ := Option.map_eq_some_iff.mp twice
  have once := always.last run
  rw [SentOnce, sent] at once
  exact absurd once (by decide +kernel)

end StoragePlatform
