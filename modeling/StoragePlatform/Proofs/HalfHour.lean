/-
Module: StoragePlatform.Proofs.HalfHour
Purpose: When an Accruer leaves no hour half accrued behind its watermark, over every run
  with errors and crashes.
Trusted boundary: none
Main exports: NoHalfHour, OneAtATime, StartsWhole, no_half_accrued_hour
-/
import StoragePlatform.Proofs.Accrual

namespace StoragePlatform

open Lib List Sample

variable {rates : Rates} {target window : Time} {locked : Uuid → Bool} {now : WindowState}
variable {m : AccrualMove} {i : Nat} {call : AccrualCall}

/-!
With a watermark `CatchUp` goes on with the hour after it, so an hour that failed is the
next one to be tried.  Without one it starts at the last complete hour of the clock, and an
hour that failed before is behind it once the clock has moved on.
-/

/-- The hours of the accrual transactions in the ledger. -/
def LedgerSystem.postedHours (s : LedgerSystem) : List Time :=
  s.ledger.txns.filterMap LedgerTxn.windowStart

/-- An hour with a transaction that the watermark has reached was accrued to its end. -/
def NoHalfHour (s : LedgerSystem) : Prop :=
  ∀ h ∈ s.postedHours, 3600 ∣ h → ∀ w, s.watermark = some w → h ≤ w → h ∈ s.completed

def AccrualCall.isDone : AccrualCall → Bool
  | .done => true
  | _ => false

/-- One Accruer: a `CatchUp` starts after the one before has returned or crashed. -/
def OneAtATime (s : LedgerSystem) : AccrualEvent → Bool
  | .catchUp _ _ => s.calls.all AccrualCall.isDone
  | _ => true

/-- A `CatchUp` that finds no watermark leaves no hour behind that was begun and not
accrued to its end. -/
def StartsWhole (s : LedgerSystem) : AccrualEvent → Bool
  | .move i .readWatermark =>
    match s.calls[i]?, s.watermark with
    | some (.started _ target), none =>
      s.postedHours.all fun h => target ≤ h ∨ h ∈ s.completed
    | _, _ => true
  | _ => true

/-! ### The window of an open transaction -/

/-- The header a call has inserted carries the window of its `AccrueWindow`. -/
def AccrualCall.Tagged : AccrualCall → Prop
  | .accruing _ _ window _ now => ∀ txn ∈ now.open?, txn.1.windowStart = some window
  | _ => True

section Window

variable {uuids : UuidPackage} {s t : LedgerSystem}

theorem WindowState.advance_tagged {ledger : LedgerDB} {out : WindowOutcome}
    (tagged : ∀ txn ∈ now.open?, txn.1.windowStart = some window)
    (moved : now.advance uuids rates window ledger locked m = some out) :
    ∀ txn ∈ out.now.bind WindowState.open?, txn.1.windowStart = some window := by
  have closed : ∀ txn ∈ (none : Option OpenTxn), txn.1.windowStart = some window :=
    fun txn isOpen => absurd isOpen (Option.not_mem_none txn)
  unfold WindowState.advance at moved
  repeat' first | split at moved | dsimp only at moved
  all_goals cases moved
  any_goals exact closed
  · rename_i stage _ _
    cases stage <;> exact closed
  · intro txn isOpen
    cases isOpen
    rfl
  · intro txn isOpen
    cases isOpen
    simp only [WindowState.open?, Option.mem_def, Option.some.injEq, forall_eq'] at tagged
    exact tagged

/-- Every step keeps the tags. -/
theorem ledgerStep_tagged {e : AccrualEvent} (tagged : ∀ call ∈ s.calls, call.Tagged)
    (moved : s.step uuids e = some t) : ∀ call ∈ t.calls, call.Tagged := by
  cases e with
  | catchUp rates now =>
    cases moved
    intro call member
    rcases mem_append_row.mp member with old | rfl
    · exact tagged call old
    · trivial
  | move i m =>
    obtain ⟨call, here, advanced⟩ := Option.bind_eq_some_iff.mp moved
    have tag := tagged call (mem_of_getElem? here)
    unfold LedgerSystem.advance at advanced
    repeat' first | split at advanced | dsimp only at advanced
    all_goals cases advanced
    all_goals refine forall_mem_set tagged ?_
    any_goals trivial
    · exact nofun
    · exact WindowState.advance_tagged tag ‹_›
    · exact nofun

/-- The hours a step adds are those of the transaction the call had open. -/
theorem TxnEffect.postedHours {hashed : List Text} {before after : Option OpenTxn}
    (effect : TxnEffect uuids s.ledger locked hashed before after t.ledger) :
    ∀ h ∈ t.postedHours, h ∈ s.postedHours ∨ ∃ txn ∈ before, txn.1.windowStart = some h := by
  intro h posted
  obtain ⟨txn, member, atHour⟩ := mem_filterMap.mp posted
  have rows : txn ∈ s.ledger.txns ∨ ∃ rows, (txn, rows) ∈ before := by
    generalize t.ledger = ledger' at effect member
    cases effect with
    | quiet txns _ => exact .inl (txns ▸ member)
    | opened | kept => exact .inl member
    | @committed header rows =>
      rcases mem_append_row.mp member with old | rfl
      · exact .inl old
      · exact .inr ⟨rows, rfl⟩
  rcases rows with old | ⟨rows, isOpen⟩
  · exact .inl (mem_filterMap.mpr ⟨txn, old, atHour⟩)
  · exact .inr ⟨(txn, rows), isOpen, atHour⟩

end Window

/-! ### The invariant -/

/-- The hour a call works on is the next one: the one after the watermark or, without a
watermark, one before which nothing is half accrued. -/
def NextHour (s : LedgerSystem) (window : Time) : Prop :=
  3600 ∣ window ∧
    match s.watermark with
    | some w => window = truncHour w + 3600
    | none => ∀ h ∈ s.postedHours, h < window → h ∈ s.completed

def AccrualCall.Next (s : LedgerSystem) : AccrualCall → Prop
  | .started _ target => 3600 ∣ target
  | .accruing _ _ window _ _ => NextHour s window
  | .storing _ _ window _ => NextHour s window ∧ window ∈ s.completed
  | .done => True

structure HalfInv (s : LedgerSystem) : Prop where
  whole : NoHalfHour s
  tagged : ∀ call ∈ s.calls, call.Tagged
  next : ∀ call ∈ s.calls, call.Next s
  single : ∃ i, ∀ (j : Nat) (call : AccrualCall), s.calls[j]? = some call →
    call.isDone = false → j = i

section Invariant

variable {uuids : UuidPackage} {s t : LedgerSystem} {e : AccrualEvent}

theorem lt_nextHour_truncHour (w : Int) : w < truncHour w + 3600 := by
  change w < w / 3600 * 3600 + 3600
  omega

theorem truncHour_le (w : Int) : truncHour w ≤ w := by
  change w / 3600 * 3600 ≤ w
  omega

/-- The next hour is not behind the watermark. -/
theorem NextHour.watermark_lt {w : Time} (next : NextHour s window) (stored : s.watermark = some w)
    : w < window := by
  have after := next.2
  rw [stored] at after
  rw [after]
  exact lt_nextHour_truncHour w

/-- Once the next hour is accrued, nothing up to it is half accrued. -/
theorem NextHour.whole {h : Time} (next : NextHour s window) (whole : NoHalfHour s)
    (done : window ∈ s.completed) (posted : h ∈ s.postedHours) (hour : 3600 ∣ h)
    (reached : h ≤ window) : h ∈ s.completed := by
  obtain ⟨aligned, after⟩ := next
  rcases lt_or_eq_of_le reached with before | rfl
  · cases stored : s.watermark with
    | none =>
      rw [stored] at after
      exact after h posted before
    | some w =>
      rw [stored] at after
      have low : h ≤ truncHour w :=
        le_of_lt_nextHour hour (truncHour_dvd w) (after ▸ before)
      exact whole h posted hour w stored (low.trans (truncHour_le w))
  · exact done

/-- A call that begins starts at the next hour. -/
theorem NextHour.begin_ (rates : Rates) (here : s.calls[i]? = some (.started rates target))
    (aligned : 3600 ∣ target) (reads : m = .readWatermark)
    (fresh : StartsWhole s (.move i m) = true) : NextHour s (catchUpStart target s.watermark) := by
  subst reads
  cases stored : s.watermark with
  | some w => exact ⟨Int.dvd_add (truncHour_dvd w) (Int.dvd_refl 3600), by rw [stored]; rfl⟩
  | none =>
    refine ⟨aligned, ?_⟩
    simp only [StartsWhole, here, stored, all_eq_true, decide_eq_true_eq] at fresh
    rw [stored]
    intro h posted before
    exact (fresh h posted).resolve_left (not_le.mpr before)

/-- Only reading the watermark begins the loop. -/
theorem began_reads {rates' : Rates} {target' : Time} {n : Nat}
    (here : s.calls[i]? = some (.started rates target))
    (after : t.calls[i]? = some (.accruing rates' target' window n now))
    (moved : s.step uuids (.move i m) = some t) : m = .readWatermark := by
  simp only [LedgerSystem.step, here, Option.bind_some] at moved
  cases m with
  | readWatermark => rfl
  | fail =>
    cases moved
    simp [getElem?_set_here here] at after
  | _ => cases moved

theorem notDone_of_step (here : s.calls[i]? = some call) (moved : s.step uuids (.move i m) = some t)
    : call.isDone = false := by
  simp only [LedgerSystem.step, here, Option.bind_some] at moved
  cases call with
  | done => cases moved
  | _ => rfl

/-- An hour posted by a step that leaves the watermark alone is ahead of it. -/
theorem NoHalfHour.posted (whole : NoHalfHour s) (own : call.Next s) (tag : call.Tagged)
    (more : s.completed ⊆ t.completed) (kept : t.watermark = s.watermark)
    (posted : ∀ h ∈ t.postedHours, h ∈ s.postedHours ∨
      ∃ txn ∈ call.open?, txn.1.windowStart = some h) : NoHalfHour t := by
  intro h isPosted hour w stored reached
  rw [kept] at stored
  rcases posted h isPosted with old | ⟨txn, isOpen, atHour⟩
  · exact more (whole h old hour w stored reached)
  · cases call with
    | accruing rates target window n now =>
      have same := (tag txn isOpen).symm.trans atHour
      cases same
      exact absurd reached (not_le.mpr (own.watermark_lt stored))
    | _ => cases isOpen

/-- What one move does to the hours, for the call that moves. -/
theorem Progress.halfHours {call' : AccrualCall}
    (progress : Progress s.watermark s.completed m call call' t.watermark t.completed)
    (whole : NoHalfHour s) (own : call.Next s) (tag : call.Tagged)
    (posted : ∀ h ∈ t.postedHours, h ∈ s.postedHours ∨
      ∃ txn ∈ call.open?, txn.1.windowStart = some h)
    (begins : ∀ rates target n now, call = .started rates target →
      call' = .accruing rates target (catchUpStart target s.watermark) n now →
        NextHour s (catchUpStart target s.watermark)) : NoHalfHour t ∧ call'.Next t := by
  have more := progress.completed_subset
  have onto : ∀ {window : Time}, t.watermark = s.watermark → NextHour s window →
      (∀ txn ∈ call.open?, txn.1.windowStart = some window) → NextHour t window := by
    intro window kept next opened
    refine ⟨next.1, ?_⟩
    have after := next.2
    rw [kept]
    cases stored : s.watermark with
    | some w =>
      rw [stored] at after
      exact after
    | none =>
      rw [stored] at after
      intro h isPosted before
      rcases posted h isPosted with old | ⟨txn, isOpen, atHour⟩
      · exact more (after h old before)
      · have same := (opened txn isOpen).symm.trans atHour
        cases same
        exact absurd before (lt_irrefl _)
  generalize watermark : t.watermark = watermark' at progress
  generalize completed : t.completed = completed' at progress
  cases progress with
  | quit => exact ⟨whole.posted own tag more watermark posted, trivial⟩
  | @began _ rates target =>
    exact ⟨whole.posted own tag more watermark posted,
      onto watermark (begins rates target 0 .start rfl rfl) nofun⟩
  | within => exact ⟨whole.posted own tag more watermark posted, onto watermark own tag⟩
  | finished =>
    refine ⟨whole.posted own tag more watermark posted, onto watermark own tag, ?_⟩
    rw [completed]
    exact mem_append_right _ mem_cons_self
  | @storedLast _ _ window _ =>
    refine ⟨fun h isPosted hour w stored reached => ?_, trivial⟩
    rw [watermark, truncHour_of_dvd own.1.1] at stored
    cases stored
    have old := (posted h isPosted).resolve_right nofun
    exact more (own.1.whole whole own.2 old hour reached)
  | @storedNext _ _ window _ =>
    refine ⟨fun h isPosted hour w stored reached => ?_, ?_⟩
    · rw [watermark, truncHour_of_dvd own.1.1] at stored
      cases stored
      have old := (posted h isPosted).resolve_right nofun
      exact more (own.1.whole whole own.2 old hour reached)
    · refine ⟨Int.dvd_add own.1.1 (Int.dvd_refl 3600), ?_⟩
      rw [watermark, truncHour_of_dvd own.1.1]
      dsimp only
      rw [truncHour_of_dvd own.1.1]

theorem HalfInv.step (inv : HalfInv s) (moved : s.step uuids e = some t)
    (one : OneAtATime s e = true) (fresh : StartsWhole s e = true) : HalfInv t := by
  have tagged := ledgerStep_tagged inv.tagged moved
  cases ledgerStep_inv moved with
  | @catchUp rates now =>
    have idle : ∀ call ∈ s.calls, call.isDone = true := all_eq_true.mp one
    refine ⟨inv.whole, tagged, fun call member => ?_, s.calls.length, fun j call found busy => ?_⟩
    · rcases mem_append_row.mp member with old | rfl
      · exact inv.next call old
      · exact Int.dvd_sub (truncHour_dvd now) (Int.dvd_refl 3600)
    · rcases getElem?_append_inv found with found | ⟨last, -⟩
      · rw [idle call (mem_of_getElem? found)] at busy
        cases busy
      · exact last
  | @move i m call call' _ here calls effect progress names =>
    have busy := notDone_of_step here moved
    have member := mem_of_getElem? here
    obtain ⟨whole, next⟩ := progress.halfHours inv.whole (inv.next call member)
      (inv.tagged call member) effect.postedHours fun rates target n now isStarted isBegun => by
        subst isStarted
        have after : t.calls[i]? = some call' := by rw [calls, getElem?_set_here here]
        rw [isBegun] at after
        exact NextHour.begin_ rates here (inv.next _ member) (began_reads here after moved) fresh
    obtain ⟨k, single⟩ := inv.single
    have alone : ∀ (j : Nat) (other : AccrualCall), t.calls[j]? = some other →
        j ≠ i → other.isDone = true := by
      intro j other found apart
      rw [calls, getElem?_set_ne (Ne.symm apart)] at found
      by_contra notDone
      have first := single j other found (Bool.eq_false_iff.mpr notDone)
      exact apart (first.trans (single i call here busy).symm)
    refine ⟨whole, tagged, fun other member' => ?_, i, fun j other found notDone => ?_⟩
    · obtain ⟨j, found⟩ := mem_iff_getElem?.mp member'
      by_cases same : j = i
      · rw [same, calls, getElem?_set_here here] at found
        cases found
        exact next
      · have finished := alone j other found same
        cases other with
        | done => trivial
        | _ => cases finished
    · by_contra apart
      rw [alone j other found apart] at notDone
      cases notDone

end Invariant

/-- For one Accruer, from any state without a call in which no hour is half accrued behind
the watermark, with or without a watermark: in every run with errors and crashes anywhere,
as long as no `CatchUp` that finds no watermark starts behind an hour that was begun and not
finished, every hour with a transaction that the watermark has reached was accrued to its
end. -/
theorem no_half_accrued_hour (uuids : UuidPackage) {start : LedgerSystem} (idle : start.calls = [])
    (before : NoHalfHour start) (events : List AccrualEvent)
    (one : EveryStep (LedgerSystem.step uuids) (fun s e _ => OneAtATime s e = true) start events)
    (fresh : EveryStep (LedgerSystem.step uuids) (fun s e _ => StartsWhole s e = true) start
      events) :
    EveryState (LedgerSystem.step uuids) NoHalfHour start events := by
  have inv : HalfInv start := ⟨before, by simp [idle], by simp [idle], 0, by simp [idle]⟩
  refine EveryState.mono (P := HalfInv) (fun s inside => inside.whole) ?_
  exact EveryState.of_step (fun s e t inside moved both => inside.step moved both.1 both.2) inv
    (one.and fresh)

namespace Sample

/-- A `CatchUp` that crashes after it has posted the customer's charge. -/
def crashedHour (i : Nat) (now : Time) : List AccrualEvent :=
  .catchUp billed now :: ([.readWatermark, .ensure 1,
    .readStored [{ ownerId := 9, sizeBytes := 1000000000 }], .ensure 2, .insertHeader, .insertLeg,
    .insertLeg, .commit, .fail] : List AccrualMove).map (AccrualEvent.move i)

/-- The first hour fails and is tried again in the same hour; the next one fails and is
tried again later. -/
def retriedHours : List AccrualEvent :=
  crashedHour 0 7210 ++ wholeHour 1 7900 [] ++ crashedHour 2 10810 ++ wholeHour 3 11000 []

/-- The first hour fails, and the next attempt is an hour later. -/
def lateRetry : List AccrualEvent :=
  crashedHour 0 7210 ++ wholeHour 1 10810 [.insertLeg, .insertLeg, .commit]

end Sample

/-- Both failed hours are accrued to their end when the watermark has reached them. -/
theorem retriedHours_whole :
    ∃ t, exec (LedgerSystem.step textNumber) .init retriedHours = some t ∧
      t.postedHours = [3600, 7200] ∧ t.watermark = some 7200 ∧ t.completed = [3600, 7200] ∧
      NoHalfHour t := by
  have ran : (exec (LedgerSystem.step textNumber) .init retriedHours).map (fun t =>
      (t.postedHours, t.watermark, t.completed)) =
        some ([3600, 7200], some 7200, [3600, 7200]) := by
    decide +kernel
  obtain ⟨t, run, facts⟩ := Option.map_eq_some_iff.mp ran
  simp only [Prod.mk.injEq] at facts
  have whole := @no_half_accrued_hour textNumber .init rfl nofun
    retriedHours (by decide +kernel) (by decide +kernel)
  exact ⟨t, run, facts.1, facts.2.1, facts.2.2, whole.last run⟩

/-- The customer is charged for an hour that no later `CatchUp` goes back to: the second
one has returned, the watermark is behind the hour and the hour was never finished. -/
theorem lateRetry_leaves_half :
    EveryStep (LedgerSystem.step textNumber) (fun s e _ => OneAtATime s e = true) .init
      lateRetry ∧
    ∃ t, exec (LedgerSystem.step textNumber) .init lateRetry = some t ∧
      t.postedHours = [3600, 7200] ∧ t.watermark = some 7200 ∧ t.completed = [7200] ∧
      ¬ NoHalfHour t := by
  have ran : (exec (LedgerSystem.step textNumber) .init lateRetry).map (fun t =>
      (t.postedHours, t.watermark, t.completed)) = some ([3600, 7200], some 7200, [7200]) := by
    decide +kernel
  obtain ⟨t, run, facts⟩ := Option.map_eq_some_iff.mp ran
  simp only [Prod.mk.injEq] at facts
  obtain ⟨posted, stored, completed⟩ := facts
  refine ⟨by decide +kernel, t, run, posted, stored, completed, fun whole => ?_⟩
  have finished := whole 3600 (by rw [posted]; decide) (by decide) 7200 stored (by decide)
  rw [completed] at finished
  exact absurd finished (by decide)

end StoragePlatform
