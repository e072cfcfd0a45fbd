/-
Module: StoragePlatform.Proofs.NextStatus
Purpose: Where the UPDATE of `TransitionStaleNodes` and the function `NextStatus` give a row
  the same status.
Trusted boundary: none
Main exports: Threshold, Together, staleStatus, leftStatus, oneMeaning_iff
-/
import Mathlib.Order.WithBot
import StoragePlatform.Healthmon.Status

namespace StoragePlatform

/-!
Both are one machine: a node is suspect or offline from a certain silence on.  They differ in
the silence they begin at.  `NextStatus` begins at the duration itself; the statement begins
after the whole seconds of the duration, and never if these are no `int4`.
-/

/-! ### The machine -/

-- of the orders that Mathlib finds for the integers, the one that computes
local instance intPreorder : Preorder Int := Int.instLinearOrder.toPreorder

/-- A silence to begin at: `⊥` for always, `⊤` for never. -/
abbrev Threshold := WithBot (WithTop Int)

/-- The status after a silence. -/
def staleStatus (suspectAt offlineAt silent : Threshold) : NodeStatus → NodeStatus
  | .online =>
    if offlineAt ≤ silent then .offline
    else if suspectAt ≤ silent then .suspect
    else .online
  | .suspect => if offlineAt ≤ silent then .offline else .suspect
  | status => status

/-- A value before both bounds or not before either of them. -/
def Together {α : Type} [LinearOrder α] (a b x : α) : Prop := x < min a b ∨ max a b ≤ x

theorem together_iff {α : Type} [LinearOrder α] {a b x : α} :
    Together a b x ↔ (a ≤ x ↔ b ≤ x) := by
  rw [Together, lt_min_iff, max_le_iff]
  by_cases reachedA : a ≤ x
  · by_cases reachedB : b ≤ x
    · simp [reachedA, reachedB]
    · simp [reachedA, reachedB, not_lt.mpr reachedA]
  · by_cases reachedB : b ≤ x
    · simp [reachedA, reachedB, not_lt.mpr reachedB]
    · simp [reachedA, reachedB, not_le.mp reachedA, not_le.mp reachedB]

/-- Two machines agree at a silence that is on one side of both their thresholds; once a node
is offline the other threshold does not matter. -/
theorem staleStatus_agree {s o s' o' silent : Threshold} {status : NodeStatus} :
    staleStatus s o silent status = staleStatus s' o' silent status ↔
      (status = .suspect → Together o o' silent) ∧
      (status = .online → Together o o' silent ∧ (Together s s' silent ∨ o ≤ silent)) := by
  simp only [together_iff]
  cases status with
  | online =>
    by_cases late : o ≤ silent <;> by_cases late' : o' ≤ silent <;>
      by_cases some : s ≤ silent <;> by_cases some' : s' ≤ silent <;>
      simp [staleStatus, late, late', some, some']
  | suspect =>
    by_cases late : o ≤ silent <;> by_cases late' : o' ≤ silent <;>
      simp [staleStatus, late, late']
  | _ => simp [staleStatus]

/-! ### The function -/

/-- What `NextStatus` begins at.  A zero time is never stale, and a silence that is no
`Duration` counts as the longest or shortest one. -/
def goThreshold (lastSeen : Instant) (after : Int) : Threshold :=
  if lastSeen = .zero then ⊤
  else if after ≤ -2 ^ 63 then ⊥
  else if 2 ^ 63 ≤ after then ⊤
  else (after : WithTop Int)

theorem not_top_le (silent : Int) : ¬ (⊤ : Threshold) ≤ (silent : WithTop Int) :=
  not_le.mpr (WithBot.coe_lt_coe.mpr (WithTop.coe_lt_top silent))

theorem goThreshold_le {lastSeen now : Instant} {after : Int} (seen : lastSeen ≠ .zero) :
    goThreshold lastSeen after ≤ ((now - lastSeen : Int) : WithTop Int) ↔
      after ≤ timeSub now lastSeen := by
  rw [goThreshold, if_neg seen, timeSub]
  split
  · rename_i always
    exact iff_of_true bot_le (le_max_of_le_left always)
  · split
    · exact iff_of_false (not_top_le _) (by omega)
    · rw [WithBot.coe_le_coe, WithTop.coe_le_coe]
      omega

theorem nextStatus_eq (status : NodeStatus) (lastSeen now : Instant)
    (suspectAfter offlineAfter : Int) :
    nextStatus status lastSeen now suspectAfter offlineAfter =
      staleStatus (goThreshold lastSeen suspectAfter) (goThreshold lastSeen offlineAfter)
        ((now - lastSeen : Int) : WithTop Int) status := by
  rw [nextStatus]
  split
  · rename_i unseen
    simp only [goThreshold, if_pos unseen]
    cases status <;> simp [staleStatus]
  · rename_i seen
    cases status <;> simp only [staleStatus, goThreshold_le seen]

/-! ### The statement -/

/-- What the statement begins at: the first moment after the whole seconds. -/
def HealthParams.threshold (params : HealthParams) (after : Int) : Threshold :=
  if params.sendable then ((wholeSeconds after * 1000000000 + 1 : Int) : WithTop Int) else ⊤

/-- The status `TransitionStaleNodes` leaves a row in; a statement that fails leaves it as it
is. -/
def leftStatus (params : HealthParams) (now : Instant) (row : HealthRow) : NodeStatus :=
  match transitionStaleNode params now row with
  | .ok left => left.status
  | .error _ => row.status

theorem threshold_le {params : HealthParams} {after : Int} {lastSeen now : Instant}
    (sent : params.sendable = true) :
    params.threshold after ≤ ((now - lastSeen : Int) : WithTop Int) ↔
      silentFor (wholeSeconds after) lastSeen now = true := by
  rw [HealthParams.threshold, if_pos sent, WithBot.coe_le_coe, WithTop.coe_le_coe, silentFor,
    decide_eq_true_eq, Int.add_one_le_iff]
  exact lt_sub_comm

theorem leftStatus_eq {params : HealthParams} {now lastSeen : Instant} {row : HealthRow}
    (seen : row.lastSeenAt = some lastSeen) :
    leftStatus params now row =
      staleStatus (params.threshold params.suspectAfter) (params.threshold params.offlineAfter)
        ((now - lastSeen : Int) : WithTop Int) row.status := by
  rw [leftStatus, transitionStaleNode]
  cases sent : params.sendable with
  | false =>
    simp only [if_true, HealthParams.threshold, sent, Bool.false_eq_true, if_false]
    cases row.status <;> simp [staleStatus]
  | true =>
    simp only [Bool.true_eq_false, if_false, scanMatches, scanRow, scannedStatus, seen]
    cases status : row.status with
    | online =>
      simp only [staleStatus, threshold_le sent]
      cases silentFor (wholeSeconds params.offlineAfter) lastSeen now <;>
        cases silentFor (wholeSeconds params.suspectAfter) lastSeen now <;> simp [status]
    | suspect =>
      simp only [staleStatus, threshold_le sent]
      cases silentFor (wholeSeconds params.offlineAfter) lastSeen now <;> simp [status]
    | _ => simp [staleStatus, status]

/-! ### One meaning -/

/-- `last_seen_at` as a `time.Time`: NULL is the zero time. -/
def HealthRow.lastSeen (row : HealthRow) : Instant := row.lastSeenAt.getD .zero

/-- The statement leaves the row in the status that `NextStatus` says. -/
def OneMeaning (params : HealthParams) (now : Instant) (row : HealthRow) : Prop :=
  leftStatus params now row =
    nextStatus row.status row.lastSeen now params.suspectAfter params.offlineAfter

/-- The two agree on a row without a heartbeat, and otherwise exactly if the silence is on one
side of both offline thresholds, and for an online node that is not offline also on one side
of both suspect thresholds. -/
theorem oneMeaning_iff (params : HealthParams) (now : Instant) (row : HealthRow) :
    OneMeaning params now row ↔ ∀ lastSeen, row.lastSeenAt = some lastSeen →
      (row.status = .suspect →
        Together (params.threshold params.offlineAfter)
          (goThreshold lastSeen params.offlineAfter) ((now - lastSeen : Int) : WithTop Int)) ∧
      (row.status = .online →
        Together (params.threshold params.offlineAfter)
            (goThreshold lastSeen params.offlineAfter) ((now - lastSeen : Int) : WithTop Int) ∧
          (Together (params.threshold params.suspectAfter)
              (goThreshold lastSeen params.suspectAfter) ((now - lastSeen : Int) : WithTop Int) ∨
            params.threshold params.offlineAfter ≤ ((now - lastSeen : Int) : WithTop Int))) := by
  cases seen : row.lastSeenAt with
  | none =>
    -- neither of them moves a node that was never heard of
    have read : row.lastSeen = .zero := by rw [HealthRow.lastSeen, seen, Option.getD_none]
    have stays : leftStatus params now row = row.status := by
      cases sent : params.sendable <;>
        simp [leftStatus, transitionStaleNode, scanMatches, seen, sent]
    rw [OneMeaning, stays, nextStatus, if_pos read]
    simp
  | some lastSeen =>
    have read : row.lastSeen = lastSeen := by rw [HealthRow.lastSeen, seen, Option.getD_some]
    rw [OneMeaning, leftStatus_eq seen, read, nextStatus_eq, staleStatus_agree]
    constructor
    · intro agree other same
      obtain rfl := Option.some.inj same
      exact agree
    · exact fun agree => agree lastSeen rfl

namespace Sample

/-- The default durations. -/
def defaultHealth : HealthParams := ⟨30000000000, 300000000000⟩

/-- A node last heard of at the epoch. -/
def quietNode : HealthRow := ⟨.online, some 0, 0, 0⟩

end Sample

open Sample

/-- Thirty seconds after its last heartbeat a node is suspect to the function and online to
the statement. -/
theorem quietNode_two_meanings :
    leftStatus defaultHealth 30000000000 quietNode = .online ∧
      nextStatus quietNode.status quietNode.lastSeen 30000000000
        defaultHealth.suspectAfter defaultHealth.offlineAfter = .suspect ∧
      ¬ OneMeaning defaultHealth 30000000000 quietNode := by
  refine ⟨by decide +kernel, by decide +kernel, ?_⟩
  rw [OneMeaning]
  decide +kernel

end StoragePlatform
