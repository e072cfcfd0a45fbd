/-
Module: StoragePlatform.Lib.TokenBucket
Purpose: A token bucket over an ordered field: how many requests it grants in an interval of
  time, and when a refused one is granted.
Trusted boundary: none
Main exports: TokenBucket, TokenBucket.filled, TokenBucket.filled_of_idle
-/
import Mathlib.Algebra.Order.Field.Basic
import Mathlib.Data.List.Pairwise
import Mathlib.Tactic.Linarith

namespace StoragePlatform.Lib

open List

/-- What a bucket held when it was last looked at, and when that was. -/
structure TokenBucket (K : Type*) where
  level : K
  since : K
deriving DecidableEq

namespace TokenBucket

variable {K : Type*} [Field K] [LinearOrder K]

section Definitions

variable (cap rate cost : K)

/-- What is in the bucket at `now`.  A bucket nobody has looked at is full. -/
def filled (now : K) : Option (TokenBucket K) → K
  | none => cap
  | some b => min cap (b.level + (now - b.since) * rate)

/-- A request takes `cost` out of the bucket if that much is in it. -/
def take (now : K) (b : Option (TokenBucket K)) : Bool × TokenBucket K :=
  if filled cap rate now b < cost then (false, ⟨filled cap rate now b, now⟩)
  else (true, ⟨filled cap rate now b - cost, now⟩)

/-- The times of the requests that are granted. -/
def granted : Option (TokenBucket K) → List K → List K
  | _, [] => []
  | b, now :: later =>
    if (take cap rate cost now b).1 then
      now :: granted (some (take cap rate cost now b).2) later
    else granted (some (take cap rate cost now b).2) later

theorem filled_le (now : K) (b : Option (TokenBucket K)) : filled cap rate now b ≤ cap := by
  cases b with
  | none => exact le_rfl
  | some b => exact min_le_left _ _

@[simp] theorem take_since (now : K) (b : Option (TokenBucket K)) :
    (take cap rate cost now b).2.since = now := by
  rw [TokenBucket.take]
  split <;> rfl

theorem take_refused_iff (now : K) (b : Option (TokenBucket K)) :
    (take cap rate cost now b).1 = false ↔ filled cap rate now b < cost := by
  rw [TokenBucket.take]
  split <;> simp_all

/-- A request sees of the bucket only what is in it. -/
theorem take_eq_of_filled {now : K} {b c : Option (TokenBucket K)}
    (same : filled cap rate now b = filled cap rate now c) :
    take cap rate cost now b = take cap rate cost now c := by
  rw [TokenBucket.take, same, ← TokenBucket.take]

/-- What is taken and what is left are what was in the bucket. -/
theorem take_spent (now : K) (b : Option (TokenBucket K)) :
    (take cap rate cost now b).2.level
        + (if (take cap rate cost now b).1 then cost else 0)
      = filled cap rate now b := by
  rw [TokenBucket.take]
  split <;> simp

theorem granted_sublist (start : Option (TokenBucket K)) (times : List K) :
    (granted cap rate cost start times).Sublist times := by
  induction times generalizing start with
  | nil => exact List.Sublist.refl _
  | cons now later ih =>
    rw [granted]
    split
    · exact (ih _).cons_cons now
    · exact (ih _).cons now

end Definitions

variable [IsStrictOrderedRing K]
variable {cap rate cost now s t : K} {times : List K}
variable {b : TokenBucket K} {start : Option (TokenBucket K)}

/-- A bucket is never overdrawn. -/
theorem take_nonneg (level : 0 ≤ filled cap rate now start) :
    0 ≤ (take cap rate cost now start).2.level := by
  rw [TokenBucket.take]
  split
  case isTrue => exact level
  case isFalse enough => exact sub_nonneg.mpr (not_lt.mp enough)

theorem filled_nonneg (room : 0 ≤ cap) (refills : 0 ≤ rate)
    (held : ∀ b ∈ start, 0 ≤ b.level ∧ b.since ≤ now) :
    0 ≤ filled cap rate now start := by
  cases start with
  | none => exact room
  | some b =>
    have ⟨level, later⟩ := held b rfl
    exact le_min room (add_nonneg level (mul_nonneg (sub_nonneg.mpr later) refills))

/-- A bucket left alone for as long as filling it takes is as good as new. -/
theorem filled_of_idle (held : 0 ≤ b.level) (idle : cap ≤ (now - b.since) * rate) :
    filled cap rate now (some b) = cap :=
  min_eq_left (idle.trans (le_add_of_nonneg_left held))

/-- A refused request is granted once what was missing has come in. -/
theorem take_of_waited (room : cost ≤ cap) {again : K}
    (refused : (take cap rate cost now start).1 = false)
    (waited : cost - filled cap rate now start ≤ (again - now) * rate) :
    (take cap rate cost again (some (take cap rate cost now start).2)).1 = true := by
  have left := take_spent cap rate cost now start
  rw [refused, if_neg Bool.false_ne_true, add_zero] at left
  rw [TokenBucket.take, if_neg]
  rw [not_lt, TokenBucket.filled, take_since, left, le_min_iff]
  exact ⟨room, by linarith⟩

/-! ### Whole runs

The level is the potential: a grant is paid from what the bucket held and from what came in
since.
-/

omit [IsStrictOrderedRing K] in
/-- Requests that come after `t` are not granted by `t`. -/
theorem countP_granted_late {later : List K} (ordered : (now :: later).Pairwise (· ≤ ·))
    (late : t < now) :
    (granted cap rate cost start (now :: later)).countP (fun x => decide (x ≤ t)) = 0 := by
  rw [countP_eq_zero]
  intro x member
  have after : now ≤ x := by
    rcases mem_cons.mp ((granted_sublist _ _ _ _ _).subset member) with rfl | behind
    · exact le_rfl
    · exact (pairwise_cons.mp ordered).1 x behind
  simpa using late.trans_le after

/-- A request inside the interval is paid for by what was in the bucket when it came. -/
theorem granted_first {later : List K} (inside : now ≤ t)
    (paid : ((granted cap rate cost (some (take cap rate cost now start).2) later).countP
        (fun x => decide (x ≤ t)) : K) * cost
      ≤ (take cap rate cost now start).2.level + (t - now) * rate) :
    ((granted cap rate cost start (now :: later)).countP (fun x => decide (x ≤ t)) : K) * cost
      ≤ filled cap rate now start + (t - now) * rate := by
  have spent := take_spent cap rate cost now start
  rw [granted]
  split
  case isTrue grant =>
    rw [grant, if_pos rfl] at spent
    rw [countP_cons_of_pos (by simpa using inside), Nat.cast_add, Nat.cast_one]
    linarith
  case isFalse refused =>
    rw [if_neg refused] at spent
    linarith

/-- The requests granted up to `t` are paid for by what the bucket held and what came in. -/
theorem granted_until (cost : K) (room : 0 ≤ cap) (refills : 0 ≤ rate) (held : 0 ≤ b.level)
    (ordered : (b.since :: times).Pairwise (· ≤ ·)) (begun : b.since ≤ t) :
    ((granted cap rate cost (some b) times).countP (fun x => decide (x ≤ t)) : K) * cost
      ≤ b.level + (t - b.since) * rate := by
  have nonneg : 0 ≤ b.level + (t - b.since) * rate :=
    add_nonneg held (mul_nonneg (sub_nonneg.mpr begun) refills)
  induction times generalizing b with
  | nil => simpa [granted] using nonneg
  | cons now later ih =>
    have ⟨after, rest⟩ := pairwise_cons.mp ordered
    rcases le_or_gt now t with inside | outside
    · have level : 0 ≤ filled cap rate now (some b) :=
        filled_nonneg room refills fun _ same =>
          Option.mem_some_iff.mp same ▸ ⟨held, after now mem_cons_self⟩
      have left : 0 ≤ (take cap rate cost now (some b)).2.level := take_nonneg level
      have filled : filled cap rate now (some b) ≤ b.level + (now - b.since) * rate :=
        min_le_right _ _
      have paid := ih left (by rwa [take_since]) (by rwa [take_since]) (by
          rw [take_since]
          exact add_nonneg left (mul_nonneg (sub_nonneg.mpr inside) refills))
      rw [take_since] at paid
      have whole := granted_first inside paid
      linarith
    · rw [countP_granted_late rest outside, Nat.cast_zero, zero_mul]
      exact nonneg

/-- In every interval the granted requests cost no more than a full bucket and what comes in
over the interval. -/
theorem granted_within (room : 0 ≤ cap) (refills : 0 ≤ rate) (charged : 0 ≤ cost)
    (held : ∀ b ∈ start, 0 ≤ b.level ∧ ∀ now ∈ times, b.since ≤ now)
    (ordered : times.Pairwise (· ≤ ·)) (interval : s ≤ t) :
    ((granted cap rate cost start times).countP (fun x => decide (s ≤ x ∧ x ≤ t)) : K) * cost
      ≤ cap + (t - s) * rate := by
  induction times generalizing start with
  | nil =>
    simpa [granted] using add_nonneg room (mul_nonneg (sub_nonneg.mpr interval) refills)
  | cons now later ih =>
    have ⟨after, rest⟩ := pairwise_cons.mp ordered
    have level : 0 ≤ filled cap rate now start :=
      filled_nonneg room refills fun b had =>
        ⟨(held b had).1, (held b had).2 now mem_cons_self⟩
    have left : 0 ≤ (take cap rate cost now start).2.level := take_nonneg level
    rcases lt_or_ge now s with early | inside
    · -- a request before the interval only moves the bucket on
      have same : (granted cap rate cost start (now :: later)).countP
            (fun x => decide (s ≤ x ∧ x ≤ t))
          = (granted cap rate cost (some (take cap rate cost now start).2) later).countP
            (fun x => decide (s ≤ x ∧ x ≤ t)) := by
        rw [granted]
        split
        · exact countP_cons_of_neg (by simp [early])
        · rfl
      rw [same]
      refine ih (fun b had => ?_) rest
      cases Option.mem_some_iff.mp had
      exact ⟨left, by rwa [take_since]⟩
    · -- the first request inside finds at most a full bucket
      have fewer : (granted cap rate cost start (now :: later)).countP
            (fun x => decide (s ≤ x ∧ x ≤ t))
          ≤ (granted cap rate cost start (now :: later)).countP (fun x => decide (x ≤ t)) :=
        countP_mono_left fun x _ within => by simpa using (of_decide_eq_true within).2
      have cost_le := mul_le_mul_of_nonneg_right (Nat.cast_le (α := K).mpr fewer) charged
      have income : 0 ≤ (now - s) * rate := mul_nonneg (sub_nonneg.mpr inside) refills
      rcases le_or_gt now t with begun | ended
      · have paid := granted_until (t := t) cost room refills left (by rwa [take_since])
          (by rwa [take_since])
        rw [take_since] at paid
        have whole := granted_first begun paid
        have full := filled_le cap rate now start
        linarith
      · rw [countP_granted_late ordered ended, Nat.cast_zero, zero_mul] at cost_le
        exact cost_le.trans (add_nonneg room (mul_nonneg (sub_nonneg.mpr interval) refills))

end TokenBucket

end StoragePlatform.Lib
