/-
Module: StoragePlatform.Proofs.RateLimit
Purpose: What a limit allows over any interval of any run of requests, and that a refused
  request may come back when it was told to.
Trusted boundary: none
Main exports: tokenBucket_take, AllowCall.script_take, answers_onKey, rateLimit_kept
-/
import StoragePlatform.RateLimit
import StoragePlatform.Lib.Runs
import StoragePlatform.Lib.TokenBucket
import StoragePlatform.Lib.Word64
import Mathlib.Tactic.FieldSimp
import Mathlib.Tactic.NormNum

namespace StoragePlatform

open Lib List

variable {keys : RateKeys} {calls : List AllowCall} {wait : Int} {again : AllowCall} {key : Text}

/-!
The script is a token bucket of `Lib.TokenBucket`.  That Redis drops a key does not show: by
then the bucket would have been full again.
-/

def RateKey.bucket (row : RateKey) : TokenBucket ℚ := ⟨row.tokens, row.ts⟩

/-- The wait the script tells a request that finds `level` tokens. -/
def scriptWait (refillPerSec requested level : ℚ) : Int :=
  if 0 < refillPerSec then ⌈(requested - level) / refillPerSec⌉ else 0

/-- The script takes `requested` tokens from its bucket. -/
theorem tokenBucket_take (capacity refillPerSec now requested : ℚ) (data : Option RateKey) :
    let taken := TokenBucket.take capacity refillPerSec requested now (data.map RateKey.bucket)
    (tokenBucket capacity refillPerSec now requested data).2.bucket = taken.2 ∧
      (tokenBucket capacity refillPerSec now requested data).1 =
        if taken.1 then [1, 0]
        else [0, scriptWait refillPerSec requested
          (TokenBucket.filled capacity refillPerSec now (data.map RateKey.bucket))] := by
  have level : min capacity ((data.getD ⟨capacity, now⟩).tokens
        + (now - (data.getD ⟨capacity, now⟩).ts) * refillPerSec)
      = TokenBucket.filled capacity refillPerSec now (data.map RateKey.bucket) := by
    cases data with
    | none => simp [TokenBucket.filled]
    | some row => rfl
  simp only [tokenBucket, level, TokenBucket.take]
  split
  · exact ⟨rfl, rfl⟩
  · exact ⟨rfl, rfl⟩

/-! ### One key -/

/-- The calls on one key with what each of them is answered. -/
def rowAnswers : Option RateKey → List AllowCall →
    List (AllowCall × Except AllowErr RateResult)
  | _, [] => []
  | row, call :: later => (call, (call.allow row).1) :: rowAnswers (call.allow row).2 later

/-- No call meets its key expired too early. -/
def RowTimely : Option RateKey → List AllowCall → Prop
  | _, [] => True
  | row, call :: later =>
    (call.expired = true → call.mayExpire row = true) ∧ RowTimely (call.allow row).2 later

/-- Calls on other keys do not touch a key. -/
theorem answers_onKey (key : Text) (keys : RateKeys) (calls : List AllowCall) :
    (keys.answers calls).filter (fun a => decide (a.1.key = key)) =
      rowAnswers (keys key) (calls.filter fun call => decide (call.key = key)) := by
  induction calls generalizing keys with
  | nil => rfl
  | cons call later ih =>
    rw [RateKeys.answers]
    by_cases on : call.key = key
    · subst on
      simp only [filter_cons, decide_true, if_true, rowAnswers, ih, Function.update_self]
    · simp only [filter_cons, on, decide_false, ih,
        Function.update_of_ne (Ne.symm on), Bool.false_eq_true, if_false]

theorem timely_onKey (key : Text) {after : RateKeys}
    (run : exec RateKeys.step keys calls = some after) :
    RowTimely (keys key) (calls.filter fun call => decide (call.key = key)) := by
  induction calls generalizing keys with
  | nil => exact trivial
  | cons call later ih =>
    rw [exec, RateKeys.step] at run
    split_ifs at run with timely
    have rest := ih run
    by_cases on : call.key = key
    · subst on
      rw [Function.update_self] at rest
      simp only [filter_cons, decide_true, if_true]
      exact ⟨timely, rest⟩
    · rw [Function.update_of_ne (Ne.symm on)] at rest
      simpa only [filter_cons, on, decide_false, Bool.false_eq_true, if_false] using rest

/-- The calls on one key that are still to come, all at one limit a minute and in the order of
their times, and the hash they find. -/
structure RowRun (capacity : Int) (row : Option RateKey) (calls : List AllowCall) : Prop where
  limited : ∀ call ∈ calls, call.capacity = capacity ∧ call.window = rateWindow
  ordered : calls.Pairwise fun a b => a.now.unix ≤ b.now.unix
  timely : RowTimely row calls
  held : ∀ r ∈ row, 0 ≤ r.tokens ∧ ∀ call ∈ calls, r.ts ≤ call.now.unix

variable {capacity : Int} {row : Option RateKey} {call : AllowCall} {later : List AllowCall}

/-- The tokens a request finds under a limit of `capacity` a minute. -/
def tokensAt (capacity : Int) (now : Int) (row : Option RateKey) : ℚ :=
  TokenBucket.filled (capacity : ℚ) (capacity / 60) now (row.map RateKey.bucket)

/-- What a request does under a limit of `capacity` a minute. -/
def takeAt (capacity : Int) (now : Int) (row : Option RateKey) : Bool × TokenBucket ℚ :=
  TokenBucket.take (capacity : ℚ) (capacity / 60) 1 now (row.map RateKey.bucket)

theorem refill_minute (limit : Limit) (minute : limit.window = rateWindow) :
    limit.refill = limit.capacity / 60 := by
  rw [Limit.refill, minute, rateWindow]
  norm_num

/-- An expired key and the same key kept hold the same tokens. -/
theorem tokensAt_expired (positive : 1 ≤ capacity) {r : RateKey} (held : 0 ≤ r.tokens)
    (expired : call.mayExpire (some r) = true) :
    tokensAt capacity call.now.unix (some r) = tokensAt capacity call.now.unix none := by
  apply TokenBucket.filled_of_idle held
  have lapsed : r.ts + rateKeyTtl ≤ call.now.unix := of_decide_eq_true expired
  have full : (1 : ℚ) ≤ capacity := Int.cast_one (R := ℚ) ▸ Int.cast_le.mpr positive
  have idle : 120 ≤ (call.now.unix : ℚ) - r.ts := le_sub_iff_add_le'.mpr lapsed
  have share : 0 ≤ (capacity : ℚ) / 60 := by linarith
  have filled := mul_le_mul_of_nonneg_right idle share
  change (capacity : ℚ) ≤ ((call.now.unix : ℚ) - r.ts) * (capacity / 60)
  linarith

/-- Whether its key has expired does not show in a call. -/
theorem RowRun.script_take (positive : 1 ≤ capacity) (run : RowRun capacity row (call :: later)) :
    (call.script row).2.bucket = (takeAt capacity call.now.unix row).2 ∧
      (call.script row).1 =
        if (takeAt capacity call.now.unix row).1 then [1, 0]
        else [0, scriptWait (capacity / 60) 1 (tokensAt capacity call.now.unix row)] := by
  have ⟨limit, minute⟩ := run.limited call mem_cons_self
  have same : tokensAt capacity call.now.unix (if call.expired then none else row)
      = tokensAt capacity call.now.unix row := by
    by_cases expired : call.expired = true
    · rw [if_pos expired]
      cases row with
      | none => rfl
      | some r =>
        exact (tokensAt_expired positive (run.held r rfl).1 (run.timely.1 expired)).symm
    · rw [if_neg expired]
  have taken := tokenBucket_take call.capacity call.refill call.now.unix 1
    (if call.expired then none else row)
  rw [refill_minute _ minute, limit] at taken
  rw [AllowCall.script, refill_minute _ minute, limit]
  rw [takeAt, ← TokenBucket.take_eq_of_filled _ _ _ same, ← same]
  exact taken

/-- The script has run, whether or not its reply came back. -/
def AllowCall.ran (call : AllowCall) : Bool :=
  match call.fails with
  | none => true
  | some (_, ran) => ran

theorem AllowCall.allow_answer (call : AllowCall) (row : Option RateKey) :
    (call.allow row).1 =
      match call.fails with
      | none => rateResult (call.script row).1
      | some (err, _) => .error (.redis err) := by
  rw [allow]
  rcases call.fails with _ | ⟨_, _ | _⟩ <;> rfl

theorem AllowCall.allow_row (call : AllowCall) (row : Option RateKey) :
    (call.allow row).2 = if call.ran then some (call.script row).2 else row := by
  rw [allow, ran]
  rcases call.fails with _ | ⟨_, _ | _⟩ <;> rfl

theorem RowRun.tokensAt_nonneg (positive : 1 ≤ capacity)
    (run : RowRun capacity row (call :: later)) : 0 ≤ tokensAt capacity call.now.unix row := by
  have share : (0 : ℚ) ≤ capacity := Int.cast_nonneg (by omega)
  apply TokenBucket.filled_nonneg share (div_nonneg share (by norm_num))
  intro b member
  obtain ⟨r, had, rfl⟩ := Option.mem_map.mp member
  exact ⟨(run.held r had).1, (run.held r had).2 call mem_cons_self⟩

/-- A request never overdraws its key. -/
theorem RowRun.tail (positive : 1 ≤ capacity) (run : RowRun capacity row (call :: later)) :
    RowRun capacity (call.allow row).2 later where
  limited := fun c member => run.limited c (mem_cons_of_mem _ member)
  ordered := (pairwise_cons.mp run.ordered).2
  timely := run.timely.2
  held := by
    intro r after
    rw [call.allow_row] at after
    split at after
    case isFalse =>
      have ⟨tokens, times⟩ := run.held r after
      exact ⟨tokens, fun c member => times c (mem_cons_of_mem _ member)⟩
    case isTrue =>
      cases Option.mem_some_iff.mp after
      have left := (run.script_take positive).1
      have level : 0 ≤ (takeAt capacity call.now.unix row).2.level :=
        TokenBucket.take_nonneg (run.tokensAt_nonneg positive)
      have since : (takeAt capacity call.now.unix row).2.since = call.now.unix :=
        TokenBucket.take_since _ _ _ _ _
      rw [← left] at level since
      refine ⟨level, fun c member => ?_⟩
      change (call.script row).2.bucket.since ≤ c.now.unix
      rw [since]
      exact Int.cast_le.mpr ((pairwise_cons.mp run.ordered).1 c member)

/-! ### What is allowed -/

/-- The request was let through. -/
def wasAllowed (answered : AllowCall × Except AllowErr RateResult) : Bool :=
  match answered.2 with
  | .ok result => result.allowed
  | .error _ => false

/-- The time of a call as the script counts it. -/
def AllowCall.time (call : AllowCall) : ℚ := call.now.unix

theorem wasAllowed_iff (positive : 1 ≤ capacity) (run : RowRun capacity row (call :: later)) :
    wasAllowed (call, (call.allow row).1) = true ↔
      call.fails = none ∧ (takeAt capacity call.now.unix row).1 = true := by
  rw [wasAllowed, call.allow_answer]
  cases call.fails with
  | some failure => simp
  | none =>
    simp only [(run.script_take positive).2, true_and]
    cases (takeAt capacity call.now.unix row).1 with
    | true => simp [rateResult]
    | false => simp [rateResult]

/-- What a key lets through its bucket has granted. -/
theorem allowed_sublist (positive : 1 ≤ capacity) (run : RowRun capacity row calls) :
    (((rowAnswers row calls).filter wasAllowed).map fun a => a.1.time).Sublist
      (TokenBucket.granted (capacity : ℚ) (capacity / 60) 1 (row.map RateKey.bucket)
        ((calls.filter AllowCall.ran).map AllowCall.time)) := by
  induction calls generalizing row with
  | nil => exact List.Sublist.refl _
  | cons call later ih =>
    have rest := ih (run.tail positive)
    have allowed := wasAllowed_iff positive run
    have left := (run.script_take positive).1
    rw [call.allow_row] at rest
    rw [rowAnswers, filter_cons, filter_cons, call.allow_row]
    by_cases ran : call.ran = true
    · rw [if_pos ran, Option.map_some, left] at rest
      rw [if_pos ran, if_pos ran, map_cons, TokenBucket.granted]
      change List.Sublist _ (if (takeAt capacity call.now.unix row).1 then _ else _)
      cases taken : (takeAt capacity call.now.unix row).1 with
      | true =>
        rw [if_pos rfl]
        split
        · exact rest.cons_cons _
        · exact rest.cons _
      | false =>
        have refused : ¬wasAllowed (call, (call.allow row).1) = true := by
          simp [allowed, taken]
        rw [if_neg refused, if_neg Bool.false_ne_true]
        exact rest
    · have failed : ¬wasAllowed (call, (call.allow row).1) = true := by
        intro let_through
        simp [AllowCall.ran, (allowed.mp let_through).1] at ran
      rw [if_neg ran] at rest
      rw [if_neg failed, if_neg ran, if_neg ran]
      exact rest

/-! ### When to come back -/

/-- A wait is at most a minute, so `RetryAfter` holds it. -/
theorem scriptWait_inInt64 (positive : 1 ≤ capacity) {level : ℚ} (nonneg : 0 ≤ level)
    (short : level < 1) : InInt64 (scriptWait (capacity / 60) 1 level * 1000000000) := by
  have one : (1 : ℚ) ≤ capacity := Int.cast_one (R := ℚ) ▸ Int.cast_le.mpr positive
  have share : (0 : ℚ) < capacity / 60 := by linarith
  rw [scriptWait, if_pos share]
  have lower : 0 ≤ ⌈(1 - level) / ((capacity : ℚ) / 60)⌉ :=
    Int.ceil_nonneg (div_nonneg (by linarith) share.le)
  have upper : ⌈(1 - level) / ((capacity : ℚ) / 60)⌉ ≤ 60 := by
    rw [Int.ceil_le, div_le_iff₀ share]
    push_cast
    linarith
  exact inInt64_of_nonneg (by omega) (by omega)

/-- A refused call, and what it is told. -/
theorem RowRun.refused (positive : 1 ≤ capacity) (run : RowRun capacity row (call :: later))
    (refused : (call.allow row).1 = .ok ⟨false, wait⟩) :
    call.ran = true ∧ (takeAt capacity call.now.unix row).1 = false ∧
      wait = scriptWait (capacity / 60) 1 (tokensAt capacity call.now.unix row) * 1000000000 := by
  rw [call.allow_answer] at refused
  cases outcome : call.fails with
  | some failure => simp [outcome] at refused
  | none =>
    simp only [outcome, (run.script_take positive).2] at refused
    cases taken : (takeAt capacity call.now.unix row).1 with
    | true => simp [taken, rateResult] at refused
    | false =>
      have short : tokensAt capacity call.now.unix row < 1 :=
        (TokenBucket.take_refused_iff _ _ _ _ _).mp taken
      have fits := scriptWait_inInt64 positive (run.tokensAt_nonneg positive) short
      simp only [taken, Bool.false_eq_true, if_false, rateResult, zero_ne_one,
        bmod_eq_of_inInt64 fits, Except.ok.injEq, RateResult.mk.injEq, true_and] at refused
      exact ⟨by rw [AllowCall.ran, outcome], rfl, refused.symm⟩

/-- A refused call that waits as long as it was told is allowed. -/
theorem RowRun.allowed_again (positive : 1 ≤ capacity)
    (run : RowRun capacity row (call :: again :: later))
    (refused : (call.allow row).1 = .ok ⟨false, wait⟩) (answered : again.fails = none)
    (waited : call.now.unix * 1000000000 + wait ≤ again.now.unix * 1000000000) :
    (again.allow (call.allow row).2).1 = .ok ⟨true, 0⟩ := by
  have ⟨ran, short, told⟩ := run.refused positive refused
  have one : (1 : ℚ) ≤ capacity := Int.cast_one (R := ℚ) ▸ Int.cast_le.mpr positive
  have share : (0 : ℚ) < capacity / 60 := by linarith
  have left : (call.allow row).2.map RateKey.bucket =
      some (takeAt capacity call.now.unix row).2 := by
    rw [call.allow_row, if_pos ran, Option.map_some, (run.script_take positive).1]
  have idle : ⌈(1 - tokensAt capacity call.now.unix row) / ((capacity : ℚ) / 60)⌉
      ≤ again.now.unix - call.now.unix := by
    rw [scriptWait, if_pos share] at told
    omega
  have missing : 1 - tokensAt capacity call.now.unix row
      ≤ ((again.now.unix : ℚ) - call.now.unix) * (capacity / 60) := by
    rw [← div_le_iff₀ share]
    exact_mod_cast Int.ceil_le.mp idle
  have taken : (takeAt capacity again.now.unix (call.allow row).2).1 = true := by
    rw [takeAt, left]
    exact TokenBucket.take_of_waited one short missing
  have reply := ((run.tail positive).script_take positive).2
  rw [if_pos taken] at reply
  rw [again.allow_answer, answered]
  simp only [reply, rateResult, if_true]

/-- A refused request on the key that comes back no sooner than it was told, with no other
request on the key in between, is allowed. -/
def RetriesAllowed (key : Text) (answers : List (AllowCall × Except AllowErr RateResult)) : Prop :=
  ∀ earlier between later call wait again answer,
    answers = earlier ++ (call, .ok ⟨false, wait⟩) :: (between ++ (again, answer) :: later) →
    call.key = key → again.key = key → (∀ a ∈ between, a.1.key ≠ key) → again.fails = none →
    call.now.unix * 1000000000 + wait ≤ again.now.unix * 1000000000 →
    answer = .ok ⟨true, 0⟩

theorem retry_allowed (positive : 1 ≤ capacity) (run : RowRun capacity row calls)
    {earlier after : List (AllowCall × Except AllowErr RateResult)}
    {answer : Except AllowErr RateResult} (split : rowAnswers row calls
      = earlier ++ (call, .ok ⟨false, wait⟩) :: (again, answer) :: after)
    (answered : again.fails = none)
    (waited : call.now.unix * 1000000000 + wait ≤ again.now.unix * 1000000000) :
    answer = .ok ⟨true, 0⟩ := by
  induction earlier generalizing row calls with
  | nil =>
    cases calls with
    | nil => cases split
    | cons first rest =>
      cases rest with
      | nil => simp [rowAnswers] at split
      | cons second rest =>
        simp only [rowAnswers, nil_append, List.cons.injEq, Prod.mk.injEq] at split
        obtain ⟨⟨rfl, refused⟩, ⟨rfl, rfl⟩, -⟩ := split
        exact run.allowed_again positive refused answered waited
  | cons _ earlier ih =>
    cases calls with
    | nil => cases split
    | cons first rest =>
      rw [rowAnswers, cons_append, List.cons.injEq] at split
      exact ih (run.tail positive) split.2

/-! ### All keys -/

/-- How many requests on the key were allowed from `s` to `t`. -/
def allowedIn (key : Text) (s t : ℚ)
    (answers : List (AllowCall × Except AllowErr RateResult)) : Nat :=
  answers.countP fun a => a.1.key = key ∧ wasAllowed a ∧ s ≤ a.1.time ∧ a.1.time ≤ t

theorem allowedIn_eq (key : Text) (s t : ℚ)
    (answers : List (AllowCall × Except AllowErr RateResult)) :
    allowedIn key s t answers =
      (((answers.filter fun a => decide (a.1.key = key)).filter wasAllowed).map
        fun a => a.1.time).countP fun x => decide (s ≤ x ∧ x ≤ t) := by
  rw [allowedIn, countP_map, countP_filter, countP_filter]
  apply countP_congr
  intro a _
  simp [and_comm]

/-- A key keeps to its limit over every interval. -/
theorem RowRun.allowed_le (positive : 1 ≤ capacity) (run : RowRun capacity none calls) {s t : ℚ}
    (interval : s ≤ t) :
    ((((rowAnswers none calls).filter wasAllowed).map fun a => a.1.time).countP
        (fun x => decide (s ≤ x ∧ x ≤ t)) : ℚ)
      ≤ capacity + capacity * (t - s) / 60 := by
  have share : (0 : ℚ) ≤ capacity := Int.cast_nonneg (by omega)
  have times : ((calls.filter AllowCall.ran).map AllowCall.time).Pairwise (· ≤ ·) :=
    pairwise_map.mpr ((run.ordered.filter _).imp Int.cast_le.mpr)
  have refills : (0 : ℚ) ≤ capacity / 60 := div_nonneg share (by norm_num)
  have granted := TokenBucket.granted_within share refills zero_le_one
    (fun b (absent : b ∈ (none : Option (TokenBucket ℚ))) => by cases absent) times interval
  rw [mul_one] at granted
  have counted := (allowed_sublist positive run).countP_le (p := fun x => decide (s ≤ x ∧ x ≤ t))
  calc _ ≤ _ := Nat.cast_le.mpr counted
    _ ≤ capacity + (t - s) * (capacity / 60) := granted
    _ = capacity + capacity * (t - s) / 60 := by ring

/-- The calls on one key among those on all keys. -/
def callsOn (key : Text) (calls : List AllowCall) : List AllowCall :=
  calls.filter fun call => decide (call.key = key)

/-- What holds of the answers to the calls on a key holds of them among all answers. -/
theorem RowRun.kept (positive : 1 ≤ capacity) (run : RowRun capacity none (callsOn key calls)) :
    (∀ s t : ℚ, s ≤ t →
      (allowedIn key s t (RateKeys.answers (fun _ => none) calls) : ℚ)
        ≤ capacity + capacity * (t - s) / 60) ∧
    RetriesAllowed key (RateKeys.answers (fun _ => none) calls) := by
  have onKey := answers_onKey key (fun _ => none) calls
  constructor
  · intro s t interval
    rw [allowedIn_eq, onKey]
    exact run.allowed_le positive interval
  · intro earlier between later call wait again answer whole first second apart answered waited
    have kept : rowAnswers none (callsOn key calls)
        = earlier.filter (fun a => decide (a.1.key = key)) ++ (call, .ok ⟨false, wait⟩) ::
          (again, answer) :: later.filter (fun a => decide (a.1.key = key)) := by
      have others : between.filter (fun a => decide (a.1.key = key)) = [] :=
        filter_eq_nil_iff.mpr fun a member => by simpa using apart a member
      rw [callsOn, ← onKey, whole]
      simp [first, second, others]
    exact retry_allowed positive run kept answered waited

theorem rowRun_of_exec (run : exec RateKeys.step (fun _ => none) calls = some keys)
    (limited : ∀ call ∈ calls, call.key = key →
      call.capacity = capacity ∧ call.window = rateWindow)
    (ordered : (callsOn key calls).Pairwise fun a b => a.now.unix ≤ b.now.unix) :
    RowRun capacity none (callsOn key calls) where
  limited := fun call member => by
    rw [callsOn, mem_filter, decide_eq_true_eq] at member
    exact limited call member.1 member.2
  ordered := ordered
  timely := timely_onKey key run
  held := fun _ absent => by cases absent

/-- In every run of requests on all keys, those on a key with one limit a minute keep to the
limit over every interval, and a refused one may come back when it was told to. -/
theorem rateLimit_kept (positive : 1 ≤ capacity) {key : Text} {calls : List AllowCall}
    {keys : RateKeys} (run : exec RateKeys.step (fun _ => none) calls = some keys)
    (limited : ∀ call ∈ calls, call.key = key →
      call.capacity = capacity ∧ call.window = rateWindow)
    (ordered : (callsOn key calls).Pairwise fun a b => a.now.unix ≤ b.now.unix) :
    (∀ s t : ℚ, s ≤ t →
      (allowedIn key s t (RateKeys.answers (fun _ => none) calls) : ℚ)
        ≤ capacity + capacity * (t - s) / 60) ∧
    RetriesAllowed key (RateKeys.answers (fun _ => none) calls) :=
  (rowRun_of_exec run limited ordered).kept positive

namespace Sample

def rateCall (key : Text) (seconds : Int) (expired : Bool) : AllowCall where
  key := key
  capacity := 1
  window := rateWindow
  now := .ofUnix seconds
  expired := expired
  fails := none

/-- One request a minute: the second comes too early and again when it was told to, the last
finds its key expired. -/
def oneAMinute : List AllowCall :=
  [rateCall ['a'] 0 false, rateCall ['a'] 1 false, rateCall ['b'] 2 false,
    rateCall ['a'] 60 false, rateCall ['a'] 180 true]

end Sample

open Sample

theorem oneAMinute_kept :
    (exec RateKeys.step (fun _ => none) oneAMinute).isSome = true ∧
    (∀ s t : ℚ, s ≤ t →
      (allowedIn ['a'] s t (RateKeys.answers (fun _ => none) oneAMinute) : ℚ)
        ≤ (1 : Int) + (1 : Int) * (t - s) / 60) ∧
    RetriesAllowed ['a'] (RateKeys.answers (fun _ => none) oneAMinute) := by
  have runs : (exec RateKeys.step (fun _ => none) oneAMinute).isSome = true := by
    decide +kernel
  obtain ⟨keys, run⟩ := Option.isSome_iff_exists.mp runs
  exact ⟨runs, rateLimit_kept le_rfl run (by decide +kernel) (by decide +kernel)⟩

example : (RateKeys.answers (fun _ => none) oneAMinute).map (fun a => a.2.toOption) =
    [some ⟨true, 0⟩, some ⟨false, 59000000000⟩, some ⟨true, 0⟩, some ⟨true, 0⟩,
      some ⟨true, 0⟩] := by
  decide +kernel

/-! ### The gateway's limits -/

/-- The limits the gateway asks for. -/
def Limit.Served (limit : Limit) : Prop :=
  (∃ ip, limit = allowAuth ip) ∨ (∃ userId, limit = allowRead userId) ∨
    ∃ userId, limit = allowPlan userId

theorem allowAuth_key (ip : Text) :
    (allowAuth ip).key = ['r', 'l', ':', 'a', 'u', 't', 'h', ':'] ++ ip := rfl

theorem allowRead_key (userId : Text) :
    (allowRead userId).key = ['r', 'l', ':', 'r', 'e', 'a', 'd', ':'] ++ userId := rfl

theorem allowPlan_key (userId : Text) :
    (allowPlan userId).key = ['r', 'l', ':', 'p', 'l', 'a', 'n', ':'] ++ userId := rfl

/-- No two of the gateway's limits share a key. -/
theorem Limit.Served.eq_of_key {a b : Limit} (first : a.Served) (second : b.Served)
    (same : a.key = b.key) : a = b := by
  rcases first with ⟨x, rfl⟩ | ⟨x, rfl⟩ | ⟨x, rfl⟩ <;>
    rcases second with ⟨y, rfl⟩ | ⟨y, rfl⟩ | ⟨y, rfl⟩ <;>
    simp [allowAuth_key, allowRead_key, allowPlan_key] at same
  all_goals rw [same]

/-- Every limit of the gateway is kept on every key. -/
theorem served_kept (run : exec RateKeys.step (fun _ => none) calls = some keys)
    (served : ∀ call ∈ calls, call.Served) {limit : Limit} (asked : limit.Served)
    (ordered : (callsOn limit.key calls).Pairwise fun a b => a.now.unix ≤ b.now.unix) :
    (∀ s t : ℚ, s ≤ t →
      (allowedIn limit.key s t (RateKeys.answers (fun _ => none) calls) : ℚ)
        ≤ limit.capacity + limit.capacity * (t - s) / 60) ∧
    RetriesAllowed limit.key (RateKeys.answers (fun _ => none) calls) := by
  have ⟨positive, minute⟩ : 1 ≤ limit.capacity ∧ limit.window = rateWindow := by
    rcases asked with ⟨x, rfl⟩ | ⟨x, rfl⟩ | ⟨x, rfl⟩
    · exact ⟨show (1 : Int) ≤ authLimit by decide, rfl⟩
    · exact ⟨show (1 : Int) ≤ readLimit by decide, rfl⟩
    · exact ⟨show (1 : Int) ≤ planLimit by decide, rfl⟩
  refine (rowRun_of_exec run (fun call member on => ?_) ordered).kept positive
  rw [(served call member).eq_of_key asked on]
  exact ⟨rfl, minute⟩

end StoragePlatform
