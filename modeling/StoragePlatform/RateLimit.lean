/-
Module: StoragePlatform.RateLimit
Purpose: The gateway's request limits: the Redis script tokenBucketLua, Limiter.Allow and its
  three callers (internal/ratelimit/ratelimit.go).
Trusted boundary: human-reviewed spec; numbers are exact rationals, Redis runs a script at
  once and drops a key only after its time to live
Main exports: RateKey, tokenBucket, Limit, AllowCall, AllowCall.allow, RateKeys.answers
-/
import StoragePlatform.Tickets
import Mathlib.Data.Rat.Floor
import Mathlib.Logic.Function.Basic

namespace StoragePlatform

/-- The hash of one key in Redis. -/
structure RateKey where
  tokens : ℚ
  ts : ℚ
deriving DecidableEq

/-- The seconds the script's EXPIRE leaves a key. -/
def rateKeyTtl : ℚ := 120

/-- The script `tokenBucketLua`: what it returns, and the hash it writes. -/
def tokenBucket (capacity refillPerSec now requested : ℚ) (data : Option RateKey) :
    List Int × RateKey :=
  let found := data.getD ⟨capacity, now⟩
  let tokens := min capacity (found.tokens + (now - found.ts) * refillPerSec)
  if tokens < requested then
    let wait := if 0 < refillPerSec then ⌈(requested - tokens) / refillPerSec⌉ else 0
    ([0, wait], ⟨tokens, now⟩)
  else ([1, 0], ⟨tokens - requested, now⟩)

/-! ### Allow -/

/-- The arguments of `Allow`; the window is a `time.Duration`. -/
structure Limit where
  key : Text
  capacity : Int
  window : Int
deriving DecidableEq

def authLimit : Int := 10

def readLimit : Int := 600

def planLimit : Int := 60

/-- `time.Minute`. -/
def rateWindow : Int := 60000000000

/-- What `AllowAuth` passes to `Allow`. -/
def allowAuth (ip : Text) : Limit := ⟨"rl:auth:".toList ++ ip, authLimit, rateWindow⟩

/-- What `AllowRead` passes to `Allow`. -/
def allowRead (userId : Text) : Limit := ⟨"rl:read:".toList ++ userId, readLimit, rateWindow⟩

/-- What `AllowPlan` passes to `Allow`. -/
def allowPlan (userId : Text) : Limit := ⟨"rl:plan:".toList ++ userId, planLimit, rateWindow⟩

/-- The `Result` of `Allow`; `RetryAfter` is a `time.Duration`. -/
structure RateResult where
  allowed : Bool
  retryAfter : Int
deriving DecidableEq

inductive AllowErr where
  /-- `ratelimit.allow: %w`, with the error of the Redis client. -/
  | redis (err : Text)
  /-- `ratelimit.allow: unexpected script result`. -/
  | result
deriving DecidableEq

/-- One call of `Allow`, with what it meets: the clock, whether Redis has dropped the key by
the time the script runs, and, if the call fails, its error and whether the script had run. -/
structure AllowCall extends Limit where
  now : Instant
  expired : Bool
  fails : Option (Text × Bool)
deriving DecidableEq

/-- The end of `Allow`: what it makes of the script's reply. -/
def rateResult : List Int → Except AllowErr RateResult
  | allowed :: wait :: _ =>
    if allowed = 1 then .ok ⟨true, 0⟩
    -- `time.Duration(vals[1]) * time.Second` is an int64
    else .ok ⟨false, (wait * 1000000000).bmod (2 ^ 64)⟩
  | _ => .error .result

/-- The refill `Allow` computes, `float64(capacity) / window.Seconds()`. -/
def Limit.refill (limit : Limit) : ℚ := limit.capacity / (limit.window / 1000000000)

/-- The script as `Allow` runs it on the key's hash. -/
def AllowCall.script (call : AllowCall) (row : Option RateKey) : List Int × RateKey :=
  tokenBucket call.capacity call.refill call.now.unix 1 (if call.expired then none else row)

/-- `Allow` on the hash of its key. -/
def AllowCall.allow (call : AllowCall) (row : Option RateKey) :
    Except AllowErr RateResult × Option RateKey :=
  match call.fails with
  | none => (rateResult (call.script row).1, some (call.script row).2)
  | some (err, true) => (.error (.redis err), some (call.script row).2)
  | some (err, false) => (.error (.redis err), row)

/-- Redis may have dropped the key: its time to live has run out. -/
def AllowCall.mayExpire (call : AllowCall) : Option RateKey → Bool
  | none => true
  | some row => row.ts + rateKeyTtl ≤ call.now.unix

/-! ### All keys -/

/-- The hashes Redis keeps. -/
abbrev RateKeys := Text → Option RateKey

/-- One call among those on all keys.  A key that expires too early is no step. -/
def RateKeys.step (keys : RateKeys) (call : AllowCall) : Option RateKeys :=
  if call.expired = true → call.mayExpire (keys call.key) = true then
    some (Function.update keys call.key (call.allow (keys call.key)).2)
  else none

/-- The calls with what each of them is answered. -/
def RateKeys.answers (keys : RateKeys) :
    List AllowCall → List (AllowCall × Except AllowErr RateResult)
  | [] => []
  | call :: later =>
    (call, (call.allow (keys call.key)).1) ::
      answers (Function.update keys call.key (call.allow (keys call.key)).2) later

end StoragePlatform
