/-
Module: StoragePlatform.Ledger.Rates
Purpose: The prices, the charge and earning formulas and the reliability factor of
  internal/ledger/ledger.go.
Trusted boundary: human-reviewed spec; a float32 is its exact value
Main exports: Rates, Ledger.rates, storageCharge, egressCharge, reliabilityBP
-/
import StoragePlatform.Lib.Word64
import Mathlib.Data.Rat.Floor

namespace StoragePlatform

open Lib

/-!
Amounts are `int64` micro-credits, and `Int64` wraps and truncates as Go's does.
A `float32` meter is given by the rational it stands for: its product with 10000
or 4000 needs at most 38 significant bits, so the `float64` product is exact and
the conversion to `int64` truncates the exact value.
-/

def microPerCRD : Int64 := 1000000
def bytesPerGB : Int64 := 1000000000
def hoursPerMonth : Int64 := 730

/-- Micro-credits per GB and month, or per GB. -/
structure Rates where
  customerStoragePerGBMonth : Int64
  providerStoragePerGBMonth : Int64
  customerEgressPerGB : Int64
  providerEgressPerGB : Int64
deriving DecidableEq, Repr

/-- The four `LEDGER_*` variables, where they are set and `strconv.ParseInt` reads them. -/
structure RateEnv where
  customerStorage : Option Int64
  providerStorage : Option Int64
  customerEgress : Option Int64
  providerEgress : Option Int64

/-- A variable replaces the built-in rate if it is positive. -/
def overrideRate (rate : Int64) : Option Int64 → Int64
  | none => rate
  | some n => if 0 < n then n else rate

/-- `DefaultRates`. -/
def defaultRates (env : RateEnv) : Rates where
  customerStoragePerGBMonth := overrideRate (3 * microPerCRD) env.customerStorage
  providerStoragePerGBMonth := overrideRate (3 * microPerCRD / 2) env.providerStorage
  customerEgressPerGB := overrideRate (1 * microPerCRD) env.customerEgress
  providerEgressPerGB := overrideRate (microPerCRD / 2) env.providerEgress

/-- All four rates are positive. -/
structure Rates.Positive (rates : Rates) : Prop where
  customerStorage : 0 < rates.customerStoragePerGBMonth
  providerStorage : 0 < rates.providerStoragePerGBMonth
  customerEgress : 0 < rates.customerEgressPerGB
  providerEgress : 0 < rates.providerEgressPerGB

theorem overrideRate_pos {rate : Int64} (pos : 0 < rate) (value : Option Int64) :
    0 < overrideRate rate value := by
  cases value with
  | none => exact pos
  | some n =>
    rw [overrideRate]
    split
    · assumption
    · exact pos

theorem defaultRates_positive (env : RateEnv) : (defaultRates env).Positive where
  customerStorage := overrideRate_pos (by decide) _
  providerStorage := overrideRate_pos (by decide) _
  customerEgress := overrideRate_pos (by decide) _
  providerEgress := overrideRate_pos (by decide) _

/-! ### Formulas -/

/-- `bytes * rate / BytesPerGB`, the start of all four formulas. -/
def gbPrice (bytes rate : Int64) : Int64 := bytes * rate / bytesPerGB

/-- `StorageChargeµCRD`. -/
def storageCharge (sizeBytes : Int64) (rates : Rates) : Int64 :=
  if sizeBytes ≤ 0 then 0
  else gbPrice sizeBytes rates.customerStoragePerGBMonth / hoursPerMonth

/-- `StorageEarningµCRD`. -/
def storageEarning (sizeBytes : Int64) (rates : Rates) (reliabilityBP : Int64) : Int64 :=
  if sizeBytes ≤ 0 then 0
  else
    let base := gbPrice sizeBytes rates.providerStoragePerGBMonth / hoursPerMonth
    base * reliabilityBP / 10000

/-- `EgressChargeµCRD`. -/
def egressCharge (bytes : Int64) (rates : Rates) : Int64 :=
  if bytes ≤ 0 then 0 else gbPrice bytes rates.customerEgressPerGB

/-- `EgressEarningµCRD`. -/
def egressEarning (bytes : Int64) (rates : Rates) (reliabilityBP : Int64) : Int64 :=
  if bytes ≤ 0 then 0
  else
    let base := gbPrice bytes rates.providerEgressPerGB
    base * reliabilityBP / 10000

/-! ### Reliability -/

def clamp01 (v : ℚ) : ℚ := if v < 0 then 0 else if 1 < v then 1 else v

/-- `int64(float64(clamp01(v)) * scale)`. -/
def scaled (v : ℚ) (scale : ℕ) : Int64 := Int64.ofInt ⌊clamp01 v * scale⌋

def reputationFactorBP (reputation : ℚ) : Int64 := 8000 + scaled reputation 4000

/-- `ReliabilityBP`. -/
def reliabilityBP (uptime audit reputation : ℚ) : Int64 :=
  let up := scaled uptime 10000
  let aud := scaled audit 10000
  let fac := reputationFactorBP reputation
  let r := up * aud / 10000 * fac / 10000
  let r := if 12000 < r then 12000 else r
  if r < 0 then 0 else r

/-- The factor is between 0 and 1.2, whatever the meters say. -/
theorem reliabilityBP_range (uptime audit reputation : ℚ) :
    0 ≤ reliabilityBP uptime audit reputation ∧
      reliabilityBP uptime audit reputation ≤ 12000 := by
  simp only [reliabilityBP]
  generalize scaled uptime 10000 * scaled audit 10000 / 10000 *
    reputationFactorBP reputation / 10000 = r
  simp only [Int64.lt_iff_toInt_lt, Int64.le_iff_toInt_le]
  have zero : (0 : Int64).toInt = 0 := rfl
  have top : (12000 : Int64).toInt = 12000 := rfl
  split <;> split <;> simp_all

end StoragePlatform
