/-
Module: StoragePlatform.Proofs.Billing
Purpose: When the charge and earning formulas are exact, and what an hourly accrual
  does to a customer's balance.
Trusted boundary: none
Main exports: Formula, MeterExact, Formula.Fits, billing_exact_iff
-/
import StoragePlatform.Ledger.Accrue

namespace StoragePlatform

open Lib

/-!
The product of bytes and rate is taken in 64 bits and wraps.  The later divisions are by
constants far below `2 ^ 64`, so a wrapped product never gives the right result by
accident, except for an earning that is scaled by zero.
-/

inductive Formula where
  | storageCharge | egressCharge | storageEarning | egressEarning
deriving DecidableEq, Repr

/-- The Go function, at a reliability `r` the two charges do not use. -/
def Formula.run (rates : Rates) (r : Int64) : Formula → Int64 → Int64
  | .storageCharge, b => StoragePlatform.storageCharge b rates
  | .egressCharge, b => StoragePlatform.egressCharge b rates
  | .storageEarning, b => StoragePlatform.storageEarning b rates r
  | .egressEarning, b => StoragePlatform.egressEarning b rates r

def Formula.rate (rates : Rates) : Formula → Int64
  | .storageCharge => rates.customerStoragePerGBMonth
  | .egressCharge => rates.customerEgressPerGB
  | .storageEarning => rates.providerStoragePerGBMonth
  | .egressEarning => rates.providerEgressPerGB

/-- The formula over the unbounded integers. -/
def Formula.exact (rates : Rates) (r : Int) : Formula → Int → Int
  | .storageCharge, b => b * rates.customerStoragePerGBMonth.toInt / (10 ^ 9 * 730)
  | .egressCharge, b => b * rates.customerEgressPerGB.toInt / 10 ^ 9
  | .storageEarning, b =>
    b * rates.providerStoragePerGBMonth.toInt / (10 ^ 9 * 730) * r / 10 ^ 4
  | .egressEarning, b => b * rates.providerEgressPerGB.toInt / 10 ^ 9 * r / 10 ^ 4

def Formula.isEarning : Formula → Bool
  | .storageEarning | .egressEarning => true
  | _ => false

/-- If the exact result fits in an `int64`, it is what the code returns, it is not
negative, and fewer bytes give no more. -/
def MeterExact (run : Int64 → Int64) (exact : Int → Int) (b : Int64) : Prop :=
  InInt64 (exact b.toInt) →
    (run b).toInt = exact b.toInt ∧ 0 ≤ run b ∧ ∀ b', 0 ≤ b' → b' ≤ b → run b' ≤ run b

/-- The product of bytes and rate fits in an `int64`, or does not matter. -/
def Formula.Fits (rates : Rates) (r : Int64) (f : Formula) (b : Int64) : Prop :=
  b.toInt * (f.rate rates).toInt < 2 ^ 63 ∨ (f.isEarning = true ∧ r = 0)

section Formulas

variable {rates : Rates} {b r rate : Int64}

theorem zero_toInt : (0 : Int64).toInt = 0 := rfl

theorem gbPrice_toInt (b rate : Int64) :
    (gbPrice b rate).toInt = ((b.toInt * rate.toInt).bmod (2 ^ 64)).tdiv (10 ^ 9) := by
  rw [gbPrice, toInt_div_of_pos _ (by decide), Int64.toInt_mul]
  rfl

theorem gbPrice_hours_toInt (b rate : Int64) :
    (gbPrice b rate / hoursPerMonth).toInt =
      ((b.toInt * rate.toInt).bmod (2 ^ 64)).tdiv (10 ^ 9 * 730) := by
  rw [toInt_div_of_pos _ (by decide), gbPrice_toInt,
    show hoursPerMonth.toInt = 730 from rfl, tdiv_tdiv_of_pos _ (by decide)]

/-- The quotient of a word by a constant of this size times a factor up to 1.2 cannot
wrap. -/
theorem scaled_toInt {base : Int64} (low : -10 ^ 10 ≤ base.toInt) (high : base.toInt ≤ 10 ^ 10)
    (nonneg : 0 ≤ r.toInt) (small : r.toInt ≤ 12000) :
    (base * r / 10000).toInt = (base.toInt * r.toInt).tdiv (10 ^ 4) := by
  have fits : InInt64 (base.toInt * r.toInt) := by constructor <;> nlinarith
  rw [toInt_div_of_pos _ (by decide), toInt_mul_of_inInt64 fits]
  rfl

/-- What the product is divided by. -/
def Formula.divisor : Formula → Int
  | .storageCharge | .storageEarning => 10 ^ 9 * 730
  | .egressCharge | .egressEarning => 10 ^ 9

theorem Formula.divisor_bounds (f : Formula) : 10 ^ 9 ≤ f.divisor ∧ f.divisor ≤ 10 ^ 12 := by
  cases f <;> decide

/-- The four formulas have one shape. -/
theorem Formula.exact_eq (rates : Rates) (r : Int) (f : Formula) (b : Int) :
    f.exact rates r b =
      if f.isEarning then b * (f.rate rates).toInt / f.divisor * r / 10 ^ 4
      else b * (f.rate rates).toInt / f.divisor := by
  cases f <;> rfl

theorem Formula.run_toInt (f : Formula) (nonneg : 0 ≤ b.toInt) (scale : 0 ≤ r.toInt)
    (small : r.toInt ≤ 12000) :
    (f.run rates r b).toInt =
      if f.isEarning then
        (((b.toInt * (f.rate rates).toInt).bmod (2 ^ 64)).tdiv f.divisor * r.toInt).tdiv (10 ^ 4)
      else ((b.toInt * (f.rate rates).toInt).bmod (2 ^ 64)).tdiv f.divisor := by
  -- what the earnings scale is far from the end of the range
  have scales : ∀ {base : Int64}, base.toInt =
      ((b.toInt * (f.rate rates).toInt).bmod (2 ^ 64)).tdiv f.divisor →
      (base * r / 10000).toInt = (((b.toInt * (f.rate rates).toInt).bmod (2 ^ 64)).tdiv
        f.divisor * r.toInt).tdiv (10 ^ 4) := by
    intro base isBase
    obtain ⟨large, -⟩ := f.divisor_bounds
    have bounds := @tdiv_bounds _ _ (10 ^ 10)
      (inInt64_bmod (b.toInt * (f.rate rates).toInt)) (by omega : 0 < f.divisor) (by omega)
    rw [← isBase] at bounds ⊢
    exact scaled_toInt bounds.1 bounds.2 scale small
  by_cases empty : b ≤ 0
  · have zero : b.toInt = 0 := le_antisymm (Int64.le_iff_toInt_le.mp empty) nonneg
    have nothing : f.run rates r b = 0 := by cases f <;> exact if_pos empty
    simp [nothing, zero]
  · cases f with
    | storageCharge =>
      simp only [Formula.run, StoragePlatform.storageCharge, if_neg empty]
      exact gbPrice_hours_toInt b _
    | egressCharge =>
      simp only [Formula.run, StoragePlatform.egressCharge, if_neg empty]
      exact gbPrice_toInt b _
    | storageEarning =>
      simp only [Formula.run, StoragePlatform.storageEarning, if_neg empty]
      exact scales (gbPrice_hours_toInt b _)
    | egressEarning =>
      simp only [Formula.run, StoragePlatform.egressEarning, if_neg empty]
      exact scales (gbPrice_toInt b _)

/-- A formula is exact at `b` if and only if the product there fits. -/
theorem Formula.run_eq_exact_iff (f : Formula) (pos : 0 < (f.rate rates).toInt)
    (nonneg : 0 ≤ b.toInt) (scale : 0 ≤ r.toInt) (small : r.toInt ≤ 12000) :
    (f.run rates r b).toInt = f.exact rates r.toInt b.toInt ↔ f.Fits rates r b := by
  obtain ⟨large, few⟩ := f.divisor_bounds
  have product := Int.mul_nonneg nonneg pos.le
  have noScale : r.toInt = 0 ↔ r = 0 := by rw [← Int64.toInt_inj]; rfl
  rw [f.run_toInt nonneg scale small, f.exact_eq, Formula.Fits]
  split
  · rename_i earning
    rw [wrapped_scaled_eq_iff product (by omega) (by decide) (by omega) scale, noScale]
    simp [earning]
  · rename_i charge
    rw [wrapped_tdiv_eq_iff product (by omega) (by omega)]
    simp [charge]

theorem Formula.exact_mono (f : Formula) (pos : 0 < (f.rate rates).toInt) {x y s : Int}
    (scale : 0 ≤ s) (le : x ≤ y) : f.exact rates s x ≤ f.exact rates s y := by
  obtain ⟨large, -⟩ := f.divisor_bounds
  have price : x * (f.rate rates).toInt / f.divisor ≤ y * (f.rate rates).toInt / f.divisor :=
    Int.ediv_le_ediv (by omega) (Int.mul_le_mul_of_nonneg_right le pos.le)
  rw [f.exact_eq, f.exact_eq]
  split
  · exact Int.ediv_le_ediv (by decide) (Int.mul_le_mul_of_nonneg_right price scale)
  · exact price

theorem Formula.exact_nonneg (f : Formula) (pos : 0 < (f.rate rates).toInt) {x s : Int}
    (nonneg : 0 ≤ x) (scale : 0 ≤ s) : 0 ≤ f.exact rates s x := by
  have least := f.exact_mono pos scale nonneg
  have zero : f.exact rates s 0 = 0 := by rw [f.exact_eq]; simp
  omega

theorem Formula.Fits.mono {f : Formula} (fits : f.Fits rates r b)
    (pos : 0 < (f.rate rates).toInt) {b' : Int64} (le : b'.toInt ≤ b.toInt) :
    f.Fits rates r b' := by
  refine fits.imp_left fun small => lt_of_le_of_lt ?_ small
  exact Int.mul_le_mul_of_nonneg_right le pos.le

theorem Formula.rate_pos (positive : rates.Positive) (f : Formula) :
    0 < (f.rate rates).toInt := by
  cases f with
  | storageCharge => exact Int64.lt_iff_toInt_lt.mp positive.customerStorage
  | egressCharge => exact Int64.lt_iff_toInt_lt.mp positive.customerEgress
  | storageEarning => exact Int64.lt_iff_toInt_lt.mp positive.providerStorage
  | egressEarning => exact Int64.lt_iff_toInt_lt.mp positive.providerEgress

theorem Formula.meterExact_iff (positive : rates.Positive) (f : Formula) (nonneg : 0 ≤ b)
    (scale : 0 ≤ r) (small : r ≤ 12000) :
    MeterExact (f.run rates r) (f.exact rates r.toInt) b ↔
      (InInt64 (f.exact rates r.toInt b.toInt) → f.Fits rates r b) := by
  have pos := f.rate_pos positive
  rw [Int64.le_iff_toInt_le] at nonneg scale small
  have exactAt := fun {x : Int64} (up : 0 ≤ x.toInt) => f.run_eq_exact_iff pos up scale small
  constructor
  · exact fun sound inRange => (exactAt nonneg).mp (sound inRange).1
  · intro fits inRange
    have here := (exactAt nonneg).mpr (fits inRange)
    refine ⟨here, ?_, ?_⟩
    · rw [Int64.le_iff_toInt_le, here]
      exact f.exact_nonneg pos nonneg scale
    · intro b' up le
      rw [Int64.le_iff_toInt_le] at up le
      have there := (exactAt up).mpr ((fits inRange).mono pos le)
      rw [Int64.le_iff_toInt_le, here, there]
      exact f.exact_mono pos scale le

end Formulas

/-! ### The hourly accrual -/

/-- The products of all customer readings fit. -/
def ReadingsFit (rates : Rates) (m : Readings) : Prop :=
  (∀ c ∈ m.stored, Formula.storageCharge.Fits rates 0 c.sizeBytes) ∧
    ∀ c ∈ m.egress, Formula.egressCharge.Fits rates 0 c.bytes

/-- No leg that `AccrueWindow` posts to a customer's account brings money in. -/
def NeverRaises (rates : Rates) (m : Readings) : Prop :=
  ∀ a ∈ windowAccruals rates m, a.accountKey.ownerType = .customer →
    ∀ account platform, account ≠ platform → ∀ e ∈ a.entries account platform,
      e.accountId = account → e.amount ≤ 0

section Accrual

variable {rates : Rates} {b : Int64}

theorem Formula.run_nonneg (positive : rates.Positive) (f : Formula)
    (fits : f.Fits rates 0 b) : 0 ≤ f.run rates 0 b := by
  by_cases empty : b ≤ 0
  · have nothing : f.run rates 0 b = 0 := by cases f <;> exact if_pos empty
    rw [nothing]
    decide
  · have pos := f.rate_pos positive
    have up : 0 ≤ b.toInt := by
      rw [Int64.le_iff_toInt_le, zero_toInt] at empty
      omega
    have here := (f.run_eq_exact_iff pos up (le_refl _) (by decide)).mpr fits
    rw [Int64.le_iff_toInt_le, here]
    exact f.exact_nonneg pos up (le_refl _)

/-- A charge that is not negative leaves the customer with less. -/
theorem Accrual.leg_nonpos {a : Accrual} {account platform : Uuid} (apart : account ≠ platform)
    (customer : a.accountKey.ownerType = .customer) (nonneg : 0 ≤ a.amount) {e : Entry}
    (leg : e ∈ a.entries account platform) (own : e.accountId = account) : e.amount ≤ 0 := by
  have paid : e ∈ ([{ accountId := account, amount := -a.amount, type := a.kind },
      { accountId := platform, amount := a.amount, type := a.kind }] : List Entry) := by
    rw [Accrual.entries] at leg
    rw [Accrual.accountKey] at customer
    split at leg
    · rename_i kind
      simp [kind] at customer
    · rename_i kind
      simp [kind] at customer
    · exact leg
  rcases List.mem_cons.mp paid with rfl | paid
  · rw [Int64.le_iff_toInt_le, zero_toInt] at nonneg ⊢
    have := a.amount.toInt_lt
    rw [Int64.toInt_neg, bmod_eq_of_inInt64 ⟨by omega, by omega⟩]
    omega
  · rw [List.mem_singleton.mp paid] at own
    exact absurd own.symm apart

theorem neverRaises_of_fit (positive : rates.Positive) {m : Readings}
    (fit : ReadingsFit rates m) : NeverRaises rates m := by
  intro a posted customer account platform apart e leg own
  refine Accrual.leg_nonpos apart customer ?_ leg own
  simp only [windowAccruals, List.mem_append, storageCharges, storageEarnings, egressCharges,
    egressEarnings, List.mem_filterMap, Option.ite_none_left_eq_some, Option.some.injEq] at posted
  rcases posted with ((⟨c, read, -, rfl⟩ | ⟨n, -, -, -, rfl⟩) | ⟨c, read, -, rfl⟩) | ⟨n, -, -, rfl⟩
  · exact Formula.storageCharge.run_nonneg positive (fit.1 c read)
  · cases customer
  · exact Formula.egressCharge.run_nonneg positive (fit.2 c read)
  · cases customer

/-- Whenever the exact result fits in an `int64`, a formula is exact, not negative and
monotone up to `b`, if and only if the product of bytes and rate fits as well.  If the
products of all customer readings fit, an accrual raises no customer's balance.  Nothing is said
of the other readings: a product that has wrapped may be positive, and then the charge is wrong
but is still taken from the customer. -/
theorem billing_exact_iff (positive : rates.Positive) :
    (∀ (f : Formula) (b r : Int64), 0 ≤ b → 0 ≤ r → r ≤ 12000 →
      (MeterExact (f.run rates r) (f.exact rates r.toInt) b ↔
        (InInt64 (f.exact rates r.toInt b.toInt) → f.Fits rates r b))) ∧
    ∀ m : Readings, ReadingsFit rates m → NeverRaises rates m :=
  ⟨fun f _ _ nonneg scale small => f.meterExact_iff positive nonneg scale small,
    fun _ fit => neverRaises_of_fit positive fit⟩

end Accrual

namespace Sample

/-- The built-in rates. -/
def rates : Rates := defaultRates ⟨none, none, none, none⟩

/-- One customer with four terabytes. -/
def fourTerabytes : Readings where
  stored := [{ ownerId := 1, sizeBytes := 4000000000000 }]
  held := []
  egress := []
  served := []
  reliability _ := (1, 1)

end Sample

/-- A gigabyte at the built-in rates. -/
theorem gigabyte_billed :
    MeterExact (Formula.storageCharge.run Sample.rates 10000)
      (Formula.storageCharge.exact Sample.rates 10000) 1000000000 ∧
    (storageCharge 1000000000 Sample.rates).toInt = 4109 := by
  refine ⟨?_, by decide⟩
  refine (((billing_exact_iff (defaultRates_positive _)).1 .storageCharge 1000000000 10000
    (by decide) (by decide) (by decide)).mpr fun _ => Or.inl ?_)
  decide

/-- Four terabytes at the built-in rates: the exact charge is 16 credits an hour, the code
computes a negative one, and the accrual pays the customer almost 9 credits. -/
theorem four_terabytes_paid :
    Formula.storageCharge.exact Sample.rates 10000 4000000000000 = 16438356 ∧
    (storageCharge 4000000000000 Sample.rates).toInt = -8831156 ∧
    (windowAccruals Sample.rates Sample.fourTerabytes).map
      (fun a => (a.entries 7 8).map fun e => (e.accountId, e.amount.toInt)) =
        [[(7, 8831156), (8, -8831156)]] ∧
    ¬ MeterExact (Formula.storageCharge.run Sample.rates 10000)
      (Formula.storageCharge.exact Sample.rates 10000) 4000000000000 ∧
    ¬ NeverRaises Sample.rates Sample.fourTerabytes := by
  refine ⟨by decide, by decide +kernel, by decide +kernel, fun sound => ?_, fun never => ?_⟩
  · have wrong : (storageCharge 4000000000000 Sample.rates).toInt = -8831156 := by
      decide +kernel
    have right := (sound (by decide)).1
    rw [Formula.run, wrong] at right
    exact absurd right (by decide)
  · have raised := never
      { kind := .storageCharge, subject := 1, ownerId := 1, amount := -8831156 }
      (by decide +kernel) rfl 7 8 (by decide)
      { accountId := 7, amount := 8831156, type := .storageCharge } (by decide +kernel) rfl
    exact absurd raised (by decide)

end StoragePlatform
