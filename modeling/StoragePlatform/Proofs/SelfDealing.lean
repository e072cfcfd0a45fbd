/-
Module: StoragePlatform.Proofs.SelfDealing
Purpose: Downloading from oneself costs at least what it earns, whatever the bytes per node
  and the reliabilities.
Trusted boundary: none
Main exports: exactEgressCharge, exactEgressEarning, egressCharge_exact, egressEarning_exact
-/
import StoragePlatform.Proofs.Billing
import Mathlib.Algebra.Order.BigOperators.Group.List

namespace StoragePlatform

open Lib

/-!
The charge is rounded down once, on the total; each node's earning is rounded down twice.
All roundings of the earnings go in the platform's favour, and the one of the charge cannot
pass an integer, so it is enough to compare the amounts before the last division.
-/

/-! ### Over the integers -/

/-- `EgressChargeµCRD` without the bounds of a word. -/
def exactEgressCharge (bytes customerRate : Int) : Int :=
  if bytes ≤ 0 then 0 else (bytes * customerRate).tdiv (10 ^ 9)

/-- `EgressEarningµCRD` without the bounds of a word. -/
def exactEgressEarning (bytes providerRate reliabilityBP : Int) : Int :=
  if bytes ≤ 0 then 0
  else
    let base := (bytes * providerRate).tdiv (10 ^ 9)
    (base * reliabilityBP).tdiv (10 ^ 4)

section Exact

variable {customer provider : Int}

/-- One node's earning, scaled up, is covered by its share of the charge. -/
theorem exactEgressEarning_le (pos : 0 < provider) (margin : 12 * provider ≤ 10 * customer)
    {bytes r : Int} (nonneg : 0 ≤ bytes) (low : 0 ≤ r) (high : r ≤ 12000) :
    exactEgressEarning bytes provider r * 10 ^ 9 ≤ bytes * customer := by
  rw [exactEgressEarning]
  split
  · rename_i none
    simp [le_antisymm none nonneg]
  · have product : 0 ≤ bytes * provider := Int.mul_nonneg nonneg pos.le
    obtain ⟨base, isBase⟩ : ∃ base, base = (bytes * provider).tdiv (10 ^ 9) := ⟨_, rfl⟩
    have baseNonneg : 0 ≤ base := isBase ▸ Int.tdiv_nonneg product (by decide)
    have first : base * 10 ^ 9 ≤ bytes * provider := by
      rw [isBase, Int.tdiv_eq_ediv_of_nonneg product]
      exact Int.ediv_mul_le _ (by decide)
    have second : (base * r).tdiv (10 ^ 4) * 10 ^ 4 ≤ base * r := by
      rw [Int.tdiv_eq_ediv_of_nonneg (Int.mul_nonneg baseNonneg low)]
      exact Int.ediv_mul_le _ (by decide)
    have scaled : base * r ≤ base * 12000 := Int.mul_le_mul_of_nonneg_left high baseNonneg
    have share : bytes * (12 * provider) ≤ bytes * (10 * customer) :=
      Int.mul_le_mul_of_nonneg_left margin nonneg
    simp only [← isBase]
    linarith

theorem exactEgressEarnings_le (pos : 0 < provider) (margin : 12 * provider ≤ 10 * customer)
    {served : List (Int × Int)}
    (valid : ∀ node ∈ served, 0 ≤ node.1 ∧ 0 ≤ node.2 ∧ node.2 ≤ 12000) :
    (served.map fun node => exactEgressEarning node.1 provider node.2).sum * 10 ^ 9 ≤
      (served.map Prod.fst).sum * customer := by
  induction served with
  | nil => simp
  | cons node served ih =>
    obtain ⟨nonneg, low, high⟩ := valid node (by simp)
    have here := exactEgressEarning_le pos margin nonneg low high
    have rest := ih fun other member => valid other (by simp [member])
    simp only [List.map_cons, List.sum_cons]
    linarith

/-- The charge on the total covers the earnings of the nodes. -/
theorem exactEgressCharge_covers (customerPos : 0 < customer) (providerPos : 0 < provider)
    (margin : 12 * provider ≤ 10 * customer) {served : List (Int × Int)}
    (valid : ∀ node ∈ served, 0 ≤ node.1 ∧ 0 ≤ node.2 ∧ node.2 ≤ 12000) :
    (served.map fun node => exactEgressEarning node.1 provider node.2).sum ≤
      exactEgressCharge (served.map Prod.fst).sum customer := by
  have covered := exactEgressEarnings_le providerPos margin valid
  have total : 0 ≤ (served.map Prod.fst).sum := by
    refine List.sum_nonneg fun bytes member => ?_
    obtain ⟨node, inServed, rfl⟩ := List.mem_map.mp member
    exact (valid node inServed).1
  rw [exactEgressCharge]
  split
  · rename_i none
    rw [le_antisymm none total] at covered
    omega
  · rw [Int.tdiv_eq_ediv_of_nonneg (Int.mul_nonneg total customerPos.le)]
    exact Int.le_ediv_of_mul_le (by decide) covered

end Exact

/-- The egress charge of one customer in one hour is at least the sum of the egress earnings
of the nodes, for any division of the bytes among them and any reliabilities.  The built-in
rates keep the margin. -/
theorem self_dealing_never_pays :
    (∀ customer provider : Int, 0 < customer → 0 < provider → 12 * provider ≤ 10 * customer →
      ∀ served : List (Int × Int), (∀ node ∈ served, 0 ≤ node.1 ∧ 0 ≤ node.2 ∧ node.2 ≤ 12000) →
        (served.map fun node => exactEgressEarning node.1 provider node.2).sum ≤
          exactEgressCharge (served.map Prod.fst).sum customer) ∧
    12 * (defaultRates ⟨none, none, none, none⟩).providerEgressPerGB.toInt ≤
      10 * (defaultRates ⟨none, none, none, none⟩).customerEgressPerGB.toInt := by
  refine ⟨?_, by decide⟩
  intro customer provider customerPos providerPos margin served valid
  exact exactEgressCharge_covers customerPos providerPos margin valid

/-- Three nodes of the customer, two of them at the best reliability, at the built-in rates. -/
theorem three_nodes_covered :
    exactEgressEarning 3000000001 500000 12000 + (exactEgressEarning 1999 500000 12000 +
      (exactEgressEarning 7000000000 500000 10000 + 0)) ≤
        exactEgressCharge (3000000001 + (1999 + (7000000000 + 0))) 1000000 :=
  self_dealing_never_pays.1 1000000 500000 (by decide) (by decide) (by decide)
    [(3000000001, 12000), (1999, 12000), (7000000000, 10000)] (by decide)

/-! ### In 64 bits -/

section Int64

variable {rates : Rates}

theorem egressCharge_exact (positive : rates.Positive) {b : Int64} (nonneg : 0 ≤ b.toInt)
    (fits : b.toInt * rates.customerEgressPerGB.toInt < 2 ^ 63) :
    (egressCharge b rates).toInt = exactEgressCharge b.toInt rates.customerEgressPerGB.toInt := by
  have pos : 0 < rates.customerEgressPerGB.toInt := Formula.egressCharge.rate_pos positive
  have here := (Formula.egressCharge.run_eq_exact_iff pos nonneg (le_refl (0 : Int64).toInt)
    (by decide)).mpr (.inl fits)
  rw [exactEgressCharge]
  refine here.trans ?_
  split
  · rename_i none
    simp [Formula.exact, le_antisymm none nonneg]
  · rw [Int.tdiv_eq_ediv_of_nonneg (Int.mul_nonneg nonneg pos.le)]
    rfl

theorem egressEarning_exact (positive : rates.Positive) {b r : Int64} (nonneg : 0 ≤ b.toInt)
    (low : 0 ≤ r.toInt) (high : r.toInt ≤ 12000)
    (fits : b.toInt * rates.providerEgressPerGB.toInt < 2 ^ 63) :
    (egressEarning b rates r).toInt =
      exactEgressEarning b.toInt rates.providerEgressPerGB.toInt r.toInt := by
  have pos : 0 < rates.providerEgressPerGB.toInt := Formula.egressEarning.rate_pos positive
  have here := (Formula.egressEarning.run_eq_exact_iff pos nonneg low high).mpr (.inl fits)
  rw [exactEgressEarning]
  refine here.trans ?_
  split
  · rename_i none
    simp [Formula.exact, le_antisymm none nonneg]
  · have product := Int.mul_nonneg nonneg pos.le
    have base := Int.tdiv_nonneg product (by decide : (0 : Int) ≤ 10 ^ 9)
    rw [Int.tdiv_eq_ediv_of_nonneg (Int.mul_nonneg base low), Int.tdiv_eq_ediv_of_nonneg product]
    rfl

end Int64

end StoragePlatform
