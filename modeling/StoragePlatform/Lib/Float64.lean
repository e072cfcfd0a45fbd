/-
Module: StoragePlatform.Lib.Float64
Purpose: Rounding of rationals to float64 values that have at most 53 bits before the point.
Trusted boundary: human-reviewed spec
Main exports: roundEven, binade, float64, truncate
-/
import Mathlib.Data.Rat.Floor

namespace StoragePlatform.Lib

/-- The nearest integer, and of two the even one. -/
def roundEven (x : ℚ) : ℤ :=
  let below := ⌊x⌋
  if x - below < 1 / 2 then below
  else if 1 / 2 < x - below then below + 1
  else below + below % 2

/-- The exponent of the power of two at or below `|x|`. -/
def binade (x : ℚ) : ℤ :=
  let e := (x.num.natAbs.log2 : ℤ) - x.den.log2
  if (2 : ℚ) ^ e ≤ |x| then e else e - 1

/-- The float64 nearest to a number below `2 ^ 53`: it has 52 bits after its first. -/
def float64 (x : ℚ) : ℚ :=
  let bits := (52 - binade x).toNat
  roundEven (x * 2 ^ bits) / 2 ^ bits

/-- A conversion to an integer drops the fraction. -/
def truncate (x : ℚ) : ℤ := x.num.tdiv x.den

theorem roundEven_intCast (n : ℤ) : roundEven n = n := by
  simp [roundEven]

/-- Integers are floats. -/
theorem float64_intCast (n : ℤ) : float64 n = n := by
  have scaled :
      (n : ℚ) * 2 ^ (52 - binade n).toNat = ((n * 2 ^ (52 - binade n).toNat : ℤ) : ℚ) := by
    push_cast
    rfl
  rw [float64, scaled, roundEven_intCast, ← scaled]
  exact mul_div_cancel_right₀ _ (pow_ne_zero _ two_ne_zero)

theorem truncate_intCast (n : ℤ) : truncate n = n := by
  simp [truncate]

/-- The bits of a number close to a whole one do not suffice, and it becomes that one. -/
example : truncate (float64 (2 ^ 24 + float64 (999999999 / 1000000000))) = 2 ^ 24 + 1 := by
  decide +kernel

end StoragePlatform.Lib
