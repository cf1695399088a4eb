import Mathlib.Data.Rat.Floor
import RpcStateIndexer.Collectors.Erc20

/-!
# The tolerance of a holder sum

The product of a supply and a tolerance is rounded to the digits of a decimal before it is truncated.
The comparison with the rounded allowance and the one with the exact allowance differ on the sums that
lie between the product and its rounding.
-/

namespace RpcStateIndexer

open Reasoning

/-! ## Rounding -/

/-- A tie or less is rounded down, unless the tie is at an odd quotient. -/
def RoundsUp (n d : Nat) : Prop := d < 2 * (n % d) ∨ (2 * (n % d) = d ∧ n / d % 2 = 1)

instance (n d : Nat) : Decidable (RoundsUp n d) := inferInstanceAs (Decidable (_ ∨ _))

/-- `x` separates `n` from the multiple of `d` that `n` is rounded to. -/
def Separates (x n d : Nat) : Prop :=
  if RoundsUp n d then n < x ∧ x ≤ (n / d + 1) * d else n / d * d < x ∧ x ≤ n

instance (x n d : Nat) : Decidable (Separates x n d) := inferInstanceAs (Decidable (ite _ _ _))

theorem divHalfEven_of_up {n d : Nat} (h : RoundsUp n d) : divHalfEven n d = n / d + 1 := if_pos h

theorem divHalfEven_of_down {n d : Nat} (h : ¬ RoundsUp n d) : divHalfEven n d = n / d := if_neg h

/-- Rounding tells `x` and `n` apart as before exactly when `x` does not separate the two. -/
theorem le_rounded_iff {x n d : Nat} (hd : 0 < d) :
    (x ≤ divHalfEven n d * d ↔ x ≤ n) ↔ ¬ Separates x n d := by
  have hdiv := Nat.div_add_mod' n d
  have hmod := Nat.mod_lt n hd
  unfold Separates
  by_cases hup : RoundsUp n d
  · have hnext : n < (n / d + 1) * d := by
      rw [Nat.add_mul, Nat.one_mul]
      omega
    rw [if_pos hup, divHalfEven_of_up hup]
    generalize (n / d + 1) * d = rounded at hnext
    omega
  · have hbelow : n / d * d ≤ n := Nat.div_mul_le_self n d
    rw [if_neg hup, divHalfEven_of_down hup]
    generalize n / d * d = rounded at hbelow
    omega

/-- A number with no digit to drop is rounded to itself. -/
theorem not_separates_one (x n : Nat) : ¬ Separates x n 1 := by
  unfold Separates RoundsUp
  simp [Nat.mod_one]

/-! ## The allowance -/

/-- The unit of the last digit that is kept of a product. -/
def keptUnit (product : Nat) : Nat := 10 ^ ((Nat.toDigits 10 product).length - decimalPrecision)

theorem keptUnit_pos (product : Nat) : 0 < keptUnit product := Nat.pow_pos (by decide)

namespace Tolerance

/-- The rational number that a tolerance is. -/
def value (tolerance : Tolerance) : ℚ := tolerance.coefficient / 10 ^ tolerance.scale

theorem floor_mul_value (expected : Nat) (tolerance : Tolerance) :
    ⌊(expected : ℚ) * tolerance.value⌋ =
      (expected * tolerance.coefficient / 10 ^ tolerance.scale : Nat) := by
  have hvalue : (expected : ℚ) * tolerance.value =
      ((expected * tolerance.coefficient : Nat) : ℚ) / ((10 ^ tolerance.scale : Nat) : ℚ) := by
    rw [value]
    push_cast
    ring
  rw [hvalue, Rat.floor_natCast_div_natCast, Int.natCast_ediv]

end Tolerance

theorem toleranceAllowance_natCast (expected : Nat) (tolerance : Tolerance) :
    toleranceAllowance expected tolerance =
      (divHalfEven (expected * tolerance.coefficient) (keptUnit (expected * tolerance.coefficient)) *
        keptUnit (expected * tolerance.coefficient) / 10 ^ tolerance.scale : Nat) := by
  unfold toleranceAllowance
  dsimp only
  rw [if_neg (by omega), Int.natAbs_natCast]
  rfl

section Allowance

variable (observed expected : Nat) (tolerance : Tolerance)

/-- The distance of the sum from the supply, in the units of the product. -/
def scaledDistance : Nat := ((observed : Int) - expected).natAbs * 10 ^ tolerance.scale

/-- The distance lies between the product and the product as it is rounded. -/
def RoundedAcross : Prop :=
  Separates (scaledDistance observed expected tolerance) (expected * tolerance.coefficient)
    (keptUnit (expected * tolerance.coefficient))

theorem within_iff_le_rounded : holderSumWithinTolerance observed expected tolerance = true ↔
    scaledDistance observed expected tolerance ≤
      divHalfEven (expected * tolerance.coefficient) (keptUnit (expected * tolerance.coefficient)) *
        keptUnit (expected * tolerance.coefficient) := by
  unfold holderSumWithinTolerance scaledDistance
  rw [toleranceAllowance_natCast, decide_eq_true_eq, Int.ofNat_le,
    Nat.le_div_iff_mul_le (Nat.pow_pos (by decide))]

theorem le_floor_iff_le_product :
    |(observed : Int) - expected| ≤ ⌊(expected : ℚ) * tolerance.value⌋ ↔
      scaledDistance observed expected tolerance ≤ expected * tolerance.coefficient := by
  unfold scaledDistance
  rw [Tolerance.floor_mul_value, Int.abs_eq_natAbs, Int.ofNat_le,
    Nat.le_div_iff_mul_le (Nat.pow_pos (by decide))]

/-- The check is exact on exactly the sums that rounding does not separate from the product. -/
theorem within_tolerance_exact_iff :
    (holderSumWithinTolerance observed expected tolerance = true ↔
      |(observed : Int) - expected| ≤ ⌊(expected : ℚ) * tolerance.value⌋) ↔
        ¬ RoundedAcross observed expected tolerance := by
  rw [within_iff_le_rounded, le_floor_iff_le_product]
  exact le_rounded_iff (keptUnit_pos _)

/-- A supply just below a unit of the tolerance: 29 nines, and a thousandth of them. -/
theorem within_tolerance_rounded_up :
    holderSumWithinTolerance (10 ^ 29 - 1 - 10 ^ 26 : Nat) (10 ^ 29 - 1 : Nat) ⟨1, 3⟩ = true ∧
      ¬ |((10 ^ 29 - 1 - 10 ^ 26 : Nat) : Int) - (10 ^ 29 - 1 : Nat)| ≤
        ⌊((10 ^ 29 - 1 : Nat) : ℚ) * (Tolerance.mk 1 3).value⌋ ∧ 10 ^ 29 - 1 < 2 ^ 256 := by
  refine ⟨by decide +kernel, ?_, by decide⟩
  rw [le_floor_iff_le_product]
  decide +kernel

variable {expected tolerance}

/-- A product of at most as many digits as a decimal keeps is not rounded. -/
theorem within_tolerance_of_short
    (h : (Nat.toDigits 10 (expected * tolerance.coefficient)).length ≤ decimalPrecision) :
    holderSumWithinTolerance observed expected tolerance = true ↔
      |(observed : Int) - expected| ≤ ⌊(expected : ℚ) * tolerance.value⌋ := by
  rw [within_iff_le_rounded, le_floor_iff_le_product]
  refine (le_rounded_iff (keptUnit_pos _)).mpr ?_
  rw [keptUnit, Nat.sub_eq_zero_of_le h, Nat.pow_zero]
  exact not_separates_one _ _

end Allowance

end RpcStateIndexer
