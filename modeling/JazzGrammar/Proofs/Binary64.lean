/-
The values of floating-point numbers, and that rounding keeps to the numbers of the format.
-/

import JazzGrammar.Json.Value
import JazzGrammar.Proofs.Literal
import Mathlib.Algebra.Order.Field.Power
import Mathlib.Data.Nat.Cast.Order.Field
import Mathlib.Tactic.Linarith
import Mathlib.Tactic.NormNum
import Mathlib.Tactic.Ring

namespace JazzGrammar

namespace Binary64

/-- A finite number keeps to the format: its significand has at most 53 bits and its exponent lies
in the range. -/
structure Finite (number : Binary64) : Prop where
  significand : number.significand < significandBound
  least : leastExponent ≤ number.exponent
  greatest : number.exponent ≤ greatestExponent

/-- The exact value. -/
def value (number : Binary64) : Rat :=
  Decimal.signed number.negative number.significand * 2 ^ number.exponent

section Rounding

variable {numerator denominator bound : Nat} {number : Binary64}

theorem zpow_of_neg {exponent : Int} (below : exponent < 0) (base : Rat) :
    base ^ exponent = (base ^ exponent.natAbs)⁻¹ := by
  have shape : exponent = -(exponent.natAbs : Int) := by omega
  conv_lhs => rw [shape]
  rw [zpow_neg, zpow_natCast]

theorem zpow_of_nonneg {exponent : Int} (above : ¬exponent < 0) (base : Rat) :
    base ^ exponent = base ^ exponent.natAbs := by
  have shape : exponent = (exponent.natAbs : Int) := by omega
  conv_lhs => rw [shape]
  rw [zpow_natCast]

/-- The quotient is divided by the power of two. -/
theorem scaleDown_div (numerator denominator : Nat) (exponent : Int) :
    ((scaleDown numerator denominator exponent).1 : Rat) /
      (scaleDown numerator denominator exponent).2 = numerator / denominator / 2 ^ exponent := by
  rw [scaleDown]
  split
  · rename_i below
    rw [zpow_of_neg below, div_inv_eq_mul, Nat.shiftLeft_eq]
    push_cast
    rw [mul_div_right_comm]
  · rename_i above
    rw [zpow_of_nonneg above, Nat.shiftLeft_eq]
    push_cast
    rw [div_div]

theorem scaleDown_positive (positive : 0 < denominator) (exponent : Int) :
    0 < (scaleDown numerator denominator exponent).2 := by
  rw [scaleDown]
  split
  · exact positive
  · rw [Nat.shiftLeft_eq]
    positivity

/-- A quotient is rounded to one of its neighbours. -/
theorem roundQuotient_le (less : (numerator : Rat) / denominator < bound) :
    roundQuotient numerator denominator ≤ bound := by
  have whole : ((numerator / denominator : Nat) : Rat) < bound :=
    lt_of_le_of_lt Nat.cast_div_le less
  have below : numerator / denominator < bound := by exact_mod_cast whole
  rw [roundQuotient]
  split <;> omega

/-- The logarithms bound a quotient by a power of two. -/
theorem div_lt_zpow_log2 (numerator denominator : Nat) :
    (numerator : Rat) / denominator < 2 ^ ((numerator.log2 : Int) + 1 - denominator.log2) := by
  have top : (numerator : Rat) < 2 ^ (numerator.log2 + 1) := by exact_mod_cast Nat.lt_log2_self
  by_cases zero : denominator = 0
  · rw [zero, Nat.cast_zero, div_zero]
    exact zpow_pos two_pos _
  · have positive : (0 : Rat) < 2 ^ denominator.log2 := by positivity
    have bottom : (2 : Rat) ^ denominator.log2 ≤ denominator := by
      exact_mod_cast Nat.log2_self_le zero
    calc (numerator : Rat) / denominator
        ≤ numerator / 2 ^ denominator.log2 :=
          div_le_div_of_nonneg_left (Nat.cast_nonneg _) positive bottom
      _ < 2 ^ (numerator.log2 + 1) / 2 ^ denominator.log2 :=
          div_lt_div_of_pos_right top positive
      _ = 2 ^ ((numerator.log2 : Int) + 1 - denominator.log2) := by
          rw [zpow_sub₀ two_ne_zero, ← Nat.cast_succ, zpow_natCast, zpow_natCast]

/-- The chosen exponent leaves a significand within its bound: one of the two that are tried does so,
and the greater one of it and the least exponent does as well. -/
theorem div_exponentOf_lt (numerator denominator : Nat) :
    (numerator : Rat) / denominator / 2 ^ exponentOf numerator denominator < significandBound := by
  have positive (exponent : Int) : (0 : Rat) < 2 ^ exponent := zpow_pos two_pos _
  have nonnegative : (0 : Rat) ≤ numerator / denominator := by positivity
  unfold exponentOf
  dsimp only
  generalize shape : ((numerator.log2 : Int) - denominator.log2 - 53) = guess
  have ratio := scaleDown_div numerator denominator guess
  generalize scaleDown numerator denominator guess = scaled at ratio
  suffices (numerator : Rat) / denominator / 2 ^
      (if significandBound * scaled.2 ≤ scaled.1 then guess + 1 else guess) < significandBound by
    refine lt_of_le_of_lt ?_ this
    apply div_le_div_of_nonneg_left nonnegative (positive _)
    exact zpow_le_zpow_right₀ one_le_two (le_max_right _ _)
  split
  · have upper := div_lt_zpow_log2 numerator denominator
    have size : (numerator.log2 : Int) + 1 - denominator.log2 = 53 + (guess + 1) := by omega
    rw [size, zpow_add₀ two_ne_zero] at upper
    rw [div_lt_iff₀ (positive _)]
    exact upper
  · rename_i small
    rw [not_le] at small
    have unit : (0 : Rat) < scaled.2 := by
      rw [Nat.cast_pos]
      by_contra zero
      simp [Nat.eq_zero_of_not_pos zero] at small
    rw [← ratio, div_lt_iff₀ unit]
    exact_mod_cast small

/-- What is rounded to the format keeps to it. A significand that was rounded up to its bound is
halved. -/
theorem finite_of_ofQuotient? (found : ofQuotient? numerator denominator = some number) :
    number.Finite := by
  rw [ofQuotient?] at found
  split at found
  · obtain rfl := Option.some.inj found
    exact ⟨by decide, by decide, by decide⟩
  · have least : leastExponent ≤ exponentOf numerator denominator := le_max_left _ _
    have ratio := scaleDown_div numerator denominator (exponentOf numerator denominator)
    have less := div_exponentOf_lt numerator denominator
    dsimp only at found
    generalize exponentOf numerator denominator = exponent at found least ratio less
    generalize scaleDown numerator denominator exponent = scaled at found ratio
    rw [← ratio] at less
    have within := roundQuotient_le less
    generalize roundQuotient scaled.1 scaled.2 = rounded at found within
    split at found
    · rename_i full
      split at found
      · contradiction
      · rename_i fits
        obtain rfl := Option.some.inj found
        have half : rounded / 2 < significandBound := by rw [full]; decide
        exact ⟨half, by dsimp only; omega, not_lt.1 fits⟩
    · rename_i short
      split at found
      · contradiction
      · rename_i fits
        obtain rfl := Option.some.inj found
        exact ⟨lt_of_le_of_ne within short, least, not_lt.1 fits⟩

end Rounding

end Binary64

end JazzGrammar
