/-
Finite binary floating-point numbers of 64 bits, kept as exact dyadic fractions.
-/

namespace JazzGrammar

/-- The magnitude is the significand times two to the exponent. -/
structure Binary64 where
  negative : Bool
  significand : Nat
  exponent : Int
deriving DecidableEq

namespace Binary64

/-- The least exponent of a significand, shared by the subnormal numbers. -/
def leastExponent : Int := -1074

/-- The greatest exponent of a finite number. -/
def greatestExponent : Int := 971

/-- A significand has at most 53 bits. -/
def significandBound : Nat := 9007199254740992

/-- The quotient rounded to the nearest whole number, a half to the even neighbour. -/
def roundQuotient (numerator denominator : Nat) : Nat :=
  let quotient := numerator / denominator
  let doubled := 2 * (numerator % denominator)
  if denominator < doubled || (doubled == denominator && quotient % 2 == 1) then
    quotient + 1
  else
    quotient

/-- The quotient over a power of two, as numerator and denominator. -/
def scaleDown (numerator denominator : Nat) (exponent : Int) : Nat × Nat :=
  if exponent < 0 then (numerator <<< exponent.natAbs, denominator)
  else (numerator, denominator <<< exponent.natAbs)

/-- The exponent that gives the quotient a significand of full length, where the range allows. -/
def exponentOf (numerator denominator : Nat) : Int :=
  let guess : Int := (numerator.log2 : Int) - denominator.log2 - 53
  let (scaled, unit) := scaleDown numerator denominator guess
  max leastExponent (if significandBound * unit ≤ scaled then guess + 1 else guess)

/-- The nearest number to a quotient, or nothing when it lies past the greatest one. -/
def ofQuotient? (numerator denominator : Nat) : Option Binary64 :=
  if numerator = 0 then
    some ⟨false, 0, leastExponent⟩
  else
    let exponent := exponentOf numerator denominator
    let (scaled, unit) := scaleDown numerator denominator exponent
    let rounded := roundQuotient scaled unit
    let result : Binary64 :=
      if rounded = significandBound then ⟨false, rounded / 2, exponent + 1⟩
      else ⟨false, rounded, exponent⟩
    if greatestExponent < result.exponent then none else some result

/-- The magnitude as numerator and denominator. -/
def quotient (number : Binary64) : Nat × Nat :=
  scaleDown number.significand 1 (-number.exponent)

/-- The nearest number to a product of magnitudes. -/
def multiply? (left right : Binary64) : Option Binary64 :=
  ofQuotient? (left.quotient.1 * right.quotient.1) (left.quotient.2 * right.quotient.2)

/-- The nearest number to a quotient of magnitudes. -/
def divide? (left right : Binary64) : Option Binary64 :=
  ofQuotient? (left.quotient.1 * right.quotient.2) (left.quotient.2 * right.quotient.1)

/-- The nearest number to a power of ten. -/
def powerOfTen? (exponent : Nat) : Option Binary64 :=
  ofQuotient? (Nat.pow 10 exponent) 1

end Binary64

end JazzGrammar
