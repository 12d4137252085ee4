/-
The shortest decimal text that reads back as a given floating-point number.
-/

import JazzGrammar.Binary64
import JazzGrammar.Decimal

namespace JazzGrammar.Binary64

/-- The magnitudes that round to a number lie between two bounds, counted in quarter units of its
last place. The lower bound is nearer below a power of two. -/
def roundingBounds (number : Binary64) : Nat × Nat :=
  let nearer := number.significand * 2 == significandBound && leastExponent < number.exponent
  (4 * number.significand - (if nearer then 1 else 2), 4 * number.significand + 2)

/-- Whether a decimal reads back as the number; the bounds belong to it when it is even. -/
def readsBack (number : Binary64) (digits : Nat) (power : Int) : Bool :=
  let (low, high) := number.roundingBounds
  let (unit, base) := scaleDown 4 1 number.exponent
  let (numerator, denominator) :=
    if power < 0 then (digits * unit, base * Nat.pow 10 power.natAbs)
    else (digits * Nat.pow 10 power.natAbs * unit, base)
  if number.significand % 2 == 0 then
    low * denominator ≤ numerator && numerator ≤ high * denominator
  else
    low * denominator < numerator && numerator < high * denominator

/-- The multiple of a power of ten that is nearest to the number among those that read back,
a half to the even digit. -/
def onGrid? (number : Binary64) (power : Int) : Option Nat :=
  let (numerator, denominator) := number.quotient
  let (scaled, unit) :=
    if power < 0 then (numerator * Nat.pow 10 power.natAbs, denominator)
    else (numerator, denominator * Nat.pow 10 power.natAbs)
  let nearest := roundQuotient scaled unit
  let below := scaled / unit
  [nearest, below, below + 1].find? fun digits => number.readsBack digits power

/-- The coarsest decimal grid that holds a text of the number, among the given powers of ten. -/
def coarsest (number : Binary64) : List Int → Nat × Int
  | [] => (0, 0)
  | power :: finer =>
    match number.onGrid? power with
    | some digits => (digits, power)
    | none => coarsest number finer

/-- The decimal with the fewest digits that reads back, as digits and a power of ten. -/
def shortest (number : Binary64) : Nat × Int :=
  number.coarsest ((List.range 634).map fun (step : Nat) => (309 : Int) - step)

/-- Decimals from a hundred-thousandth up to ten to the sixteenth are written positionally, the
others with an exponent; a whole number keeps one zero behind its point. -/
def writeMagnitude (digits : Text) (power : Int) : Text :=
  let point : Int := power + digits.length
  if 0 ≤ power && point ≤ 16 then
    digits ++ List.replicate power.natAbs '0' ++ ['.', '0']
  else if 0 < point && point ≤ 16 then
    digits.take point.natAbs ++ '.' :: digits.drop point.natAbs
  else if -5 < point && point ≤ 0 then
    '0' :: '.' :: List.replicate point.natAbs '0' ++ digits
  else
    let leading := digits.take 1
    let fraction := digits.drop 1
    leading ++ (if fraction.isEmpty then [] else '.' :: fraction) ++
      'e' :: Decimal.writeSigned (point - 1)

/-- The shortest text of a number. -/
def write (number : Binary64) : Text :=
  let magnitude :=
    if number.significand = 0 then ['0', '.', '0']
    else writeMagnitude (Decimal.write number.shortest.1) number.shortest.2
  if number.negative then '-' :: magnitude else magnitude

end JazzGrammar.Binary64
