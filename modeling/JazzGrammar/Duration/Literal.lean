/-
Written durations: whole numbers, fractions and decimals.
-/

import JazzGrammar.Duration

namespace JazzGrammar

/-- A whole number stands alone; any other one is a fraction in lowest terms. -/
def writeRat (value : Rat) : Text :=
  if value.den = 1 then Decimal.writeSigned value.num
  else Decimal.writeSigned value.num ++ '/' :: Decimal.write value.den

namespace Duration

def write (duration : Duration) : Text :=
  writeRat duration.value

/-- The greatest exponent of a decimal. -/
def exponentLimit : Nat := 4096

/-- A fraction: a whole number with an optional sign over digits that are not zero. -/
def fraction? (numerator denominator : Text) : Option Rat := do
  let above ← Decimal.readSigned? numerator.trim
  let below ← Decimal.read? denominator.trim
  if below = 0 then none else some (mkRat above below)

/-- The exponent behind the letter of a decimal. -/
def exponent? (text : Text) : Option Int := do
  let (negative, digits) := Decimal.splitSign text
  let magnitude ← Decimal.read? digits
  if exponentLimit < magnitude then none
  else some (if negative then -(magnitude : Int) else magnitude)

/-- The letter of an exponent. -/
def isExponentLetter (char : Char) : Bool :=
  char == 'e' || char == 'E'

/-- The mantissa of an unsigned decimal and its exponent. -/
def splitExponent? (text : Text) : Option (Text × Int) :=
  match text.dropWhile (!isExponentLetter ·) with
  | [] => some (text, 0)
  | _ :: rest => (exponent? rest).map fun power => (text.takeWhile (!isExponentLetter ·), power)

/-- A number times a power of ten. -/
def scaleByTen (number : Int) (power : Int) : Rat :=
  if power < 0 then mkRat number (Nat.pow 10 power.natAbs)
  else (number * Nat.pow 10 power.natAbs : Int)

/-- A decimal with an optional sign, an optional point and an optional exponent. -/
def decimal? (text : Text) : Option Rat := do
  let (negative, unsigned) := Decimal.splitSign text
  let (mantissa, power) ← splitExponent? unsigned
  let (whole, behind) := (mantissa.cutFirst? '.').getD (mantissa, [])
  let digits ← Decimal.read? (whole ++ behind)
  some (scaleByTen (if negative then -(digits : Int) else digits) (power - behind.length))

/-- A text with a slash is a fraction, any other one a decimal. -/
def literal? (text : Text) : Option Rat :=
  match text.cutFirst? '/' with
  | some (numerator, denominator) => fraction? numerator denominator
  | none => decimal? text

/-- Blanks around a literal are ignored. -/
def read (text : Text) : Except Fault Duration :=
  let literal := text.trim
  if literal.isEmpty then
    .error (.duration .empty)
  else
    match literal? literal with
    | some value => ofRat value
    | none => .error (.duration (.malformed literal))

/-- A duration in JSON is a number or the text of a literal. A number that is not whole stands for
its decimal text. -/
def ofJson : Json.Value → Except Fault Duration
  | .number (.whole value) => ofRat value
  | .number number => read number.write
  | .text literal => read literal
  | value => .error (.duration (.unsupported value.kind))

end Duration

end JazzGrammar
