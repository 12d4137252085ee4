/-
Reading JSON text.
-/

import JazzGrammar.Json.Value

namespace JazzGrammar.Json

/-- White space between tokens. -/
def isSpace (char : Char) : Bool :=
  char == ' ' || char == '\n' || char == '\r' || char == '\t'

def skipSpace (text : Text) : Text :=
  text.dropWhile isSpace

/-- The greatest significand that is kept while digits are read. -/
def significandLimit : Nat := 18446744073709551615

/-- Digits are taken into a significand as long as it keeps below its limit. The result is the
significand and the digits left out. -/
def absorb (significand : Nat) : Text → Nat × Text
  | [] => (significand, [])
  | digit :: rest =>
    let extended := 10 * significand + (digit.toNat - '0'.toNat)
    if extended ≤ significandLimit then absorb extended rest else (significand, digit :: rest)

/-- A significand times a power of ten, rounded after each of its operations: the significand, the
power and the product. A power below the range of the format takes two divisions. -/
def scale? (significand : Nat) (power : Int) : Option Binary64 := do
  let start ← Binary64.ofQuotient? significand 1
  if 308 < power then
    if significand = 0 then some start else none
  else if 0 ≤ power then
    start.multiply? (← Binary64.powerOfTen? power.natAbs)
  else if -308 ≤ power then
    start.divide? (← Binary64.powerOfTen? power.natAbs)
  else if -616 ≤ power then
    let reduced ← start.divide? (← Binary64.powerOfTen? 308)
    reduced.divide? (← Binary64.powerOfTen? (power + 308).natAbs)
  else
    Binary64.ofQuotient? 0 1

/-- The parts of a number literal; a part that is absent is `none`. -/
structure Literal where
  negative : Bool
  whole : Text
  fraction : Option Text
  power : Option Int

/-- A literal without fraction and exponent that fits 64 bits stays whole, except minus zero. -/
def Literal.value? (literal : Literal) : Option Number :=
  let (start, excess) := absorb 0 literal.whole
  let stays := excess.isEmpty && literal.fraction.isNone && literal.power.isNone &&
    (!literal.negative || (start ≠ 0 && start ≤ 9223372036854775808))
  if stays then
    some (.whole (if literal.negative then -(start : Int) else start))
  else
    let fraction := literal.fraction.getD []
    let (significand, ignored) := absorb start fraction
    let power : Int := literal.power.getD 0 + excess.length - (fraction.length - ignored.length)
    (scale? significand power).map fun magnitude =>
      .rounded { magnitude with negative := literal.negative }

/-- Digits at the start of a text. At least one is required. -/
def readDigits? (text : Text) : Option (Text × Text) :=
  let digits := text.takeWhile Char.isDigit
  if digits.isEmpty then none else some (digits, text.dropWhile Char.isDigit)

/-- Digits of the whole part, without a leading zero in front of others. -/
def readWhole? (text : Text) : Option (Text × Text) := do
  let (digits, rest) ← readDigits? text
  if digits.head? = some '0' && 1 < digits.length then none else some (digits, rest)

/-- An optional fraction behind a point. -/
def readFraction? : Text → Option (Option Text × Text)
  | '.' :: rest => (readDigits? rest).map fun (digits, rest) => (some digits, rest)
  | text => some (none, text)

/-- An optional exponent behind the letter `e`. -/
def readPower? : Text → Option (Option Int × Text)
  | char :: rest =>
    if char == 'e' || char == 'E' then do
      let (negative, unsigned) := Decimal.splitSign rest
      let (digits, rest) ← readDigits? unsigned
      let magnitude := Nat.ofDigitChars 10 digits 0
      some (some (if negative then -(magnitude : Int) else magnitude), rest)
    else
      some (none, char :: rest)
  | [] => some (none, [])

def readNumber? (text : Text) : Option (Number × Text) := do
  let (negative, unsigned) := match text with
    | '-' :: rest => (true, rest)
    | text => (false, text)
  let (whole, rest) ← readWhole? unsigned
  let (fraction, rest) ← readFraction? rest
  let (power, rest) ← readPower? rest
  let number ← Literal.value? ⟨negative, whole, fraction, power⟩
  some (number, rest)

/-- The value of a hexadecimal digit. -/
def hexDigit? (char : Char) : Option Nat :=
  if char.isDigit then some (char.toNat - '0'.toNat)
  else if 'a' ≤ char && char ≤ 'f' then some (char.toNat - 'a'.toNat + 10)
  else if 'A' ≤ char && char ≤ 'F' then some (char.toNat - 'A'.toNat + 10)
  else none

/-- The value of a string of hexadecimal digits. -/
def hexNumber? (digits : Text) : Option Nat :=
  digits.foldl (fun value digit => do some (16 * (← value) + (← hexDigit? digit))) (some 0)

/-- The character of an escape of one letter. -/
def simpleEscape? : Char → Option Char
  | '"' => some '"'
  | '\\' => some '\\'
  | '/' => some '/'
  | 'b' => some '\x08'
  | 'f' => some '\x0c'
  | 'n' => some '\n'
  | 'r' => some '\r'
  | 't' => some '\t'
  | _ => none

/-- The character of two code units, a leading and a trailing surrogate. -/
def surrogatePair? (leading trailing : Nat) : Option Char :=
  if 0xD800 ≤ leading && leading < 0xDC00 && 0xDC00 ≤ trailing && trailing < 0xE000 then
    some (Char.ofNat (0x10000 + (leading - 0xD800) * 0x400 + (trailing - 0xDC00)))
  else
    none

/-- The character of one code unit that is no surrogate. -/
def codeUnit? (unit : Nat) : Option Char :=
  if 0xD800 ≤ unit && unit < 0xE000 then none else some (Char.ofNat unit)

/-- The rest of a string behind its opening quote. A surrogate is read with its partner. -/
def readString? : Text → Option (Text × Text)
  | '"' :: rest => some ([], rest)
  | '\\' :: 'u' :: a :: b :: c :: d :: rest => do
    let unit ← hexNumber? [a, b, c, d]
    match codeUnit? unit with
    | some char =>
      let (chars, rest) ← readString? rest
      some (char :: chars, rest)
    | none =>
      match rest with
      | '\\' :: 'u' :: e :: f :: g :: h :: rest =>
        let char ← surrogatePair? unit (← hexNumber? [e, f, g, h])
        let (chars, rest) ← readString? rest
        some (char :: chars, rest)
      | _ => none
  | '\\' :: letter :: rest => do
    let char ← simpleEscape? letter
    let (chars, rest) ← readString? rest
    some (char :: chars, rest)
  | char :: rest => do
    if char == '\\' || char.toNat < 0x20 then none
    let (chars, rest) ← readString? rest
    some (char :: chars, rest)
  | [] => none

mutual

/-- A value at the start of a text, with the text behind it. Arrays and objects are nested no
deeper than the given depth. -/
def readValue? : Nat → Nat → Text → Option (Value × Text)
  | 0, _, _ => none
  | fuel + 1, depth, text =>
    match skipSpace text with
    | 'n' :: 'u' :: 'l' :: 'l' :: rest => some (.null, rest)
    | 't' :: 'r' :: 'u' :: 'e' :: rest => some (.boolean true, rest)
    | 'f' :: 'a' :: 'l' :: 's' :: 'e' :: rest => some (.boolean false, rest)
    | '"' :: rest => (readString? rest).map fun (chars, rest) => (.text chars, rest)
    | '[' :: rest =>
      if depth = 0 then none
      else match skipSpace rest with
        | ']' :: rest => some (.array [], rest)
        | rest => (readItems? fuel (depth - 1) rest).map fun (items, rest) => (.array items, rest)
    | '\x7b' :: rest =>
      if depth = 0 then none
      else match skipSpace rest with
        | '\x7d' :: rest => some (.object [], rest)
        | rest =>
          (readMembers? fuel (depth - 1) rest).map fun (members, rest) => (.object members, rest)
    | rest => (readNumber? rest).map fun (number, rest) => (.number number, rest)

/-- The items of an array up to its closing bracket. -/
def readItems? : Nat → Nat → Text → Option (List Value × Text)
  | 0, _, _ => none
  | fuel + 1, depth, text => do
    let (value, rest) ← readValue? fuel depth text
    match skipSpace rest with
    | ',' :: rest =>
      let (items, rest) ← readItems? fuel depth rest
      some (value :: items, rest)
    | ']' :: rest => some ([value], rest)
    | _ => none

/-- The members of an object up to its closing brace. -/
def readMembers? : Nat → Nat → Text → Option (List (Text × Value) × Text)
  | 0, _, _ => none
  | fuel + 1, depth, text =>
    match skipSpace text with
    | '"' :: rest => do
      let (key, rest) ← readString? rest
      match skipSpace rest with
      | ':' :: rest =>
        let (value, rest) ← readValue? fuel depth rest
        match skipSpace rest with
        | ',' :: rest =>
          let (members, rest) ← readMembers? fuel depth rest
          some ((key, value) :: members, rest)
        | '\x7d' :: rest => some ([(key, value)], rest)
        | _ => none
      | _ => none
    | _ => none

end

/-- Arrays and objects may be nested this deep. -/
def nestingLimit : Nat := 127

/-- A whole text holds one value and nothing behind it but white space. -/
def read? (text : Text) : Option Value := do
  let (value, rest) ← readValue? (2 * text.length + 2) nestingLimit text
  if (skipSpace rest).isEmpty then some value else none

end JazzGrammar.Json
