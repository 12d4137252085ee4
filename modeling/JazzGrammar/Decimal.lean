/-
Decimal digit strings of natural numbers.
-/

import JazzGrammar.Text

namespace JazzGrammar.Decimal

/-- A number is written with the fewest digits, and zero as one digit. -/
def write (number : Nat) : Text :=
  Nat.toDigits 10 number

/-- A negative number carries a minus sign. -/
def writeSigned (number : Int) : Text :=
  if number < 0 then '-' :: write number.natAbs else write number.natAbs

/-- A digit string is not empty and holds ASCII digits only; leading zeros are allowed. -/
def read? (text : Text) : Option Nat :=
  if !text.isEmpty && text.all Char.isDigit then some (Nat.ofDigitChars 10 text 0) else none

/-- One optional sign in front of a text: whether it is a minus, and the rest. -/
def splitSign : Text → Bool × Text
  | '-' :: rest => (true, rest)
  | '+' :: rest => (false, rest)
  | text => (false, text)

/-- A digit string with an optional sign. -/
def readSigned? (text : Text) : Option Int :=
  let (negative, digits) := splitSign text
  (read? digits).map fun magnitude => if negative then -(magnitude : Int) else magnitude

theorem read_write (number : Nat) : read? (write number) = some number := by
  have digits : (write number).all Char.isDigit = true :=
    List.all_eq_true.2 fun _ member => Nat.isDigit_of_mem_toDigits (by decide) (by decide) member
  have nonempty : (write number).isEmpty = false := by
    cases shape : write number with
    | nil => simp [write] at shape
    | cons => rfl
  rw [read?, if_pos (by simp [digits, nonempty])]
  exact congrArg some (Nat.ofDigitChars_toDigits (by decide) (by decide))

end JazzGrammar.Decimal
