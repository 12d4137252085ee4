/-
Writing JSON values over several lines.
-/

import JazzGrammar.Json.Value

namespace JazzGrammar.Json

/-- The letter of an escape, for the control characters that have one. -/
def escapeLetter? (char : Char) : Option Char :=
  if char == '"' then some '"'
  else if char == '\\' then some '\\'
  else if char == '\x08' then some 'b'
  else if char == '\x0c' then some 'f'
  else if char == '\n' then some 'n'
  else if char == '\r' then some 'r'
  else if char == '\t' then some 't'
  else none

/-- Four hexadecimal digits of a code unit, in lower case. -/
def writeUnit (unit : Nat) : Text :=
  let digits := Nat.toDigits 16 unit
  List.replicate (4 - digits.length) '0' ++ digits

/-- Quotes, backslashes and control characters are escaped and no others. -/
def writeChar (char : Char) : Text :=
  match escapeLetter? char with
  | some letter => ['\\', letter]
  | none => if char.toNat < 0x20 then '\\' :: 'u' :: writeUnit char.toNat else [char]

def writeText (text : Text) : Text :=
  '"' :: text.flatMap writeChar ++ ['"']

/-- A new line with an indentation of two blanks a level. -/
def newLine (level : Nat) : Text :=
  '\n' :: List.replicate (2 * level) ' '

mutual

/-- Items and members stand on lines of their own; an empty array or object is written without a
line break. -/
def Value.write (level : Nat) : Value → Text
  | .null => ['n', 'u', 'l', 'l']
  | .boolean true => ['t', 'r', 'u', 'e']
  | .boolean false => ['f', 'a', 'l', 's', 'e']
  | .number number => number.write
  | .text text => writeText text
  | .array [] => ['[', ']']
  | .array (first :: rest) =>
    '[' :: newLine (level + 1) ++ first.write (level + 1) ++ writeItems (level + 1) rest ++
      newLine level ++ [']']
  | .object [] => ['\x7b', '\x7d']
  | .object ((key, first) :: rest) =>
    '\x7b' :: newLine (level + 1) ++ writeText key ++ [':', ' '] ++ first.write (level + 1) ++
      writeMembers (level + 1) rest ++ newLine level ++ ['\x7d']

/-- The items behind the first one. -/
def writeItems (level : Nat) : List Value → Text
  | [] => []
  | item :: rest => ',' :: newLine level ++ item.write level ++ writeItems level rest

/-- The members behind the first one. -/
def writeMembers (level : Nat) : List (Text × Value) → Text
  | [] => []
  | (key, value) :: rest =>
    ',' :: newLine level ++ writeText key ++ [':', ' '] ++ value.write level ++
      writeMembers level rest

end

/-- A whole number as a value. -/
def Value.ofNat (number : Nat) : Value :=
  .number (.whole number)

/-- A list of texts as a value. -/
def Value.ofTexts (texts : List Text) : Value :=
  .array (texts.map .text)

end JazzGrammar.Json
