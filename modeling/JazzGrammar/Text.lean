/-
Texts are lists of characters. This file holds the blank characters and the ways a text is cut.
-/

namespace JazzGrammar

/-- A text is the list of its characters. -/
abbrev Text := List Char

namespace Text

/-- A character is blank exactly when it has the Unicode property White_Space. -/
def isBlank (char : Char) : Bool :=
  let code := char.toNat
  (0x09 ≤ code && code ≤ 0x0D) || code == 0x20 || code == 0x85 || code == 0xA0 ||
    code == 0x1680 || (0x2000 ≤ code && code ≤ 0x200A) || code == 0x2028 || code == 0x2029 ||
    code == 0x202F || code == 0x205F || code == 0x3000

/-- Whether a text holds no other characters than blanks. -/
def allBlank (text : Text) : Bool :=
  text.all isBlank

def trimStart (text : Text) : Text :=
  text.dropWhile isBlank

def trimEnd (text : Text) : Text :=
  (text.reverse.dropWhile isBlank).reverse

/-- Trimming removes the blanks at both ends and keeps those inside. -/
def trim (text : Text) : Text :=
  trimEnd (trimStart text)

/-- The part before the first separator and the part after it. -/
def cutFirst? (separator : Char) (text : Text) : Option (Text × Text) :=
  match text.dropWhile (· != separator) with
  | [] => none
  | _ :: after => some (text.takeWhile (· != separator), after)

/-- The part before the last separator and the part after it. -/
def cutLast? (separator : Char) (text : Text) : Option (Text × Text) :=
  (cutFirst? separator text.reverse).map fun (after, before) => (before.reverse, after.reverse)

/-- Joining writes the separator between neighbours only. -/
def join (separator : Text) (parts : List Text) : Text :=
  separator.intercalate parts

end Text

end JazzGrammar
