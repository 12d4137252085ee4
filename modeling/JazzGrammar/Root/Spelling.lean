/-
Written roots: a run of accidental signs and a Roman numeral.
-/

import JazzGrammar.Root
import JazzGrammar.Fault

namespace JazzGrammar.Root

/-- The numeral of a degree in upper case. -/
def numeral : Fin 7 → Text
  | 0 => ['I']
  | 1 => ['I', 'I']
  | 2 => ['I', 'I', 'I']
  | 3 => ['I', 'V']
  | 4 => ['V']
  | 5 => ['V', 'I']
  | 6 => ['V', 'I', 'I']

def degrees : List (Fin 7) := [0, 1, 2, 3, 4, 5, 6]

/-- The degree of a numeral in upper case. -/
def degree? (text : Text) : Option (Fin 7) :=
  degrees.find? fun degree => numeral degree == text

/-- The numeral of a degree in lower case. -/
def lowerNumeral (degree : Fin 7) : Text :=
  (numeral degree).map Char.toLower

/-- The degree of a numeral in lower case. -/
def lowerDegree? (text : Text) : Option (Fin 7) :=
  degrees.find? fun degree => lowerNumeral degree == text

/-- Flats and sharps have an ASCII sign and one of their own. -/
def isFlat (char : Char) : Bool :=
  char == 'b' || char == '♭'

def isSharp (char : Char) : Bool :=
  char == '#' || char == '♯'

def isAccidental (char : Char) : Bool :=
  isFlat char || isSharp char

/-- The accidental of a run of signs: its sharps less its flats. -/
def accidentalOf (signs : Text) : Int :=
  (signs.countP isSharp : Int) - signs.countP isFlat

/-- The accidental in front of a text, and the text behind its signs. -/
def splitAccidental (text : Text) : Int × Text :=
  (accidentalOf (text.takeWhile isAccidental), text.dropWhile isAccidental)

def read (text : Text) : Except Fault Root :=
  let (accidental, rest) := splitAccidental text
  match degree? rest with
  | some degree => .ok ⟨degree, accidental⟩
  | none => .error (.root text)

/-- An accidental is written with one kind of sign only. -/
def writeAccidental (accidental : Int) : Text :=
  List.replicate accidental.natAbs (if 0 < accidental then '#' else 'b')

def write (root : Root) : Text :=
  writeAccidental root.accidental ++ numeral root.degree

end JazzGrammar.Root
