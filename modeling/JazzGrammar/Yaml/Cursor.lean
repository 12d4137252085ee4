/-
Places in a YAML text, and the character classes of YAML.
-/

import JazzGrammar.Text

namespace JazzGrammar.Yaml

def isBreak (char : Char) : Bool :=
  char == '\n' || char == '\r' || char == '\u0085' || char == '\u2028' || char == '\u2029'

def isBlank (char : Char) : Bool :=
  char == ' ' || char == '\t'

/-- What follows a token in the plain sense: a blank, a break or the end of the text. -/
def endsWord : Option Char → Bool
  | none => true
  | some char => isBlank char || isBreak char

/-- The letters of names. -/
def isNameChar (char : Char) : Bool :=
  char.isAlphanum || char == '_' || char == '-'

/-- The indicators of flow collections. -/
def isFlowIndicator (char : Char) : Bool :=
  char == ',' || char == '[' || char == ']' || char == '\x7b' || char == '\x7d'

def byteOrderMark : Char := '\ufeff'

/-- The characters that may stand in a text at all. -/
def isPrintable (char : Char) : Bool :=
  let code := char.toNat
  code == 0x09 || code == 0x0A || code == 0x0D || (0x20 ≤ code && code ≤ 0x7E) || code == 0x85 ||
    (0xA0 ≤ code && code ≤ 0xD7FF) || (0xE000 ≤ code && code ≤ 0xFFFD) || 0x10000 ≤ code

/-- A place in a text: what is left, the number of characters before it, its line and column. -/
structure Cursor where
  rest : Text
  index : Nat
  line : Nat
  column : Nat

namespace Cursor

def ofText (text : Text) : Cursor :=
  ⟨text, 0, 0, 0⟩

def head? (cursor : Cursor) : Option Char :=
  cursor.rest.head?

/-- The character a distance ahead. -/
def ahead? (cursor : Cursor) (distance : Nat) : Option Char :=
  cursor.rest[distance]?

/-- Moving on in the same line. -/
def advance (cursor : Cursor) (count : Nat) : Cursor :=
  ⟨cursor.rest.drop count, cursor.index + count, cursor.line, cursor.column + count⟩

/-- The leading characters of a class, which holds no breaks, and the place behind them. -/
def takeWhile (cursor : Cursor) (inClass : Char → Bool) : Text × Cursor :=
  let taken := cursor.rest.takeWhile inClass
  (taken, cursor.advance taken.length)

def skipWhile (cursor : Cursor) (inClass : Char → Bool) : Cursor :=
  (cursor.takeWhile inClass).2

def atBreak (cursor : Cursor) : Bool :=
  cursor.head?.any isBreak

def atBlank (cursor : Cursor) : Bool :=
  cursor.head?.any isBlank

/-- A carriage return and a line feed make one break. Breaks of ASCII and the next-line character
read as a line feed, the others as themselves. -/
def takeBreak (cursor : Cursor) : Text × Cursor :=
  match cursor.rest with
  | '\r' :: '\n' :: rest => (['\n'], ⟨rest, cursor.index + 2, cursor.line + 1, 0⟩)
  | char :: rest =>
    let shown := if char == '\u2028' || char == '\u2029' then char else '\n'
    ([shown], ⟨rest, cursor.index + 1, cursor.line + 1, 0⟩)
  | [] => ([], cursor)

/-- Three equal characters at the start of a line that stand alone. -/
def atMarker (cursor : Cursor) (char : Char) : Bool :=
  cursor.column == 0 && cursor.rest.take 3 == List.replicate 3 char &&
    endsWord (cursor.ahead? 3)

/-- The start or the end of a document. -/
def atDocumentMarker (cursor : Cursor) : Bool :=
  cursor.atMarker '-' || cursor.atMarker '.'

end Cursor

end JazzGrammar.Yaml
