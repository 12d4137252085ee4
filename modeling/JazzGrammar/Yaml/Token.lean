/-
Tokens of a YAML text that holds one mapping of scalars. Sequences and nested collections have no
tokens, and a text with them is refused.
-/

import JazzGrammar.Yaml.Scalar
import JazzGrammar.Yaml.Tag

namespace JazzGrammar.Yaml

inductive Token where
  | version
  | tagHandle (handle : Text) (base : Octets)
  | documentStart
  | documentEnd
  | mappingStart
  | mappingEnd
  | flowStart
  | flowEnd
  | flowEntry
  | key
  | value
  | anchor (name : Text)
  | reference (name : Text)
  | tag (handle : Text) (suffix : Octets)
  | scalar (text : Text) (style : Style)
deriving DecidableEq

/-- A place where a key may have started, with the number of tokens before it. A key in front of a
block mapping is required to end as one. -/
structure Candidate where
  position : Nat
  index : Nat
  line : Nat
  column : Nat
  required : Bool

/-- The state of a scan: the open block mapping is known by its column, and tokens stand latest
first. -/
structure Scan where
  cursor : Cursor
  inFlow : Bool
  indent : Option Nat
  keyAllowed : Bool
  candidate : Option Candidate
  tokens : List Token

namespace Cursor

/-- The name of an anchor. -/
def anchorName? (cursor : Cursor) : Option (Text × Cursor) :=
  let (name, behind) := (cursor.advance 1).takeWhile isNameChar
  let ends := endsWord behind.head? ||
    behind.head?.any fun char => ['?', ':', ',', ']', '\x7d', '%', '@'].contains char ||
      char.toNat == 0x60
  if name.isEmpty || !ends then none else some (name, behind)

/-- A number of a version has at most nine digits. -/
def versionNumber? (cursor : Cursor) : Option (Nat × Cursor) :=
  let (digits, behind) := cursor.takeWhile Char.isDigit
  if digits.isEmpty || 9 < digits.length then none
  else some (Nat.ofDigitChars 10 digits 0, behind)

/-- A directive of a known name. Versions 1.1 and 1.2 are read. -/
def directive? (cursor : Cursor) : Option (Token × Cursor) := do
  let (name, behind) := (cursor.advance 1).takeWhile isNameChar
  if !endsWord behind.head? then none
  let start := behind.skipWhile isBlank
  let (token, behind) ←
    if name = ['Y', 'A', 'M', 'L'] then do
      let (major, behind) ← start.versionNumber?
      if behind.head? ≠ some '.' then none
      let (minor, behind) ← (behind.advance 1).versionNumber?
      if major = 1 && (minor = 1 || minor = 2) then some (Token.version, behind) else none
    else if name = ['T', 'A', 'G'] then do
      let (handle, behind) ← start.handle?
      if handle ≠ ['!'] && handle.getLast? ≠ some '!' then none
      if !behind.atBlank then none
      let (base, behind) ← (behind.skipWhile isBlank).address? isBracketedChar false
      if endsWord behind.head? then some (Token.tagHandle handle base, behind) else none
    else none
  let next ← behind.endLine?
  some (token, next)

end Cursor

namespace Scan

def start (text : Text) : Scan :=
  ⟨.ofText text, false, none, true, none, []⟩

def push (scan : Scan) (token : Token) : Scan :=
  { scan with tokens := token :: scan.tokens }

/-- The candidate is given up, unless its key is required. -/
def dropCandidate? (scan : Scan) : Option Scan :=
  if scan.candidate.any Candidate.required then none else some { scan with candidate := none }

/-- A key may start here. -/
def saveCandidate? (scan : Scan) : Option Scan :=
  if scan.keyAllowed then do
    let cursor := scan.cursor
    let required := !scan.inFlow && scan.indent == some cursor.column
    let scan ← scan.dropCandidate?
    let candidate : Candidate :=
      ⟨scan.tokens.length, cursor.index, cursor.line, cursor.column, required⟩
    some { scan with candidate := some candidate }
  else some scan

/-- A key stands on one line and has at most 1024 characters. -/
def dropStale? (scan : Scan) : Option Scan :=
  match scan.candidate with
  | some candidate =>
    if candidate.line < scan.cursor.line || candidate.index + 1024 < scan.cursor.index then
      scan.dropCandidate?
    else some scan
  | none => some scan

/-- The block mapping ends in front of a column to its left. -/
def closeMapping (scan : Scan) (column : Option Nat) : Scan :=
  match scan.indent with
  | some indent =>
    if !scan.inFlow && column.all (· < indent) then { scan.push .mappingEnd with indent := none }
    else scan
  | none => scan

/-- A key in a block opens the mapping at its column. No mapping is nested in another one. -/
def openMapping? (scan : Scan) (column position : Nat) : Option Scan :=
  if scan.inFlow then some scan
  else match scan.indent with
    | none =>
      let place := scan.tokens.length - position
      some { scan with indent := some column, tokens := scan.tokens.insertIdx place .mappingStart }
    | some indent => if indent < column then none else some scan

/-- Blanks, comments and line breaks up to the next token. A new line of a block may start with a
key, and then a tab is no blank. A byte order mark at the start of a line is passed over and takes
up a column. -/
def skipGap : Nat → Scan → Scan
  | 0, scan => scan
  | fuel + 1, scan =>
    let cursor := scan.cursor
    let cursor :=
      if cursor.column == 0 && cursor.head? = some byteOrderMark then cursor.advance 1 else cursor
    let tabs := scan.inFlow || !scan.keyAllowed
    let cursor := cursor.skipWhile fun char => char == ' ' || (tabs && char == '\t')
    let cursor := if cursor.head? = some '#' then cursor.skipWhile (!isBreak ·) else cursor
    if cursor.atBreak then
      skipGap fuel { scan with
        cursor := cursor.takeBreak.2, keyAllowed := scan.keyAllowed || !scan.inFlow }
    else { scan with cursor }

/-- A token that may be a key or stand in front of one. -/
def keyToken (scan : Scan) (token : Token) (cursor : Cursor) (keyAllowed : Bool) : Option Scan := do
  let scan ← scan.saveCandidate?
  some { scan.push token with cursor, keyAllowed }

/-- A colon ends the key of the candidate, or stands for itself where a key may start. -/
def colon? (scan : Scan) : Option Scan := do
  let scan ←
    match scan.candidate with
    | some candidate => do
      let place := scan.tokens.length - candidate.position
      let keyed : Scan := { scan with tokens := scan.tokens.insertIdx place .key }
      let opened ← keyed.openMapping? candidate.column candidate.position
      some { opened with candidate := none, keyAllowed := false }
    | none =>
      if !scan.inFlow && !scan.keyAllowed then none
      else do
        let opened ← scan.openMapping? scan.cursor.column scan.tokens.length
        some { opened with keyAllowed := !scan.inFlow }
  some { scan.push .value with cursor := scan.cursor.advance 1 }

/-- A question mark starts a key that needs no candidate. -/
def question? (scan : Scan) : Option Scan :=
  if !scan.inFlow && !scan.keyAllowed then none
  else do
    let opened ← scan.openMapping? scan.cursor.column scan.tokens.length
    let scan ← opened.dropCandidate?
    some { scan.push .key with keyAllowed := !scan.inFlow, cursor := scan.cursor.advance 1 }

/-- A directive or a document marker ends the document before it. -/
def betweenDocuments? (scan : Scan) (token : Token) (cursor : Cursor) : Option Scan := do
  let scan ← (scan.closeMapping none).dropCandidate?
  some { scan.push token with cursor, keyAllowed := false }

/-- Whether a plain scalar may start here. -/
def startsPlain (scan : Scan) (char : Char) : Bool :=
  let next := scan.cursor.ahead? 1
  let indicators := ['-', '?', ':', ',', '[', ']', '\x7b', '\x7d', '#', '&', '*', '!', '|', '>',
    '\'', '"', '%', '@']
  (!endsWord (some char) && !indicators.contains char && char.toNat != 0x60) ||
    (char == '-' && !next.any isBlank) ||
    (!scan.inFlow && (char == '?' || char == ':') && !endsWord next)

/-- The first column of the lines that go on with a plain scalar. -/
def plainColumn (scan : Scan) : Nat :=
  match scan.indent with
  | some indent => indent + 1
  | none => 0

/-- The next token behind the gap, or nothing for a text that is refused. -/
def next? (scan : Scan) (char : Char) : Option Scan :=
  let cursor := scan.cursor
  let next := cursor.ahead? 1
  if cursor.column == 0 && char == '%' then do
    let (token, behind) ← cursor.directive?
    scan.betweenDocuments? token behind
  else if cursor.atMarker '-' then scan.betweenDocuments? .documentStart (cursor.advance 3)
  else if cursor.atMarker '.' then scan.betweenDocuments? .documentEnd (cursor.advance 3)
  else if char == '\x7b' then
    if scan.inFlow || scan.indent.isSome then none
    else some { scan.push .flowStart with
      inFlow := true, keyAllowed := true, candidate := none, cursor := cursor.advance 1 }
  else if char == '\x7d' then
    if !scan.inFlow then none
    else some { scan.push .flowEnd with
      inFlow := false, keyAllowed := false, candidate := none, cursor := cursor.advance 1 }
  else if char == ',' then do
    let scan ← scan.dropCandidate?
    some { scan.push .flowEntry with keyAllowed := true, cursor := cursor.advance 1 }
  else if char == '-' && endsWord next then none
  else if char == '?' && (scan.inFlow || endsWord next) then scan.question?
  else if char == ':' && (scan.inFlow || endsWord next) then scan.colon?
  else if char == '*' then do
    let (name, behind) ← cursor.anchorName?
    scan.keyToken (.reference name) behind false
  else if char == '&' then do
    let (name, behind) ← cursor.anchorName?
    scan.keyToken (.anchor name) behind false
  else if char == '!' then do
    let (handle, suffix, behind) ← cursor.tag? scan.inFlow
    scan.keyToken (.tag handle suffix) behind false
  else if (char == '|' || char == '>') && !scan.inFlow then do
    let scan ← scan.dropCandidate?
    let folded := char == '>'
    let (text, behind) ← (cursor.advance 1).block? folded scan.indent
    let token := Token.scalar text (if folded then .folded else .literal)
    some { scan.push token with cursor := behind, keyAllowed := true }
  else if char == '\'' || char == '"' then do
    let single := char == '\''
    let (text, behind) ← (cursor.advance 1).quoted? single (cursor.rest.length + 1) []
    scan.keyToken (.scalar text (if single then .singleQuoted else .doubleQuoted)) behind false
  else if scan.startsPlain char then do
    let (text, broken, behind) ←
      cursor.plain? scan.inFlow scan.plainColumn (cursor.rest.length + 1) [] .empty
    scan.keyToken (.scalar text .plain) behind broken
  else none

/-- All tokens up to the end of the text. -/
def run? : Nat → Scan → Option (List Token)
  | 0, _ => none
  | fuel + 1, scan => do
    let scan ← (scan.skipGap (scan.cursor.rest.length + 1)).dropStale?
    let scan := scan.closeMapping (some scan.cursor.column)
    match scan.cursor.head? with
    | some char => run? fuel (← scan.next? char)
    | none =>
      let scan ← (scan.closeMapping none).dropCandidate?
      some scan.tokens.reverse

end Scan

/-- The tokens of a text. -/
def tokens? (text : Text) : Option (List Token) :=
  if text.all isPrintable then (Scan.start text).run? (text.length + 1) else none

end JazzGrammar.Yaml
