/-
Scalars of YAML in their five styles.
-/

import JazzGrammar.Yaml.Cursor
import JazzGrammar.Json.Reader

namespace JazzGrammar.Yaml

inductive Style where
  | plain
  | singleQuoted
  | doubleQuoted
  | literal
  | folded
deriving DecidableEq

/-- The white space inside a scalar: blanks in the line, or the breaks when a line ends. -/
structure Gap where
  broken : Bool
  blanks : Text
  firstBreak : Text
  moreBreaks : Text

namespace Gap

def empty : Gap :=
  ⟨false, [], [], []⟩

/-- A single line break folds into a space, and one of several vanishes. -/
def fold (gap : Gap) : Text :=
  if !gap.broken then gap.blanks
  else if gap.firstBreak.head? = some '\n' then
    if gap.moreBreaks.isEmpty then [' '] else gap.moreBreaks
  else gap.firstBreak ++ gap.moreBreaks

end Gap

namespace Cursor

/-- The white space at a place. At the start of a line no tab may stand before the given column. -/
def takeGap? : Nat → Nat → Gap → Cursor → Option (Gap × Cursor)
  | 0, _, _, _ => none
  | fuel + 1, tabColumn, gap, cursor =>
    match cursor.head? with
    | some char =>
      if isBlank char then
        if gap.broken then
          if char == '\t' && cursor.column < tabColumn then none
          else takeGap? fuel tabColumn gap (cursor.advance 1)
        else
          takeGap? fuel tabColumn { gap with blanks := gap.blanks ++ [char] } (cursor.advance 1)
      else if isBreak char then
        let (shown, next) := cursor.takeBreak
        if gap.broken then
          takeGap? fuel tabColumn { gap with moreBreaks := gap.moreBreaks ++ shown } next
        else
          takeGap? fuel tabColumn ⟨true, [], shown, []⟩ next
      else some (gap, cursor)
    | none => some (gap, cursor)

/-- The part of a plain scalar up to the next white space or indicator. -/
def plainWord? (inFlow : Bool) : Text → Option Text
  | [] => some []
  | char :: rest =>
    if isBlank char || isBreak char then some []
    else if char == ':' && inFlow &&
        rest.head?.any fun next => (isFlowIndicator next || next == '?') then none
    else if char == ':' && endsWord rest.head? then some []
    else if inFlow && isFlowIndicator char then some []
    else (plainWord? inFlow rest).map (char :: ·)

/-- A plain scalar goes on over lines that are indented at least to the given column. The result
tells whether it ended behind a line break. -/
def plain? (inFlow : Bool) (column : Nat) :
    Nat → Text → Gap → Cursor → Option (Text × Bool × Cursor)
  | 0, _, _, _ => none
  | fuel + 1, text, gap, cursor =>
    if cursor.atDocumentMarker || cursor.head? = some '#' then
      some (text, gap.broken, cursor)
    else do
      let word ← plainWord? inFlow cursor.rest
      let behind := cursor.advance word.length
      let (text, gap) := if word.isEmpty then (text, gap) else (text ++ gap.fold ++ word, .empty)
      if behind.atBlank || behind.atBreak then
        let (gap, next) ← takeGap? (behind.rest.length + 1) column gap behind
        if !inFlow && next.column < column then some (text, gap.broken, next)
        else plain? inFlow column fuel text gap next
      else
        some (text, gap.broken, behind)

/-- The character of an escape of one letter between double quotes. -/
def escape? : Char → Option Char
  | '0' => some '\x00'
  | 'a' => some '\x07'
  | 'b' => some '\x08'
  | 't' => some '\t'
  | '\t' => some '\t'
  | 'n' => some '\n'
  | 'v' => some '\x0b'
  | 'f' => some '\x0c'
  | 'r' => some '\r'
  | 'e' => some '\x1b'
  | ' ' => some ' '
  | '"' => some '"'
  | '/' => some '/'
  | '\\' => some '\\'
  | 'N' => some '\u0085'
  | '_' => some '\u00a0'
  | 'L' => some '\u2028'
  | 'P' => some '\u2029'
  | _ => none

/-- The number of hexadecimal digits behind the letter of an escape. -/
def escapeLength? : Char → Option Nat
  | 'x' => some 2
  | 'u' => some 4
  | 'U' => some 8
  | _ => none

/-- The character of a code point in hexadecimal digits. -/
def codePoint? (digits : Text) (length : Nat) : Option Char := do
  let code ← Json.hexNumber? digits
  if digits.length ≠ length || (0xD800 ≤ code && code ≤ 0xDFFF) || 0x10FFFF < code then none
  else some (Char.ofNat code)

/-- The part of a quoted scalar up to the next white space or the closing quote. The result tells
whether it ended with an escaped line break. -/
def quotedWord? (single : Bool) : Nat → Text → Cursor → Option (Text × Bool × Cursor)
  | 0, _, _ => none
  | fuel + 1, text, cursor =>
    match cursor.rest with
    | [] => some (text, false, cursor)
    | char :: rest =>
      if isBlank char || isBreak char then some (text, false, cursor)
      else if single then
        if char == '\'' then
          if rest.head? = some '\'' then quotedWord? single fuel (text ++ [char]) (cursor.advance 2)
          else some (text, false, cursor)
        else quotedWord? single fuel (text ++ [char]) (cursor.advance 1)
      else if char == '"' then some (text, false, cursor)
      else if char == '\\' then
        match rest with
        | [] => none
        | letter :: behind =>
          if isBreak letter then some (text, true, (cursor.advance 1).takeBreak.2)
          else match escape? letter, escapeLength? letter with
            | some shown, _ => quotedWord? single fuel (text ++ [shown]) (cursor.advance 2)
            | none, some length => do
              let shown ← codePoint? (behind.take length) length
              quotedWord? single fuel (text ++ [shown]) (cursor.advance (2 + length))
            | none, none => none
      else quotedWord? single fuel (text ++ [char]) (cursor.advance 1)

/-- A quoted scalar behind its opening quote. -/
def quoted? (single : Bool) : Nat → Text → Cursor → Option (Text × Cursor)
  | 0, _, _ => none
  | fuel + 1, text, cursor =>
    if cursor.atDocumentMarker || cursor.rest.isEmpty then none
    else do
      let (text, escaped, behind) ← quotedWord? single (cursor.rest.length + 1) text cursor
      if !escaped && behind.head? = some (if single then '\'' else '"') then
        some (text, behind.advance 1)
      else
        let gap : Gap := if escaped then ⟨true, [], [], []⟩ else .empty
        let (gap, next) ← takeGap? (behind.rest.length + 1) 0 gap behind
        quoted? single fuel (text ++ gap.fold) next

/-- How the line breaks at the end of a block scalar are kept. -/
inductive Chomping where
  | strip
  | clip
  | keep
deriving DecidableEq

/-- The header of a block scalar: chomping and indentation in either order. -/
def blockHeader? (cursor : Cursor) : Option (Chomping × Option Nat × Cursor) :=
  let chomping? : Cursor → Option Chomping := fun place =>
    match place.head? with
    | some '+' => some .keep
    | some '-' => some .strip
    | _ => none
  let increment? : Cursor → Option Nat := fun place =>
    (place.head?.filter Char.isDigit).map fun digit => digit.toNat - '0'.toNat
  match chomping? cursor, increment? cursor with
  | some chomping, _ =>
    match increment? (cursor.advance 1) with
    | some 0 => none
    | some increment => some (chomping, some increment, cursor.advance 2)
    | none => some (chomping, none, cursor.advance 1)
  | none, some 0 => none
  | none, some increment =>
    match chomping? (cursor.advance 1) with
    | some chomping => some (chomping, some increment, cursor.advance 2)
    | none => some (.clip, some increment, cursor.advance 1)
  | none, none => some (.clip, none, cursor)

/-- Blanks and a comment up to the end of the line. -/
def endLine? (cursor : Cursor) : Option Cursor :=
  let behind := cursor.skipWhile isBlank
  let behind := if behind.head? = some '#' then behind.skipWhile (!isBreak ·) else behind
  if behind.rest.isEmpty then some behind
  else if behind.atBreak then some behind.takeBreak.2
  else none

/-- Empty lines in front of the next line of a block scalar, with the greatest column met. As long
as the indentation is not known every space counts as indentation. -/
def blockBreaks? : Nat → Option Nat → Nat → Text → Cursor → Option (Nat × Text × Cursor)
  | 0, _, _, _, _ => none
  | fuel + 1, indent, greatest, breaks, cursor =>
    let spaces := (cursor.rest.takeWhile (· == ' ')).length
    let next := cursor.advance (match indent with
      | some column => min spaces (column - cursor.column)
      | none => spaces)
    let greatest := max greatest next.column
    let inIndent := match indent with
      | some column => decide (next.column < column)
      | none => true
    if inIndent && next.head? = some '\t' then none
    else if next.atBreak then
      let (shown, behind) := next.takeBreak
      blockBreaks? fuel indent greatest (breaks ++ shown) behind
    else some (greatest, breaks, next)

/-- What a block scalar has read so far: its text, the break behind the last line, the breaks of
empty lines, and whether the last line started with a blank. -/
structure Block where
  text : Text
  lastBreak : Text
  breaks : Text
  blankLine : Bool

/-- The lines of a block scalar, which start at its indentation. -/
def blockLines? (folded : Bool) (indent : Nat) : Nat → Block → Cursor → Option (Block × Cursor)
  | 0, _, _ => none
  | fuel + 1, block, cursor =>
    if cursor.column ≠ indent || cursor.rest.isEmpty then some (block, cursor)
    else do
      let blankLine := cursor.atBlank
      let joins := folded && block.lastBreak.head? = some '\n' && !block.blankLine && !blankLine
      let between :=
        if joins then (if block.breaks.isEmpty then [' '] else []) else block.lastBreak
      let (line, behind) := cursor.takeWhile (!isBreak ·)
      let (lastBreak, next) := behind.takeBreak
      let (_, breaks, next) ← blockBreaks? (next.rest.length + 1) (some indent) 0 [] next
      blockLines? folded indent fuel
        ⟨block.text ++ between ++ block.breaks ++ line, lastBreak, breaks, blankLine⟩ next

/-- A block scalar behind its indicator. Its lines are indented more than the mapping around it. -/
def block? (folded : Bool) (parent : Option Nat) (cursor : Cursor) : Option (Text × Cursor) := do
  let (chomping, increment, behind) ← blockHeader? cursor
  let start ← endLine? behind
  let outer := parent.getD 0
  let given := increment.map fun increment => outer + increment
  let (greatest, breaks, first) ← blockBreaks? (start.rest.length + 1) given 0 [] start
  let least := match parent with
    | some column => column + 1
    | none => 1
  let indent := given.getD (max greatest least)
  let (block, next) ←
    blockLines? folded indent (first.rest.length + 1) ⟨[], [], breaks, false⟩ first
  let ending := match chomping with
    | .strip => []
    | .clip => block.lastBreak
    | .keep => block.lastBreak ++ block.breaks
  some (block.text ++ ending, next)

end Cursor

end JazzGrammar.Yaml
