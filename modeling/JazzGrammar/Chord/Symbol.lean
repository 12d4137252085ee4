/-
Chord symbols: a root and a suffix for the quality. A numeral in lower case stands for a minor chord.
-/

import JazzGrammar.Chord
import JazzGrammar.Root.Spelling

namespace JazzGrammar

def Quality.suffix : Quality → Text
  | .major => []
  | .minor => ['m']
  | .dominantSeventh => ['7']
  | .minorSeventh => ['m', '7']
  | .diminishedSeventh => ['°', '7']

namespace Chord

def write (chord : Chord) : Text :=
  chord.root.write ++ chord.quality.suffix

/-- The longest suffix at the end of a text, and the text in front of it. -/
def splitSuffix (text : Text) : Text × Quality :=
  match text.reverse with
  | '7' :: '°' :: front => (front.reverse, .diminishedSeventh)
  | '7' :: 'm' :: front => (front.reverse, .minorSeventh)
  | '7' :: front => (front.reverse, .dominantSeventh)
  | 'm' :: front => (front.reverse, .minor)
  | _ => (text, .major)

/-- A symbol in lower case is minor and takes no suffix but a seventh. -/
def readLower? (text : Text) : Option Chord :=
  let (accidental, rest) := Root.splitAccidental text
  let (numeral, seventh) := match rest.reverse with
    | '7' :: front => (front.reverse, true)
    | _ => (rest, false)
  (Root.lowerDegree? numeral).map fun degree => ⟨⟨degree, accidental⟩, .ofFlags true seventh⟩

/-- Blanks around a symbol are ignored. -/
def read (text : Text) : Except Fault Chord :=
  let symbol := text.trim
  if symbol.isEmpty then
    .error (.token .empty)
  else
    match readLower? symbol with
    | some chord => .ok chord
    | none =>
      let (rootText, quality) := splitSuffix symbol
      (Root.read rootText).map fun root => ⟨root, quality⟩

end Chord

end JazzGrammar
