/-
Chords: a root with one of five qualities.
-/

import JazzGrammar.Root
import JazzGrammar.Fault

namespace JazzGrammar

/-- A diminished seventh is neither minor nor a dominant seventh. -/
inductive Quality where
  | major
  | minor
  | dominantSeventh
  | minorSeventh
  | diminishedSeventh
deriving DecidableEq

namespace Quality

def isMinor : Quality → Bool
  | .minor | .minorSeventh => true
  | _ => false

/-- Major and minor chords may hold a seventh; a diminished seventh does not count here. -/
def hasSeventh : Quality → Bool
  | .dominantSeventh | .minorSeventh => true
  | _ => false

def isDiminished : Quality → Bool
  | .diminishedSeventh => true
  | _ => false

/-- A plain chord has no seventh of either kind. -/
def isPlain : Quality → Bool
  | .major | .minor => true
  | _ => false

/-- The quality without diminished seventh of a mode and a seventh. -/
def ofFlags (minor seventh : Bool) : Quality :=
  match minor, seventh with
  | false, false => .major
  | true, false => .minor
  | false, true => .dominantSeventh
  | true, true => .minorSeventh

/-- A diminished seventh admits no other flag. -/
def ofFlags? (minor seventh diminished : Bool) : Except Fault Quality :=
  if diminished then
    if minor || seventh then .error .chord else .ok .diminishedSeventh
  else
    .ok (ofFlags minor seventh)

/-- Dropping the seventh keeps the mode. -/
def withoutSeventh (quality : Quality) : Quality :=
  ofFlags quality.isMinor false

end Quality

structure Chord where
  root : Root
  quality : Quality
deriving DecidableEq

namespace Chord

def isMinor (chord : Chord) : Bool := chord.quality.isMinor

def isDiminished (chord : Chord) : Bool := chord.quality.isDiminished

def isPlain (chord : Chord) : Bool := chord.quality.isPlain

def withoutSeventh (chord : Chord) : Chord :=
  ⟨chord.root, chord.quality.withoutSeventh⟩

end Chord

end JazzGrammar
