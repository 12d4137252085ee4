/-
Chords held for a duration, and their tokens.
-/

import JazzGrammar.Chord.Symbol
import JazzGrammar.Duration.Literal

namespace JazzGrammar

structure TimedChord where
  chord : Chord
  duration : Duration
deriving DecidableEq

namespace TimedChord

/-- A chord of one beat. -/
def unit (chord : Chord) : TimedChord :=
  ⟨chord, .one⟩

/-- A token shows the duration behind an at sign; a duration of one may be left out. -/
def write (timed : TimedChord) (showUnit : Bool) : Text :=
  if timed.duration.value = 1 && !showUnit then timed.chord.write
  else timed.chord.write ++ '@' :: timed.duration.write

/-- The canonical token leaves out a duration of one. -/
def token (timed : TimedChord) : Text :=
  timed.write false

/-- The duration stands behind the last at sign and is one beat without it. -/
def read (token : Text) : Except Fault TimedChord := do
  let text := token.trim
  if text.isEmpty then
    throw (.token .empty)
  match text.cutLast? '@' with
  | some (symbol, literal) =>
    if (Text.trim symbol).isEmpty then
      throw (.token (.chordMissing token))
    let chord ← Chord.read symbol
    let duration ← Duration.read literal
    return ⟨chord, duration⟩
  | none => return unit (← Chord.read text)

/-- An item in JSON is a token or an object. A duration of its own wins over one in the chord. -/
def ofJson : Json.Value → Except Fault TimedChord
  | .text token => read token
  | .object members =>
    match Json.member? ['c', 'h', 'o', 'r', 'd'] members with
    | some (.text symbol) =>
      let duration? := (Json.member? ['d', 'u', 'r', 'a', 't', 'i', 'o', 'n'] members).or
        (Json.member? ['d', 'u', 'r'] members)
      match duration? with
      | some value => do
        let duration ← Duration.ofJson value
        let chord ← Chord.read symbol
        return ⟨chord, duration⟩
      | none => if symbol.contains '@' then read symbol else (Chord.read symbol).map unit
    | _ => .error (.progression .chordMissing)
  | _ => .error (.progression .itemKind)

/-- Scaling keeps the chord. -/
def scale (timed : TimedChord) (factor : Rat) : Except Fault TimedChord :=
  (timed.duration.scale factor).map fun duration => ⟨timed.chord, duration⟩

end TimedChord

end JazzGrammar
