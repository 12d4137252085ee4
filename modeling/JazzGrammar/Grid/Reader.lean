/-
Reading grids.
-/

import JazzGrammar.Grid

namespace JazzGrammar.Grid

/-- Of the pieces between bar lines every other one is a bar; the first and the last one stand
outside and are blank like all between bars. -/
def barsOf? : List Text → Option (List Text)
  | [] => none
  | [outside] => if Text.allBlank outside then some [] else none
  | outside :: bar :: rest =>
    if Text.allBlank outside then (barsOf? rest).map (bar :: ·) else none

/-- The texts of the bars. -/
def bars (text : Text) : Except Fault (List Text) :=
  match barsOf? (text.splitOn '|') with
  | some bars => .ok bars
  | none => .error (.grid .textOutsideBars)

/-- A beat is divided evenly between its chords. -/
def readBeat (bar beat : Nat) (text : Text) : Except Fault (List Chord) := do
  let parts := (text.splitOn ',').map Text.trim
  if Text.allBlank text then
    throw (.grid (.emptyBeat bar beat))
  if parts.any List.isEmpty then
    throw (.grid (.emptyPart bar beat))
  parts.mapM Chord.read

/-- The beats of a bar, which has a fixed number of them. -/
def readBar (options : Options) (bar : Nat) (text : Text) : Except Fault (List (List Chord)) := do
  let beats := text.splitOn '/'
  if beats.length ≠ options.beatsPerBar.toNat then
    throw (.grid (.beatCount bar options.beatsPerBar))
  (beats.zipIdx 1).mapM fun (beat, number) => readBeat bar number beat

/-- The beats of all bars, each with its chords. -/
def readBeats (options : Options) (text : Text) : Except Fault (List (List Chord)) := do
  if Text.allBlank text then
    throw (.grid .empty)
  options.check
  let bars ← bars text
  let read ← (bars.zipIdx 1).mapM fun (bar, number) => readBar options number bar
  return read.flatten

/-- The least number of slots a beat that shows every division of the beats. -/
def subdivisionOf (beats : List (List Chord)) : Nat :=
  beats.foldl (fun subdivision beat => subdivision.lcm beat.length) 1

/-- The chords of one beat with their durations. -/
def spread : List Chord → Progression
  | [] => []
  | first :: rest =>
    (first :: rest).map fun chord => ⟨chord, .part (rest.length + 1) (Nat.succ_pos _)⟩

/-- A grid is read as a progression without equal neighbours. -/
def read (options : Options) (text : Text) : Except Fault Progression := do
  let beats ← readBeats options text
  let required := subdivisionOf beats
  if options.maxSubdivisions.toNat < required then
    throw (.subdivision required options.maxSubdivisions)
  return Progression.mergeRuns (beats.flatMap spread)

end JazzGrammar.Grid
