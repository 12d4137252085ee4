/-
Grids: bars of beats, where the place of a chord gives its duration.
-/

import JazzGrammar.Progression

namespace JazzGrammar

/-- The layout of a grid. Its numbers are words of 64 bits. -/
structure Grid.Options where
  beatsPerBar : UInt64 := 4
  maxSubdivisions : UInt64 := 4
  padWithLastChord : Bool := true
deriving DecidableEq

namespace Grid

/-- A bar holds at least one beat. -/
def Options.check (options : Options) : Except Fault Unit :=
  if options.beatsPerBar = 0 then .error (.argument .zeroBeatsPerBar) else .ok ()

/-- A text may be a grid when it has a slash and two bar lines. -/
def looksLike (text : Text) : Bool :=
  text.contains '/' && 2 ≤ text.count '|'

end Grid

end JazzGrammar
