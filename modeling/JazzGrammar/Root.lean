/-
Chord roots: a degree of the major scale with an accidental.
-/

namespace JazzGrammar

/-- Degrees count from zero. Roots are equal when they are spelled alike. -/
structure Root where
  degree : Fin 7
  accidental : Int
deriving DecidableEq

namespace Root

/-- Semitones from the tonic to a natural degree of the major scale. -/
def natural : Fin 7 → Int
  | 0 => 0
  | 1 => 2
  | 2 => 4
  | 3 => 5
  | 4 => 7
  | 5 => 9
  | 6 => 11

/-- The pitch class above the tonic, from 0 to 11. -/
def semitone (root : Root) : Int :=
  (natural root.degree + root.accidental) % 12

/-- The least accidental of a pitch class: from -5 to 6. -/
def foldAccidental (difference : Int) : Int :=
  let folded := difference % 12
  if 6 < folded then folded - 12 else folded

/-- The degree a number of steps above another one. -/
def stepDegree (degree : Fin 7) (steps : Int) : Fin 7 :=
  ⟨((degree.val + steps) % 7).toNat, by omega⟩

/-- Moving by degrees and semitones spells the result on the new degree with the least
accidental. -/
def shift (root : Root) (degreeSteps semitoneSteps : Int) : Root :=
  let degree := stepDegree root.degree degreeSteps
  let target := (root.semitone + semitoneSteps) % 12
  ⟨degree, foldAccidental (target - natural degree)⟩

def dominant (root : Root) : Root := root.shift 4 7

def subdominant (root : Root) : Root := root.shift 3 5

def supertonic (root : Root) : Root := root.shift 1 2

def mediant (root : Root) : Root := root.shift 2 4

def flatSupertonic (root : Root) : Root := root.shift 1 1

def sharpened (root : Root) : Root := root.shift 0 1

/-- The leading tone lies half a step below, on the seventh degree above. -/
def leadingTone (root : Root) : Root := root.shift 6 (-1)

end Root

end JazzGrammar
