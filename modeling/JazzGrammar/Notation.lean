/-
The two notations of progressions and the choice between them.
-/

import JazzGrammar.Grid.Reader

namespace JazzGrammar

/-- Progressions are written as tokens with durations or as a grid. -/
inductive Notation where
  | duration
  | grid
deriving DecidableEq

def Notation.name : Notation → String
  | .duration => "duration"
  | .grid => "grid"

/-- A notation may be asked for, or be chosen by the look of the text. -/
inductive Mode where
  | auto
  | duration
  | grid
deriving DecidableEq

namespace Mode

def name : Mode → String
  | .auto => "auto"
  | .duration => "duration"
  | .grid => "grid"

/-- The mode of a word in lower case. -/
def ofWord? (word : Text) : Option Mode :=
  if word = ['a', 'u', 't', 'o'] then some .auto
  else if word = ['d', 'u', 'r', 'a', 't', 'i', 'o', 'n'] then some .duration
  else if word = ['g', 'r', 'i', 'd'] then some .grid
  else none

/-- Case and blanks around the word are ignored. No letter outside ASCII has one of these words'
letters as its lower case. -/
def read (text : Text) : Except Fault Mode :=
  match ofWord? (text.trim.map Char.toLower) with
  | some mode => .ok mode
  | none => .error (.argument .unknownMode)

/-- The notation in which a text is read. -/
def resolve (mode : Mode) (text : Text) : Notation :=
  match mode with
  | .auto => if Grid.looksLike text then .grid else .duration
  | .duration => .duration
  | .grid => .grid

end Mode

/-- A progression in the notation of a mode, with the notation. -/
def Progression.readIn (mode : Mode) (options : Grid.Options) (text : Text) :
    Except Fault (Progression × Notation) :=
  match mode.resolve text with
  | .grid => (Grid.read options text).map fun progression => (progression, .grid)
  | .duration => (Progression.read text).map fun progression => (progression, .duration)

end JazzGrammar
