/-
What can be wrong with an input, and how it is reported.
-/

import JazzGrammar.Json.Value

namespace JazzGrammar

/-- What is wrong with a duration. -/
inductive DurationFault where
  | empty
  | malformed (literal : Text)
  | zeroDenominator
  | notPositive
  | unsupported (kind : Json.Kind)
deriving DecidableEq

/-- What is wrong with a token. -/
inductive TokenFault where
  | empty
  | chordMissing (token : Text)
deriving DecidableEq

/-- What is wrong with a grid. Bars and beats are counted from one. -/
inductive GridFault where
  | empty
  | textOutsideBars
  | beatCount (bar : Nat) (expected : UInt64)
  | emptyBeat (bar beat : Nat)
  | emptyPart (bar beat : Nat)
  | incompleteBar
deriving DecidableEq

/-- What is wrong with an argument. -/
inductive ArgumentFault where
  | negativeDepth
  | zeroBeatsPerBar
  | gridTooLong
  | unknownMode
deriving DecidableEq

/-- What is wrong with the JSON form of a progression. -/
inductive ProgressionFault where
  | malformed (text : Text)
  | itemKind
  | chordMissing
deriving DecidableEq

/-- What is wrong with the settings. -/
inductive SettingsFault where
  | unreadable (path cause : Text)
  | malformed (content : Text)
  | negativeDepth (depth : Int)
  | zeroBeatsPerBar
  | zeroMaxSubdivisions
deriving DecidableEq

/-- What the machine has no room for: a number that leaves its word, or a list that is longer than
any list can be. -/
inductive Stop where
  | overflow
  | capacity
deriving DecidableEq

/-- A fault names the part of the input that is to blame and its cause. A stop is not reported like
the others; it ends the program. -/
inductive Fault where
  | root (text : Text)
  | chord
  | duration (cause : DurationFault)
  | token (cause : TokenFault)
  | grid (cause : GridFault)
  | subdivision (required : Nat) (limit : UInt64)
  | alignment (literal : Text) (parts : Nat)
  | argument (cause : ArgumentFault)
  | progression (cause : ProgressionFault)
  | settings (cause : SettingsFault)
  | stopped (cause : Stop)
deriving DecidableEq

/-- The greatest number of slots of a grid before its last bar is filled. -/
def slotLimit : Nat := 65536

def DurationFault.message : DurationFault → String
  | .empty => "Duration cannot be empty."
  | .malformed literal => s!"Invalid duration literal: '{String.ofList literal}'"
  | .zeroDenominator => "Duration denominator cannot be zero."
  | .notPositive => "Duration must be positive."
  | .unsupported kind => s!"Unsupported duration type: {kind.name}"

def TokenFault.message : TokenFault → String
  | .empty => "Empty chord token."
  | .chordMissing token => s!"Missing chord before '@' in token: '{String.ofList token}'"

def GridFault.message : GridFault → String
  | .empty => "Grid notation is empty."
  | .textOutsideBars => "Unexpected text outside bar delimiters '|'."
  | .beatCount bar expected =>
    s!"Bar {bar} must contain exactly {expected} beats separated by '/'."
  | .emptyBeat bar beat => s!"Bar {bar}, beat {beat} cannot be empty."
  | .emptyPart bar beat => s!"Bar {bar}, beat {beat} has an empty subdivision."
  | .incompleteBar => "Progression does not fill complete bars; enable padding to render."

def ArgumentFault.message : ArgumentFault → String
  | .negativeDepth => "Depth must be non-negative."
  | .zeroBeatsPerBar => "beats_per_bar must be positive."
  | .gridTooLong =>
    s!"Progression is too long to render as a grid (more than {slotLimit} slots)."
  | .unknownMode => "notation mode must be \"auto\", \"duration\", or \"grid\"."

/-- The texts that are not the program's own: what a reader of JSON or YAML says of a text that it
refuses, what the machine says when it stops, and what is said about the use of the program. -/
structure Wording where
  json (text : Text) : String
  yaml (content : Text) : String
  stop (cause : Stop) : String
  help : Text
  usage (arguments : List Text) : Text

def ProgressionFault.message (wording : Wording) : ProgressionFault → String
  | .malformed text => wording.json text
  | .itemKind => "JSON progression elements must be strings or objects."
  | .chordMissing => "JSON object entries must include string key \"chord\"."

def SettingsFault.message (wording : Wording) : SettingsFault → String
  | .unreadable path cause => s!"cannot read '{String.ofList path}': {String.ofList cause}"
  | .malformed content => wording.yaml content
  | .negativeDepth depth => s!"depth must be non-negative, got {depth}"
  | .zeroBeatsPerBar => "beats-per-bar must be positive"
  | .zeroMaxSubdivisions => "max-subdivisions must be positive"

/-- The message shown to the user. -/
def Fault.message (wording : Wording) : Fault → String
  | .root text => s!"Invalid Roman numeral root: '{String.ofList text}'"
  | .chord => "Invalid chord: Diminished seventh cannot be combined with m/7 flags."
  | .duration cause => s!"Invalid duration: {cause.message}"
  | .token cause => s!"Empty chord token: {cause.message}"
  | .grid cause => s!"Grid format error: {cause.message}"
  | .subdivision required limit =>
    s!"Grid requires {required} subdivisions/beat, exceeding the max {limit}."
  | .alignment literal parts =>
    s!"Duration {String.ofList literal} cannot align with subdivision {parts}."
  | .argument cause => s!"Invalid argument: {cause.message}"
  | .progression cause => s!"Invalid progression: {cause.message wording}"
  | .settings cause => s!"Invalid configuration: {cause.message wording}"
  | .stopped cause => wording.stop cause

end JazzGrammar
