/-
Progressions: sequences of timed chords.
-/

import JazzGrammar.TimedChord
import JazzGrammar.Json.Reader

namespace JazzGrammar

abbrev Progression := List TimedChord

namespace Progression

def durations (progression : Progression) : List Duration :=
  progression.map TimedChord.duration

/-- The total duration, zero for the empty progression. -/
def total (progression : Progression) : Rat :=
  Duration.total progression.durations

/-- The canonical tokens. -/
def tokens (progression : Progression) : List Text :=
  progression.map TimedChord.token

/-- Tokens are read from left to right up to the first fault. -/
def ofTokens (tokens : List Text) : Except Fault Progression :=
  tokens.mapM TimedChord.read

def scale (progression : Progression) (factor : Rat) : Except Fault Progression :=
  progression.mapM fun timed => timed.scale factor

/-- Neighbours with the same chord become one chord of the summed duration. -/
def mergeRuns : Progression → Progression
  | [] => []
  | first :: rest =>
    match mergeRuns rest with
    | [] => [first]
    | next :: later =>
      if first.chord = next.chord then
        ⟨first.chord, first.duration.add next.duration⟩ :: later
      else
        first :: next :: later

/-- A progression in JSON is an array of items. -/
def ofJson (text : Text) : Except Fault Progression :=
  match Json.read? text with
  | some (.array items) => items.mapM TimedChord.ofJson
  | _ => .error (.progression (.malformed text))

/-- Tokens stand between commas, and blank ones are skipped. A text that starts with a bracket is
JSON. -/
def read (text : Text) : Except Fault Progression :=
  let trimmed := text.trim
  if trimmed.head? = some '[' then ofJson trimmed
  else ofTokens ((trimmed.splitOn ',').filter (!Text.allBlank ·))

end Progression

end JazzGrammar
