/-
Breadth-first exploration of the progressions that the rules reach.
-/

import JazzGrammar.Step
import Std.Data.TreeSet

namespace JazzGrammar

/-- The state of an exploration, whose progressions are known by their tokens: all that were met so
far, and those of the latest level in ascending order. -/
structure Exploration where
  seen : Std.TreeSet (List Text)
  frontier : List (List Text)

namespace Exploration

def start (progression : Progression) : Exploration :=
  ⟨Std.TreeSet.empty.insert progression.tokens, [progression.tokens]⟩

/-- The results of all steps from a progression that is written in tokens. -/
def results (tokens : List Text) : Except Fault (List (List Text)) := do
  let progression ← Progression.ofTokens tokens
  return progression.steps.map fun step => step.result.tokens

/-- The results of all steps from the frontier that were not met before, in ascending order. -/
def next (exploration : Exploration) : Except Fault (List (List Text)) := do
  let reached ← exploration.frontier.mapM results
  let fresh := reached.flatten.filter fun tokens => !exploration.seen.contains tokens
  return (Std.TreeSet.ofList fresh).toList

/-- The next level becomes the frontier. -/
def advance (exploration : Exploration) : Except Fault Exploration := do
  let level ← exploration.next
  return ⟨exploration.seen.insertMany level, level⟩

/-- The frontier and a number of levels behind it. -/
def levels (exploration : Exploration) : Nat → Except Fault (List (List (List Text)))
  | 0 => .ok [exploration.frontier]
  | depth + 1 => do
    let later ← (← exploration.advance).levels depth
    return exploration.frontier :: later

end Exploration

/-- Level `k` holds the tokens of the progressions that are reached in `k` steps and in no fewer. -/
def Progression.explore (progression : Progression) (depth : Int) :
    Except Fault (List (List (List Text))) :=
  if depth < 0 then .error (.argument .negativeDepth)
  else (Exploration.start progression).levels depth.toNat

end JazzGrammar
