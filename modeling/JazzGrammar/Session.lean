/-
Sessions: a progression that is edited command by command.
-/

import JazzGrammar.Notation
import JazzGrammar.Grid.Printer
import JazzGrammar.Step

namespace JazzGrammar

/-- A session holds one progression and the layout of its grids. -/
structure Session where
  progression : Progression
  options : Grid.Options
deriving DecidableEq

/-- The fields of a layout to change. -/
structure Grid.Change where
  beatsPerBar : Option UInt64
  maxSubdivisions : Option UInt64
  padWithLastChord : Option Bool

def Grid.Options.change (options : Grid.Options) (change : Grid.Change) : Grid.Options where
  beatsPerBar := change.beatsPerBar.getD options.beatsPerBar
  maxSubdivisions := change.maxSubdivisions.getD options.maxSubdivisions
  padWithLastChord := change.padWithLastChord.getD options.padWithLastChord

namespace Session

inductive Command where
  | load (mode : Mode) (text : Text)
  | append (mode : Mode) (text : Text)
  | setOptions (change : Grid.Change)
  | step (pick : Int)
  | applyRule (rule : Rule) (pick : Int)
  | scale (factor : Rat)
  | render
  | regrid

/-- What a command reports beside the new state. -/
inductive Reply where
  | none
  | parsed (resolved : Notation)
  | noSteps
  | stepped (count : Nat) (step : Step)
  | grid (text : Text)

/-- A session starts with the empty progression and the default layout. -/
def empty : Session :=
  ⟨[], {}⟩

/-- One of several steps is picked modulo their number. -/
def take (session : Session) (steps : List Step) (pick : Int) : Session × Reply :=
  match steps[(pick % steps.length).toNat]? with
  | some step => ({ session with progression := step.result }, .stepped steps.length step)
  | none => (session, .noSteps)

/-- A command that fails gives no new state. -/
def run (session : Session) : Command → Except Fault (Session × Reply)
  | .load mode text => do
    let (progression, resolved) ← Progression.readIn mode session.options text
    return ({ session with progression }, .parsed resolved)
  | .append mode text => do
    let (more, resolved) ← Progression.readIn mode session.options text
    return ({ session with progression := session.progression ++ more }, .parsed resolved)
  | .setOptions change =>
    return ({ session with options := session.options.change change }, .none)
  | .step pick => return session.take session.progression.steps pick
  | .applyRule rule pick => return session.take (rule.steps session.progression) pick
  | .scale factor => do
    let progression ← session.progression.scale factor
    return ({ session with progression }, .none)
  | .render => do
    let text ← Grid.write session.options session.progression
    return (session, .grid text)
  | .regrid => do
    let text ← Grid.write session.options session.progression
    let progression ← Grid.read session.options text
    return ({ session with progression }, .grid text)

/-- The session behind a command. A command that fails leaves it as it was. -/
def after (session : Session) (command : Command) : Session :=
  match session.run command with
  | .ok (next, _) => next
  | .error _ => session

end Session

end JazzGrammar
