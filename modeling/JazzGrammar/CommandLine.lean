/-
Runs of the program.
-/

import JazzGrammar.CommandLine.Arguments
import JazzGrammar.Report
import JazzGrammar.Settings

namespace JazzGrammar.CommandLine

/-- A call ends well, is refused for its arguments, ends with a fault or is stopped. -/
inductive Ending where
  | done
  | refused (arguments : List Text)
  | failed (fault : Fault)
  | stopped (cause : Stop)

/-- The ending of a run. -/
def Ending.ofResult : Except Fault Unit → Ending
  | .ok () => .done
  | .error (.stopped cause) => .stopped cause
  | .error fault => .failed fault

/-- What a call has written to the standard output, and how it ended. -/
structure Outcome where
  output : Text
  ending : Ending

/-- The exit status. -/
def Outcome.status (outcome : Outcome) : UInt32 :=
  match outcome.ending with
  | .done => 0
  | .refused _ => 2
  | .failed _ => 1
  | .stopped _ => 101

/-- What is written to the standard error. -/
def Outcome.errors (wording : Wording) (outcome : Outcome) : Text :=
  match outcome.ending with
  | .done => []
  | .refused arguments => wording.usage arguments
  | .failed fault => "Error: ".toList ++ (fault.message wording).toList ++ ['\n']
  | .stopped cause => (wording.stop cause).toList

/-- The text about the version of the program. -/
def versionText : Text :=
  "steedman 0.1.0\n".toList

/-- The settings of the file of a run, the defaults without one. -/
def Arguments.fileSettings (arguments : Arguments) (file : Text → Except Text Text) :
    Except Fault Settings :=
  match arguments.settingsPath with
  | some path =>
    match file path with
    | .ok content => Settings.read content
    | .error cause => .error (.settings (.unreadable path cause))
  | none => .ok {}

/-- The settings of a run: those of its file, changed by its options. -/
def Arguments.settings (arguments : Arguments) (file : Text → Except Text Text) :
    Except Fault Settings := do
  let base ← arguments.fileSettings file
  return { base with
    mode := arguments.mode.getD base.mode
    depth := arguments.depth.getD base.depth }

/-- The report on the steps of a progression. -/
def Arguments.reportSteps (arguments : Arguments) (layout : Option Grid.Options)
    (progression : Progression) : Printed Unit :=
  let steps := progression.steps
  if arguments.json then
    Printed.line ((Json.Value.array (steps.map Report.stepValue)).write 0)
  else
    Report.steps layout steps

/-- The report on the exploration of a progression. -/
def Arguments.reportLevels (arguments : Arguments) (layout : Option Grid.Options) (depth : Int)
    (progression : Progression) : Printed Unit := do
  let levels ← progression.explore depth
  if arguments.json then
    Printed.line ((Report.levelsValue depth levels).write 0)
  else
    Report.levels layout depth levels

/-- A run reads its settings and its progression, and then it prints its report. -/
def Arguments.run (arguments : Arguments) (file : Text → Except Text Text) : Printed Unit := do
  let settings ← arguments.settings file
  let (progression, _) ← Progression.readIn settings.mode settings.grid arguments.progression
  let layout := if arguments.grid then some settings.grid else none
  if arguments.steps then
    arguments.reportSteps layout progression
  else
    arguments.reportLevels layout settings.depth progression

/-- The outcome of a call. A file gives its content, or the cause for which it cannot be read. -/
def call (wording : Wording) (file : Text → Except Text Text) (arguments : List Text) : Outcome :=
  match read? {} arguments with
  | none => ⟨[], .refused arguments⟩
  | some .version => ⟨versionText, .done⟩
  | some .help => ⟨wording.help, .done⟩
  | some (.run arguments) =>
    let printed := arguments.run file
    ⟨printed.text, .ofResult printed.result⟩

end JazzGrammar.CommandLine
