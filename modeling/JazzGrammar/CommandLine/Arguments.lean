/-
Arguments of the command line.
-/

import JazzGrammar.Notation

namespace JazzGrammar.CommandLine

/-- What one run of the program is asked to do. -/
structure Arguments where
  progression : Text
  mode : Option Mode
  depth : Option Int
  steps : Bool
  grid : Bool
  json : Bool
  settingsPath : Option Text

/-- A call of the program asks for a run or for information about the program. -/
inductive Request where
  | run (arguments : Arguments)
  | version
  | help

/-- The arguments read so far. -/
structure Draft where
  progression : Option Text := none
  mode : Option Mode := none
  depth : Option Int := none
  steps : Bool := false
  grid : Bool := false
  json : Bool := false
  settingsPath : Option Text := none

/-- Options with a value. -/
inductive Setting where
  | mode
  | depth
  | settingsPath
deriving DecidableEq

/-- A whole number of 64 bits with an optional sign. -/
def wholeNumber? (text : Text) : Option Int :=
  (Decimal.readSigned? text).filter fun value =>
    -9223372036854775808 ≤ value && value ≤ 9223372036854775807

namespace Draft

/-- The progression is given once. -/
def addProgression? (draft : Draft) (text : Text) : Option Draft :=
  match draft.progression with
  | some _ => none
  | none => some { draft with progression := some text }

/-- A setting is given once, with a value of its type. -/
def set? (draft : Draft) (setting : Setting) (value : Text) : Option Draft :=
  match setting with
  | .mode =>
    match draft.mode, Mode.read value with
    | none, .ok mode => some { draft with mode := some mode }
    | _, _ => none
  | .depth =>
    match draft.depth, wholeNumber? value with
    | none, some depth => some { draft with depth := some depth }
    | _, _ => none
  | .settingsPath =>
    if draft.settingsPath.isSome || value.isEmpty then none
    else some { draft with settingsPath := some value }

/-- A flag is given once. -/
def flag? (draft : Draft) (name : String) : Option Draft :=
  if name = "steps" && !draft.steps then some { draft with steps := true }
  else if name = "grid" && !draft.grid then some { draft with grid := true }
  else if name = "json" && !draft.json then some { draft with json := true }
  else none

/-- A run needs a progression. -/
def finish? (draft : Draft) : Option Request :=
  draft.progression.map fun progression =>
    .run ⟨progression, draft.mode, draft.depth, draft.steps, draft.grid, draft.json,
      draft.settingsPath⟩

/-- Behind a double dash every argument is a progression. -/
def addAll? (draft : Draft) (arguments : List Text) : Option Request := do
  let draft ← arguments.foldlM addProgression? draft
  draft.finish?

end Draft

def Setting.ofName? (name : String) : Option Setting :=
  if name = "mode" then some .mode
  else if name = "depth" then some .depth
  else if name = "config" then some .settingsPath
  else none

/-- The next argument is the value of a setting unless it looks like an option. A depth may be
negative. -/
def Setting.admits (setting : Setting) (value : Text) : Bool :=
  match value with
  | '-' :: _ :: _ => setting == .depth && (wholeNumber? value).isSome
  | _ => true

/-- Arguments are read from left to right up to the first that is refused. -/
def read? (draft : Draft) : List Text → Option Request
  | [] => draft.finish?
  | ['-', '-'] :: rest => draft.addAll? rest
  | ('-' :: '-' :: option) :: rest =>
    let (name, attached) := match Text.cutFirst? '=' option with
      | some (name, value) => (String.ofList name, some value)
      | none => (String.ofList option, none)
    match Setting.ofName? name, attached with
    | some setting, some value => do read? (← draft.set? setting value) rest
    | some setting, none =>
      match rest with
      | value :: rest =>
        if setting.admits value then do read? (← draft.set? setting value) rest else none
      | [] => none
    | none, some _ => none
    | none, none =>
      if name = "version" then some .version
      else if name = "help" then some .help
      else do read? (← draft.flag? name) rest
  | ('-' :: 'V' :: _) :: _ => some .version
  | ('-' :: 'h' :: _) :: _ => some .help
  | ('-' :: _ :: _) :: _ => none
  | argument :: rest => do read? (← draft.addProgression? argument) rest

end JazzGrammar.CommandLine
