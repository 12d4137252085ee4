/-
Reports about steps and explorations, as lines of text and as JSON.
-/

import JazzGrammar.Exploration
import JazzGrammar.Grid.Printer
import JazzGrammar.Json.Printer
import JazzGrammar.Printed

namespace JazzGrammar.Report

/-- Tokens between slashes. -/
def listTokens (tokens : List Text) : Text :=
  Text.join [' ', '/', ' '] tokens

def label (text : String) : Text :=
  text.toList

def nothing : Text :=
  label "  (none)"

/-- The lines of a text. The empty text has none. -/
def linesOf (text : Text) : List Text :=
  if text.isEmpty then [] else text.splitOn '\n'

/-- The grid of a progression in indented lines, when a layout is given. A progression that has no
grid is passed over, but a stop ends the report. -/
def grid (layout : Option Grid.Options) (tokens : List Text) : Printed Unit :=
  match layout with
  | none => pure ()
  | some options =>
    match Progression.ofTokens tokens >>= Grid.write options with
    | .ok text => (linesOf text).forM fun line => Printed.line (label "     " ++ line)
    | .error (.stopped cause) => Printed.silent (.error (.stopped cause))
    | .error _ => pure ()

/-- The number in front of an entry. -/
def bullet (number : Nat) : Text :=
  [' ', ' '] ++ Decimal.write number ++ ['.', ' ']

/-- A step with its rule, its span and its effect. -/
def stepLine (number : Nat) (step : Step) : Text :=
  bullet number ++ label "rule " ++ step.rule.label ++ label " span [" ++
    Decimal.write step.start ++ [',', ' '] ++ Decimal.write step.stop ++ label "): " ++
    listTokens step.span.tokens ++ label " -> " ++ listTokens step.replacement.tokens

/-- One entry of a report on steps. -/
def step (layout : Option Grid.Options) (number : Nat) (step : Step) : Printed Unit := do
  Printed.line (stepLine number step)
  Printed.line (label "     " ++ step.marked)
  grid layout step.result.tokens

/-- The steps one by one. -/
def steps (layout : Option Grid.Options) (steps : List Step) : Printed Unit := do
  Printed.line (label "One-step rewrites (" ++ Decimal.write steps.length ++ [')'])
  if steps.isEmpty then
    Printed.line nothing
  (steps.zipIdx 1).forM fun entry => step layout entry.2 entry.1

/-- One entry of a level. -/
def sequence (layout : Option Grid.Options) (number : Nat) (tokens : List Text) :
    Printed Unit := do
  Printed.line (bullet number ++ listTokens tokens)
  grid layout tokens

/-- One level of an exploration. -/
def level (layout : Option Grid.Options) (number : Nat) (sequences : List (List Text)) :
    Printed Unit := do
  let noun := if sequences.length = 1 then " sequence)" else " sequences)"
  Printed.line []
  Printed.line (label "Level " ++ Decimal.write number ++ label " (" ++
    Decimal.write sequences.length ++ label noun)
  if sequences.isEmpty then
    Printed.line nothing
  (sequences.zipIdx 1).forM fun entry => sequence layout entry.2 entry.1

/-- The levels of an exploration one by one. -/
def levels (layout : Option Grid.Options) (depth : Int) (levels : List (List (List Text))) :
    Printed Unit := do
  Printed.line (label "Depth search (max depth = " ++ Decimal.writeSigned depth ++ [')'])
  (levels.zipIdx 0).forM fun entry => level layout entry.2 entry.1

open Json in
/-- A step as an object. -/
def stepValue (step : Step) : Value :=
  .object [(label "rule", .text step.rule.label),
    (label "start", .ofNat step.start),
    (label "end", .ofNat step.stop),
    (label "before", .ofTexts step.span.tokens),
    (label "replacement", .ofTexts step.replacement.tokens),
    (label "result", .ofTexts step.result.tokens)]

open Json in
/-- One level as an object. -/
def levelValue (level : Nat) (sequences : List (List Text)) : Value :=
  .object [(label "level", .ofNat level),
    (label "count", .ofNat sequences.length),
    (label "sequences", .array (sequences.map .ofTexts))]

open Json in
/-- An exploration as an object. -/
def levelsValue (depth : Int) (levels : List (List (List Text))) : Value :=
  .object [(label "depth", .number (.whole depth)),
    (label "levels", .array ((levels.zipIdx 0).map fun (sequences, level) =>
      levelValue level sequences))]

end JazzGrammar.Report
