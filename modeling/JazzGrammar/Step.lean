/-
Single applications of the rules.
-/

import JazzGrammar.Rule

namespace JazzGrammar

/-- An application replaces a span and keeps the chords to its left and right. -/
structure Step where
  rule : Rule
  left : Progression
  span : Progression
  replacement : Progression
  right : Progression
deriving DecidableEq

namespace Step

/-- The index of the first chord of the span. -/
def start (step : Step) : Nat :=
  step.left.length

/-- The index behind the last chord of the span. -/
def stop (step : Step) : Nat :=
  step.left.length + step.span.length

/-- The index behind the replacement in the result. -/
def stopInResult (step : Step) : Nat :=
  step.left.length + step.replacement.length

def result (step : Step) : Progression :=
  step.left ++ step.replacement ++ step.right

/-- The tokens of a span in brackets. -/
def bracket (tokens : List Text) : List Text :=
  match tokens with
  | [] => []
  | first :: rest =>
    let opened := ('[' :: first) :: rest
    opened.modify rest.length (· ++ [']'])

/-- The tokens of the result between slashes, with the replacement in brackets. -/
def marked (step : Step) : Text :=
  Text.join [' ', '/', ' ']
    (step.left.tokens ++ bracket step.replacement.tokens ++ step.right.tokens)

/-- Steps that agree in rule, span and the tokens of their results are the same. -/
def sameKey (one other : Step) : Bool :=
  one.rule == other.rule && one.start == other.start && one.stop == other.stop &&
    one.result.tokens == other.result.tokens

end Step

/-- Every application of a rule, from left to right. -/
def Rule.steps (rule : Rule) (progression : Progression) : List Step :=
  (List.range progression.length).flatMap fun start =>
    let span := (progression.drop start).take rule.width
    (rule.replacements span).map fun replacement =>
      ⟨rule, progression.take start, span, replacement, progression.drop (start + rule.width)⟩

/-- Every application of any rule, ordered by rule and then from left to right; the same step is
listed once. -/
def Progression.steps (progression : Progression) : List Step :=
  (Rule.all.flatMap fun rule => rule.steps progression).eraseDupsBy Step.sameKey

end JazzGrammar
