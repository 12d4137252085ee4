/-
Scalars, and references to them by anchors.
-/

import JazzGrammar.Yaml.Token

namespace JazzGrammar.Yaml

/-- A scalar with its tag, if it has one. -/
structure Scalar where
  text : Text
  style : Style
  tag : Option Octets
deriving DecidableEq

/-- The plain scalar of no characters stands where no scalar is written. -/
def Scalar.empty : Scalar :=
  ⟨[], .plain, none⟩

/-- What an anchor stands at. -/
inductive Target where
  | mapping
  | scalar (scalar : Scalar)
deriving DecidableEq

/-- The anchors of a document, latest first. An anchor gets the number of names known before it, so
one that repeats a name shares its number with the next new name. -/
structure Anchors where
  known : Nat
  numbers : List (Text × Nat)
  targets : List (Nat × Target)

namespace Anchors

def empty : Anchors :=
  ⟨0, [], []⟩

def bind (anchors : Anchors) (name : Text) (target : Target) : Anchors where
  known := if (anchors.numbers.lookup name).isSome then anchors.known else anchors.known + 1
  numbers := (name, anchors.known) :: anchors.numbers
  targets := (anchors.known, target) :: anchors.targets

end Anchors

/-- A scalar in its place, or a reference to the number of an anchor. -/
inductive Node where
  | scalar (scalar : Scalar)
  | reference (number : Nat)
deriving DecidableEq

/-- A reference stands for the last target of its number in the whole document, which has to be a
scalar. -/
def Node.resolve? (anchors : Anchors) : Node → Option Scalar
  | .scalar written => some written
  | .reference number =>
    match anchors.targets.lookup number with
    | some (.scalar target) => some target
    | _ => none

end JazzGrammar.Yaml
