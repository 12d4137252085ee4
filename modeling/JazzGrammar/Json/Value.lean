/-
JSON values. Numbers keep whole values exactly and round the others.
-/

import JazzGrammar.Binary64.Shortest

namespace JazzGrammar.Json

/-- A number is a whole number of 64 bits or a floating-point number. -/
inductive Number where
  | whole (value : Int)
  | rounded (value : Binary64)
deriving DecidableEq

/-- The decimal text of a number. -/
def Number.write : Number → Text
  | .whole value => Decimal.writeSigned value
  | .rounded value => value.write

/-- An object keeps its members in order of appearance. -/
inductive Value where
  | null
  | boolean (value : Bool)
  | number (value : Number)
  | text (value : Text)
  | array (items : List Value)
  | object (members : List (Text × Value))

/-- The kinds of values. -/
inductive Kind where
  | null
  | boolean
  | number
  | text
  | array
  | object
deriving DecidableEq

def Kind.name : Kind → String
  | .null => "null"
  | .boolean => "bool"
  | .number => "number"
  | .text => "string"
  | .array => "array"
  | .object => "object"

def Value.kind : Value → Kind
  | .null => .null
  | .boolean _ => .boolean
  | .number _ => .number
  | .text _ => .text
  | .array _ => .array
  | .object _ => .object

/-- The member of a key; of members with the same key the last one counts. -/
def member? (key : Text) (members : List (Text × Value)) : Option Value :=
  members.reverse.lookup key

end JazzGrammar.Json
