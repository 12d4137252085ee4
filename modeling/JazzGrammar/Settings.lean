/-
Settings of the program, read from YAML.
-/

import JazzGrammar.Yaml.Mapping
import JazzGrammar.Notation

namespace JazzGrammar

/-- The settings that a file may change. -/
structure Settings where
  depth : Int := 1
  mode : Mode := .auto
  grid : Grid.Options := {}
deriving DecidableEq

namespace Yaml.Scalar

def nullTag : Octets := .ofText "tag:yaml.org,2002:null".toList

def integerTag : Octets := .ofText "tag:yaml.org,2002:int".toList

def booleanTag : Octets := .ofText "tag:yaml.org,2002:bool".toList

/-- The words that stand for no value. -/
def isNullWord (text : Text) : Bool :=
  [['n', 'u', 'l', 'l'], ['N', 'u', 'l', 'l'], ['N', 'U', 'L', 'L'], ['~']].contains text

/-- Whether a scalar leaves its field at the default. A scalar that is tagged as null has to be a
null word. -/
def isAbsent? (scalar : Scalar) : Option Bool :=
  if scalar.style ≠ .plain then some false
  else match scalar.tag with
    | some tag =>
      if tag = nullTag then (if isNullWord scalar.text then some true else none) else some false
    | none => some (scalar.text.isEmpty || isNullWord scalar.text)

/-- Numbers and booleans are plain, or literal with the tag of their kind. -/
def isBare (scalar : Scalar) (tag : Octets) : Bool :=
  scalar.style == .plain || (scalar.style == .literal && scalar.tag == some tag)

/-- The digits of a number in a base. -/
def digits? (base : Nat) (text : Text) : Option Nat :=
  if text.isEmpty then none
  else text.foldl (fun value char => do
    let digit ← Json.hexDigit? char
    if digit < base then some (base * (← value) + digit) else none) (some 0)

/-- A number without its sign: hexadecimal, octal and binary behind a mark, or decimal without
leading zeros. -/
def magnitude? : Text → Option Nat
  | '0' :: 'x' :: digits => digits? 16 digits
  | '0' :: 'o' :: digits => digits? 8 digits
  | '0' :: 'b' :: digits => digits? 2 digits
  | '0' :: _ :: _ => none
  | digits => digits? 10 digits

/-- A number with a sign of 64 bits. -/
def signed? (scalar : Scalar) : Option Int := do
  if !scalar.isBare integerTag then none
  let (negative, text) := Decimal.splitSign scalar.text
  let magnitude ← magnitude? text
  let value : Int := if negative then -(magnitude : Int) else magnitude
  if -9223372036854775808 ≤ value && value ≤ 9223372036854775807 then some value else none

/-- A number without a minus sign of 64 bits. -/
def unsigned? (scalar : Scalar) : Option UInt64 := do
  if !scalar.isBare integerTag then none
  let (negative, text) := Decimal.splitSign scalar.text
  let magnitude ← magnitude? text
  if !negative && magnitude < UInt64.size then some (UInt64.ofNat magnitude) else none

def boolean? (scalar : Scalar) : Option Bool :=
  if !scalar.isBare booleanTag then none
  else if ["true", "True", "TRUE"].contains (String.ofList scalar.text) then some true
  else if ["false", "False", "FALSE"].contains (String.ofList scalar.text) then some false
  else none

/-- The name of a tag that starts with an exclamation mark, if it is a text. -/
def localName? (scalar : Scalar) : Option Text :=
  match scalar.tag with
  | some (first :: name) => if first = 0x21 then Octets.text? name else none
  | _ => none

/-- A mode is a word of its own or the local name of a tag on nothing. -/
def mode? (scalar : Scalar) : Option Mode :=
  match scalar.localName? with
  | some name =>
    if scalar.style = .plain && (scalar.text.isEmpty || isNullWord scalar.text) then
      Mode.ofWord? name
    else none
  | none => Mode.ofWord? scalar.text

end Yaml.Scalar

namespace Settings

/-- A field is absent, or has a value of its type. -/
def field? {α : Type} (read? : Yaml.Scalar → Option α) (fallback : α) (scalar : Yaml.Scalar) :
    Option α := do
  if ← scalar.isAbsent? then some fallback else read? scalar

/-- The settings with the field of a key changed. Other keys are refused. -/
def set? (settings : Settings) (key : String) (scalar : Yaml.Scalar) : Option Settings :=
  match key with
  | "depth" => (field? Yaml.Scalar.signed? settings.depth scalar).map fun depth =>
    { settings with depth }
  | "notation" => (field? Yaml.Scalar.mode? settings.mode scalar).map fun mode =>
    { settings with mode }
  | "beats-per-bar" =>
    (field? Yaml.Scalar.unsigned? settings.grid.beatsPerBar scalar).map fun beatsPerBar =>
      { settings with grid := { settings.grid with beatsPerBar } }
  | "max-subdivisions" =>
    (field? Yaml.Scalar.unsigned? settings.grid.maxSubdivisions scalar).map fun maxSubdivisions =>
      { settings with grid := { settings.grid with maxSubdivisions } }
  | "pad-with-last-chord" =>
    (field? Yaml.Scalar.boolean? settings.grid.padWithLastChord scalar).map fun padWithLastChord =>
      { settings with grid := { settings.grid with padWithLastChord } }
  | _ => none

/-- Every key is set at most once. -/
def ofMapping? (mapping : Yaml.Mapping) : Option Settings :=
  if (mapping.map fun entry => entry.1.text).eraseDups.length < mapping.length then none
  else mapping.foldl (fun settings? entry => do
    (← settings?).set? (String.ofList entry.1.text) entry.2) (some {})

/-- Depth, beats and subdivisions are checked in this order. -/
def check (settings : Settings) : Except Fault Settings :=
  if settings.depth < 0 then .error (.settings (.negativeDepth settings.depth))
  else if settings.grid.beatsPerBar = 0 then .error (.settings .zeroBeatsPerBar)
  else if settings.grid.maxSubdivisions = 0 then .error (.settings .zeroMaxSubdivisions)
  else .ok settings

/-- A blank text keeps all defaults. -/
def read (text : Text) : Except Fault Settings :=
  if Text.allBlank text then .ok {}
  else match (Yaml.Mapping.read? text).bind ofMapping? with
    | some settings => settings.check
    | none => .error (.settings (.malformed text))

end Settings

end JazzGrammar
