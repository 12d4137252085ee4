/-
Mappings of scalars to scalars, read from the tokens of a YAML text.
-/

import JazzGrammar.Yaml.Anchor

namespace JazzGrammar.Yaml

/-- The entries of a mapping, in order of appearance. -/
abbrev Mapping := List (Scalar × Scalar)

namespace Mapping

/-- What is known while entries are read: the meaning of tag handles, and the anchors so far. -/
structure Scope where
  handles : List (Text × Octets)
  anchors : Anchors

/-- The handles that need no directive. -/
def defaultHandles : List (Text × Octets) :=
  [(['!'], Octets.ofText ['!']),
    (['!', '!'], Octets.ofText "tag:yaml.org,2002:".toList)]

/-- The full tag of a handle and a suffix. -/
def Scope.tag? (scope : Scope) (handle : Text) (suffix : Octets) : Option Octets :=
  if handle.isEmpty then some suffix
  else (scope.handles.lookup handle).map (· ++ suffix)

def Scope.bind (scope : Scope) (anchor : Option Text) (target : Target) : Scope :=
  match anchor with
  | some name => { scope with anchors := scope.anchors.bind name target }
  | none => scope

/-- At most one anchor and one tag, in either order, with the tokens behind them. -/
def properties? (scope : Scope) (tokens : List Token) :
    Option (Option Text × Option Octets × List Token) :=
  match tokens with
  | .anchor name :: .tag handle suffix :: rest =>
    (scope.tag? handle suffix).map fun tag => (some name, some tag, rest)
  | .tag handle suffix :: .anchor name :: rest =>
    (scope.tag? handle suffix).map fun tag => (some name, some tag, rest)
  | .anchor name :: rest => some (some name, none, rest)
  | .tag handle suffix :: rest => (scope.tag? handle suffix).map fun tag => (none, some tag, rest)
  | rest => some (none, none, rest)

/-- One scalar with its properties, or a reference to an earlier anchor. A scalar with properties
may be left out. -/
def node? (scope : Scope) (tokens : List Token) : Option (Node × Scope × List Token) :=
  match tokens with
  | .reference name :: rest =>
    (scope.anchors.numbers.lookup name).map fun number => (.reference number, scope, rest)
  | _ => do
    let (anchor, tag, rest) ← properties? scope tokens
    match rest with
    | .scalar text style :: rest =>
      let scalar : Scalar := ⟨text, style, tag⟩
      some (.scalar scalar, scope.bind anchor (.scalar scalar), rest)
    | _ =>
      if anchor.isNone && tag.isNone then none
      else
        let scalar : Scalar := { Scalar.empty with tag }
        some (.scalar scalar, scope.bind anchor (.scalar scalar), rest)

/-- A scalar that is left out in front of one of the given tokens. -/
def nodeBefore? (scope : Scope) (ends : Token → Bool) (tokens : List Token) :
    Option (Node × Scope × List Token) :=
  if tokens.head?.any ends then some (.scalar .empty, scope, tokens) else node? scope tokens

/-- The value behind a key, if there is one. -/
def value? (scope : Scope) (ends : Token → Bool) (tokens : List Token) :
    Option (Node × Scope × List Token) :=
  match tokens with
  | .value :: rest => nodeBefore? scope ends rest
  | _ => some (.scalar .empty, scope, tokens)

def endsInBlock (token : Token) : Bool :=
  token == .key || token == .value || token == .mappingEnd

def endsInFlow (token : Token) : Bool :=
  token == .flowEntry || token == .flowEnd

/-- Entries before references are resolved, with what is known behind them. -/
abbrev Entries := List (Node × Node) × Scope × List Token

/-- The entries of a block mapping up to its end. -/
def blockEntries? : Nat → Scope → List Token → Option Entries
  | 0, _, _ => none
  | fuel + 1, scope, tokens =>
    match tokens with
    | .mappingEnd :: rest => some ([], scope, rest)
    | .key :: rest => do
      let (key, scope, rest) ← nodeBefore? scope endsInBlock rest
      let (value, scope, rest) ← value? scope endsInBlock rest
      let (entries, behind) ← blockEntries? fuel scope rest
      some ((key, value) :: entries, behind)
    | _ => none

/-- One entry of a flow mapping. A key without a colon has no value. -/
def flowEntry? (scope : Scope) (tokens : List Token) :
    Option ((Node × Node) × Scope × List Token) :=
  match tokens with
  | .key :: rest => do
    let endsKey := fun token => endsInFlow token || token == .value
    let (key, scope, rest) ← nodeBefore? scope endsKey rest
    let (value, scope, rest) ← value? scope endsInFlow rest
    some ((key, value), scope, rest)
  | _ => do
    let (key, scope, rest) ← node? scope tokens
    some ((key, .scalar .empty), scope, rest)

/-- The entries of a flow mapping up to its end. A comma may stand behind the last one. -/
def flowEntries? : Nat → Scope → List Token → Option Entries
  | 0, _, _ => none
  | fuel + 1, scope, tokens =>
    match tokens with
    | .flowEnd :: rest => some ([], scope, rest)
    | _ => do
      let (entry, scope, rest) ← flowEntry? scope tokens
      match rest with
      | .flowEntry :: rest =>
        let (entries, behind) ← flowEntries? fuel scope rest
        some (entry :: entries, behind)
      | .flowEnd :: rest => some ([entry], scope, rest)
      | _ => none

/-- References are resolved when the whole document is known. -/
def resolve? (anchors : Anchors) (entries : List (Node × Node)) : Option Mapping :=
  entries.mapM fun (key, value) => do some (← key.resolve? anchors, ← value.resolve? anchors)

/-- The content of a document. Properties alone stand for an empty mapping. -/
def content? (scope : Scope) (tokens : List Token) : Option (Mapping × List Token) := do
  let (anchor, tag, rest) ← properties? scope tokens
  let inside := scope.bind anchor .mapping
  match rest with
  | .mappingStart :: rest => do
    let (entries, scope, rest) ← blockEntries? (rest.length + 1) inside rest
    some (← resolve? scope.anchors entries, rest)
  | .flowStart :: rest => do
    let (entries, scope, rest) ← flowEntries? (rest.length + 1) inside rest
    some (← resolve? scope.anchors entries, rest)
  | .scalar _ _ :: _ => none
  | _ => if anchor.isNone && tag.isNone then none else some ([], rest)

/-- The handles declared in front of a document: one version at most, and each handle once. -/
def directives? : Bool → List (Text × Octets) → List Token →
    Option (List (Text × Octets) × List Token)
  | versioned, handles, .version :: rest =>
    if versioned then none else directives? true handles rest
  | versioned, handles, .tagHandle handle base :: rest =>
    if (handles.lookup handle).isSome then none
    else directives? versioned ((handle, base) :: handles) rest
  | _, handles, rest => some (handles, rest)

def isDirective : Token → Bool
  | .version | .tagHandle _ _ => true
  | _ => false

/-- What may stand behind the only document. -/
def ended (tokens : List Token) : Bool :=
  tokens.all (· == .documentEnd)

/-- The only document of a text. Directives need a marker in front of the document, and a marked
document may be empty. -/
def document? (tokens : List Token) : Option Mapping := do
  let (handles, rest) ← directives? false [] tokens
  let scope : Scope := ⟨handles ++ defaultHandles, .empty⟩
  match rest with
  | .documentStart :: rest =>
    if ended rest then some []
    else
      let (mapping, rest) ← content? scope rest
      if ended rest then some mapping else none
  | [] => if tokens.isEmpty then some [] else none
  | _ =>
    if tokens.any isDirective then none
    else
      let (mapping, rest) ← content? scope rest
      if ended rest then some mapping else none

/-- The mapping of a text; a text without a document has no entries. -/
def read? (text : Text) : Option Mapping :=
  (tokens? text).bind document?

end Mapping

end JazzGrammar.Yaml
