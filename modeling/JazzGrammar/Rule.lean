/-
The seven rules of the grammar.
-/

import JazzGrammar.Progression

namespace JazzGrammar

/-- Each rule replaces a short span of chords by one of the same total duration. -/
inductive Rule where
  | split
  | splitSubdominant
  | dominantOfSeventh
  | dominantOfMinorSeventh
  | tritoneSubstitution
  | diatonicAscent
  | diminishedPassing
deriving DecidableEq

namespace Rule

/-- The rules in the order of their labels. -/
def all : List Rule :=
  [.split, .splitSubdominant, .dominantOfSeventh, .dominantOfMinorSeventh, .tritoneSubstitution,
    .diatonicAscent, .diminishedPassing]

def label : Rule → Text
  | .split => ['1']
  | .splitSubdominant => ['2']
  | .dominantOfSeventh => ['3', 'a']
  | .dominantOfMinorSeventh => ['3', 'b']
  | .tritoneSubstitution => ['4']
  | .diatonicAscent => ['5']
  | .diminishedPassing => ['6']

def ofLabel? (text : Text) : Option Rule :=
  all.find? fun rule => rule.label == text

/-- The number of chords that a rule replaces. -/
def width : Rule → Nat
  | .split | .splitSubdominant => 1
  | .dominantOfSeventh | .dominantOfMinorSeventh | .tritoneSubstitution => 2
  | .diatonicAscent | .diminishedPassing => 3

/-- A diminished chord may pass to the minor supertonic, the leading tone or the dominant. -/
def isPassingTarget (chord target : Chord) : Bool :=
  !target.isDiminished &&
    ((target.root == chord.root.supertonic && target.isMinor) ||
      target.root == chord.root.leadingTone || target.root == chord.root.dominant)

/-- What a rule puts in the place of a span, once for each of its variants. A rule that does not
match the span has no variant. -/
def replacements (rule : Rule) (span : Progression) : List Progression :=
  match rule, span with
  | .split, [timed] =>
    if timed.chord.isDiminished then []
    else
      let half := timed.duration.half
      [[⟨timed.chord.withoutSeventh, half⟩, ⟨timed.chord, half⟩]]
  | .splitSubdominant, [timed] =>
    if timed.chord.isDiminished then []
    else
      let half := timed.duration.half
      [[⟨timed.chord, half⟩, ⟨⟨timed.chord.root.subdominant, .major⟩, half⟩]]
  | .dominantOfSeventh, [first, seventh] =>
    if first.chord.isPlain && seventh.chord.quality == .dominantSeventh then
      let root := seventh.chord.root.dominant
      [[⟨⟨root, .dominantSeventh⟩, first.duration⟩, seventh],
        [⟨⟨root, .minorSeventh⟩, first.duration⟩, seventh]]
    else []
  | .dominantOfMinorSeventh, [first, seventh] =>
    if first.chord.isPlain && seventh.chord.quality == .minorSeventh then
      [[⟨⟨seventh.chord.root.dominant, .dominantSeventh⟩, first.duration⟩, seventh]]
    else []
  | .tritoneSubstitution, [dominant, target] =>
    if dominant.chord.quality == .dominantSeventh && !target.chord.isDiminished &&
        dominant.chord.root == target.chord.root.dominant then
      let quality := Quality.ofFlags target.chord.isMinor true
      [[⟨⟨target.chord.root.flatSupertonic, quality⟩, dominant.duration⟩, target]]
    else []
  | .diatonicAscent, [first, second, third] =>
    let root := first.chord.root
    if second.chord == first.chord && third.chord == first.chord &&
        first.chord.quality == .major then
      [[first, ⟨⟨root.supertonic, .minor⟩, second.duration⟩,
        ⟨⟨root.mediant, .minor⟩, third.duration⟩]]
    else []
  | .diminishedPassing, [first, second, third] =>
    if second.chord == first.chord && first.chord.isPlain &&
        isPassingTarget first.chord third.chord then
      [[first, ⟨⟨first.chord.root.sharpened, .diminishedSeventh⟩, second.duration⟩, third]]
    else []
  | _, _ => []

end Rule

end JazzGrammar
