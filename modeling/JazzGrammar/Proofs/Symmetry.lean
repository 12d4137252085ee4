/-
Changes of roots and durations that the rules do not notice: they take the steps and the levels of a
progression to those of the changed progression.
-/

import JazzGrammar.Proofs.Exploration
import JazzGrammar.Proofs.Listing

namespace JazzGrammar

/-- Steps of one rule at one place, whose chords are related before, in the replacement and in the
result. -/
structure Step.Corresponds (related : Progression → Progression → Prop) (step other : Step) :
    Prop where
  rule : other.rule = step.rule
  start : other.start = step.start
  stop : other.stop = step.stop
  span : related step.span other.span
  replacement : related step.replacement other.replacement
  result : related step.result other.result

/-- Levels whose progressions are all related to progressions of the other one. -/
structure Exploration.Corresponds (related : Progression → Progression → Prop)
    (level other : List (List Text)) : Prop where
  forward : ∀ tokens ∈ level, ∃ before after, Progression.tokens before = tokens ∧
    related before after ∧ Progression.tokens after ∈ other
  backward : ∀ tokens ∈ other, ∃ before after, Progression.tokens after = tokens ∧
    related before after ∧ Progression.tokens before ∈ level

/-- A change of roots that keeps all intervals, with a change of durations that keeps halves. Both
are one-to-one, the change of roots on those that it covers. -/
structure Symmetry where
  root : Root → Root
  duration : Duration → Duration
  Covers : Root → Prop
  covers_shift (origin : Root) (degrees semitones : Int) : Covers (origin.shift degrees semitones)
  root_shift (origin : Root) (degrees semitones : Int) :
    root (origin.shift degrees semitones) = (root origin).shift degrees semitones
  root_injective {one other : Root} :
    Covers one → Covers other → root one = root other → one = other
  duration_half (held : Duration) : duration held.half = (duration held).half
  duration_injective : Function.Injective duration

namespace Symmetry

variable (symmetry : Symmetry)

def chord (chord : Chord) : Chord :=
  ⟨symmetry.root chord.root, chord.quality⟩

def timed (timed : TimedChord) : TimedChord :=
  ⟨symmetry.chord timed.chord, symmetry.duration timed.duration⟩

/-- The image of a progression, chord by chord. -/
def image (progression : Progression) : Progression :=
  progression.map symmetry.timed

/-- The image of a step, part by part. -/
def step (step : Step) : Step where
  rule := step.rule
  left := symmetry.image step.left
  span := symmetry.image step.span
  replacement := symmetry.image step.replacement
  right := symmetry.image step.right

/-- All roots of a progression are covered. -/
def CoversAll (progression : Progression) : Prop :=
  ∀ timed ∈ progression, symmetry.Covers timed.chord.root

@[simp]
theorem root_chord (chord : Chord) : (symmetry.chord chord).root = symmetry.root chord.root := rfl

@[simp]
theorem isMinor_chord (chord : Chord) : (symmetry.chord chord).isMinor = chord.isMinor := rfl

@[simp]
theorem isDiminished_chord (chord : Chord) :
    (symmetry.chord chord).isDiminished = chord.isDiminished := rfl

@[simp]
theorem chord_mk (root : Root) (quality : Quality) :
    symmetry.chord ⟨root, quality⟩ = ⟨symmetry.root root, quality⟩ := rfl

@[simp]
theorem chord_timed (held : TimedChord) : (symmetry.timed held).chord = symmetry.chord held.chord :=
  rfl

@[simp]
theorem timed_mk (chord : Chord) (duration : Duration) :
    symmetry.timed ⟨chord, duration⟩ = ⟨symmetry.chord chord, symmetry.duration duration⟩ := rfl

@[simp]
theorem image_nil : symmetry.image [] = [] := rfl

@[simp]
theorem image_cons (first : TimedChord) (rest : Progression) :
    symmetry.image (first :: rest) = symmetry.timed first :: symmetry.image rest := rfl

variable {symmetry}

/-- A covered root lies at an interval from another one when its image lies so from the image. -/
theorem root_beq_shift {one : Root} (covered : symmetry.Covers one) (other : Root)
    (degrees semitones : Int) :
    (symmetry.root one == (symmetry.root other).shift degrees semitones) =
      (one == other.shift degrees semitones) := by
  rw [← symmetry.root_shift, Bool.eq_iff_iff, beq_iff_eq, beq_iff_eq]
  exact ⟨symmetry.root_injective covered (symmetry.covers_shift _ _ _), congrArg symmetry.root⟩

/-- Chords with covered roots are equal when their images are. -/
theorem chord_beq {one other : Chord} (oneCovered : symmetry.Covers one.root)
    (otherCovered : symmetry.Covers other.root) :
    (symmetry.chord one == symmetry.chord other) = (one == other) := by
  obtain ⟨root, quality⟩ := one
  obtain ⟨otherRoot, otherQuality⟩ := other
  rw [Bool.eq_iff_iff, beq_iff_eq, beq_iff_eq, chord, chord, Chord.mk.injEq, Chord.mk.injEq]
  constructor
  · rintro ⟨roots, qualities⟩
    exact ⟨symmetry.root_injective oneCovered otherCovered roots, qualities⟩
  · rintro ⟨rfl, rfl⟩
    exact ⟨rfl, rfl⟩

/-- Timed chords with covered roots are equal when their images are. -/
theorem timed_injective {one other : TimedChord} (oneCovered : symmetry.Covers one.chord.root)
    (otherCovered : symmetry.Covers other.chord.root)
    (same : symmetry.timed one = symmetry.timed other) : one = other := by
  have chords : one.chord = other.chord := by
    rw [← beq_iff_eq, ← chord_beq oneCovered otherCovered, beq_iff_eq]
    exact congrArg TimedChord.chord same
  have durations := symmetry.duration_injective (congrArg TimedChord.duration same)
  rw [TimedChord.mk.injEq]
  exact ⟨chords, durations⟩

theorem isPassingTarget_chord (one : Chord) {target : Chord}
    (covered : symmetry.Covers target.root) :
    Rule.isPassingTarget (symmetry.chord one) (symmetry.chord target) =
      Rule.isPassingTarget one target := by
  simp only [Rule.isPassingTarget, Root.supertonic, Root.leadingTone, Root.dominant, root_chord,
    isMinor_chord, isDiminished_chord, root_beq_shift covered]

/-- A rule replaces the image of a span by the images of what replaces the span. -/
theorem replacements_image (rule : Rule) {span : Progression} (covered : symmetry.CoversAll span) :
    rule.replacements (symmetry.image span) = (rule.replacements span).map symmetry.image := by
  by_cases fits : span.length = rule.width
  · have distribute := apply_ite (List.map symmetry.image)
    cases rule with
    | split =>
      obtain ⟨held, rfl⟩ := List.length_eq_one_iff.1 fits
      simp only [Rule.replacements, distribute, image_cons, image_nil, List.map_cons, List.map_nil,
        timed_mk, symmetry.duration_half]
      rfl
    | splitSubdominant =>
      obtain ⟨held, rfl⟩ := List.length_eq_one_iff.1 fits
      simp only [Rule.replacements, distribute, image_cons, image_nil, List.map_cons, List.map_nil,
        timed_mk, chord_mk, symmetry.duration_half, Root.subdominant, symmetry.root_shift]
      rfl
    | dominantOfSeventh =>
      obtain ⟨first, target, rfl⟩ := List.length_eq_two.1 fits
      simp only [Rule.replacements, distribute, image_cons, image_nil, List.map_cons, List.map_nil,
        timed_mk, chord_mk, Root.dominant, symmetry.root_shift]
      rfl
    | dominantOfMinorSeventh =>
      obtain ⟨first, target, rfl⟩ := List.length_eq_two.1 fits
      simp only [Rule.replacements, distribute, image_cons, image_nil, List.map_cons, List.map_nil,
        timed_mk, chord_mk, Root.dominant, symmetry.root_shift]
      rfl
    | tritoneSubstitution =>
      obtain ⟨first, target, rfl⟩ := List.length_eq_two.1 fits
      have root := root_beq_shift (covered first List.mem_cons_self) target.chord.root 4 7
      simp only [Rule.replacements, distribute, image_cons, image_nil, List.map_cons, List.map_nil,
        timed_mk, chord_mk, chord_timed, root_chord, Root.flatSupertonic, symmetry.root_shift]
      simp only [Root.dominant, root]
      rfl
    | diatonicAscent =>
      obtain ⟨first, second, third, rfl⟩ := List.length_eq_three.1 fits
      obtain ⟨one, others⟩ := List.forall_mem_cons.1 covered
      obtain ⟨two, last⟩ := List.forall_mem_cons.1 others
      have three := last third List.mem_cons_self
      simp only [Rule.replacements, distribute, image_cons, image_nil, List.map_cons, List.map_nil,
        timed_mk, chord_mk, chord_timed, chord_beq two one, chord_beq three one, Root.supertonic,
        Root.mediant, symmetry.root_shift]
      rfl
    | diminishedPassing =>
      obtain ⟨first, second, third, rfl⟩ := List.length_eq_three.1 fits
      obtain ⟨one, others⟩ := List.forall_mem_cons.1 covered
      obtain ⟨two, last⟩ := List.forall_mem_cons.1 others
      have passing := isPassingTarget_chord first.chord (last third List.mem_cons_self)
      simp only [Rule.replacements, distribute, image_cons, image_nil, List.map_cons, List.map_nil,
        timed_mk, chord_mk, chord_timed, chord_beq two one, passing, Root.sharpened,
        symmetry.root_shift]
      rfl
  · have unfit : (symmetry.image span).length ≠ rule.width := by simpa [image] using fits
    rw [Rule.replacements_eq_nil fits, Rule.replacements_eq_nil unfit, List.map_nil]

/-- What a rule puts in the place of covered roots is covered. -/
theorem covers_replacement {rule : Rule} {span replacement : Progression}
    (covered : symmetry.CoversAll span) (admits : rule.Admits span replacement) :
    symmetry.CoversAll replacement := by
  intro held member
  obtain ⟨origin, inside, same | ⟨degrees, semitones, same⟩⟩ := admits.exists_origin held member
  · rw [same]
    exact covered origin inside
  · rw [same]
    exact symmetry.covers_shift _ _ _

theorem covers_append {left right : Progression} :
    symmetry.CoversAll (left ++ right) ↔ symmetry.CoversAll left ∧ symmetry.CoversAll right :=
  List.forall_mem_append

theorem image_append (left right : Progression) :
    symmetry.image (left ++ right) = symmetry.image left ++ symmetry.image right :=
  List.map_append

/-- The result of a step of covered roots is covered. -/
theorem covers_result {progression : Progression} {step : Step}
    (covered : symmetry.CoversAll progression) (member : step ∈ progression.steps) :
    symmetry.CoversAll step.result := by
  obtain ⟨rfl, admits⟩ := Progression.mem_steps_iff.1 member
  simp only [Step.result, covers_append] at covered ⊢
  exact ⟨⟨covered.1.1, covers_replacement covered.1.2 admits⟩, covered.2⟩

theorem start_step (step : Step) : (symmetry.step step).start = step.start :=
  List.length_map _

theorem stop_step (step : Step) : (symmetry.step step).stop = step.stop := by
  simp [Symmetry.step, Step.stop, image]

theorem result_step (step : Step) : (symmetry.step step).result = symmetry.image step.result := by
  simp [Symmetry.step, Step.result, image_append]

/-- A rule applies to the image of a progression where it applies to the progression. -/
theorem ruleSteps_image (rule : Rule) {progression : Progression}
    (covered : symmetry.CoversAll progression) :
    rule.steps (symmetry.image progression) = (rule.steps progression).map symmetry.step := by
  have size : (symmetry.image progression).length = progression.length := List.length_map _
  rw [Rule.steps, Rule.steps, List.map_flatMap, size]
  congr 1
  funext start
  have span : ((symmetry.image progression).drop start).take rule.width =
      symmetry.image ((progression.drop start).take rule.width) := by
    simp [image, List.map_take, List.map_drop]
  have inside : symmetry.CoversAll ((progression.drop start).take rule.width) :=
    fun held member => covered held (List.mem_of_mem_drop (List.mem_of_mem_take member))
  dsimp only
  rw [span, replacements_image rule inside, List.map_map, List.map_map]
  congr 1
  funext replacement
  simp [Symmetry.step, image, List.map_take, List.map_drop]

/-- The steps of the image of a progression are the images of its steps, in the same order. -/
theorem steps_image {progression : Progression} (covered : symmetry.CoversAll progression) :
    (symmetry.image progression).steps = progression.steps.map symmetry.step := by
  simp only [Progression.steps_eq, List.map_flatMap, ruleSteps_image _ covered]

/-- The steps correspond in any relation between progressions of covered roots and their images. -/
theorem steps_correspond {related : Progression → Progression → Prop}
    (relates : ∀ before, symmetry.CoversAll before → related before (symmetry.image before))
    {progression : Progression} (covered : symmetry.CoversAll progression) :
    List.Forall₂ (Step.Corresponds related)
      progression.steps (symmetry.image progression).steps := by
  rw [steps_image covered, List.forall₂_map_right_iff, List.forall₂_same]
  intro step member
  obtain ⟨rfl, admits⟩ := Progression.mem_steps_iff.1 member
  have span : symmetry.CoversAll step.span := (covers_append.1 (covers_append.1 covered).1).2
  refine ⟨rfl, start_step step, stop_step step, relates _ span,
    relates _ (covers_replacement span admits), ?_⟩
  rw [result_step]
  exact relates _ (covers_result covered member)

/-- Progressions of covered roots are the same when their images are. -/
theorem image_injective {one other : Progression} (oneCovered : symmetry.CoversAll one)
    (otherCovered : symmetry.CoversAll other) (same : symmetry.image one = symmetry.image other) :
    one = other := by
  induction one generalizing other with
  | nil => exact (List.map_eq_nil_iff.1 same.symm).symm
  | cons first rest ih =>
    cases other with
    | nil => contradiction
    | cons next later =>
      obtain ⟨firstCovered, restCovered⟩ := List.forall_mem_cons.1 oneCovered
      obtain ⟨nextCovered, laterCovered⟩ := List.forall_mem_cons.1 otherCovered
      rw [image_cons, image_cons, List.cons.injEq] at same
      rw [timed_injective firstCovered nextCovered same.1, ih restCovered laterCovered same.2]

variable {progression : Progression}

/-- What is reached from covered roots is covered. -/
theorem covers_reached (covered : symmetry.CoversAll progression) {count : Nat}
    {reached : Progression} (reaches : Reaches progression.tokens count reached.tokens) :
    symmetry.CoversAll reached := by
  induction count generalizing reached with
  | zero => exact Progression.tokens_injective reaches ▸ covered
  | succ count ih =>
    obtain ⟨before, sooner, step, member, rfl⟩ := reaches_succ.1 reaches
    exact covers_result (ih sooner) member

/-- From the image of a progression the images of what it reaches are reached. -/
theorem reaches_image (covered : symmetry.CoversAll progression) {count : Nat}
    {reached : Progression} (reaches : Reaches progression.tokens count reached.tokens) :
    Reaches (symmetry.image progression).tokens count (symmetry.image reached).tokens := by
  induction count generalizing reached with
  | zero => rw [Progression.tokens_injective reaches]; rfl
  | succ count ih =>
    obtain ⟨before, sooner, step, member, rfl⟩ := reaches_succ.1 reaches
    refine reaches_succ.2 ⟨_, ih sooner, symmetry.step step, ?_, result_step step⟩
    rw [steps_image (covers_reached covered sooner)]
    exact List.mem_map_of_mem member

/-- From the image of a progression nothing else is reached. -/
theorem exists_reached (covered : symmetry.CoversAll progression) {count : Nat}
    {after : Progression}
    (reaches : Reaches (symmetry.image progression).tokens count after.tokens) :
    ∃ reached, Reaches progression.tokens count reached.tokens ∧
      symmetry.image reached = after := by
  induction count generalizing after with
  | zero => exact ⟨progression, rfl, (Progression.tokens_injective reaches).symm⟩
  | succ count ih =>
    obtain ⟨middle, sooner, step, member, rfl⟩ := reaches_succ.1 reaches
    obtain ⟨before, found, rfl⟩ := ih sooner
    rw [steps_image (covers_reached covered found)] at member
    obtain ⟨origin, inside, rfl⟩ := List.mem_map.1 member
    exact ⟨origin.result, reaches_succ.2 ⟨before, found, origin, inside, rfl⟩,
      (result_step origin).symm⟩

/-- Images are as far from the image of a progression as what they are images of. -/
theorem atDistance_image (covered : symmetry.CoversAll progression) {count : Nat}
    {tokens : List Text} : AtDistance (symmetry.image progression).tokens count tokens ↔
      ∃ reached : Progression, AtDistance progression.tokens count reached.tokens ∧
        (symmetry.image reached).tokens = tokens := by
  constructor
  · rintro ⟨reaches, least⟩
    obtain ⟨after, rfl⟩ := reaches.canonical
    obtain ⟨reached, sooner, rfl⟩ := exists_reached covered reaches
    refine ⟨reached, ⟨sooner, fun fewer less early => ?_⟩, rfl⟩
    exact least fewer less (reaches_image covered early)
  · rintro ⟨reached, ⟨reaches, least⟩, rfl⟩
    refine ⟨reaches_image covered reaches, fun fewer less early => ?_⟩
    obtain ⟨other, sooner, same⟩ := exists_reached covered early
    have equal := image_injective (covers_reached covered sooner)
      (covers_reached covered reaches) same
    exact least fewer less (equal ▸ sooner)

/-- The levels of the image of a progression hold the images of what its own levels hold, so that
they correspond in any relation between progressions of covered roots and their images. -/
theorem explore_correspond {related : Progression → Progression → Prop}
    (relates : ∀ before, symmetry.CoversAll before → related before (symmetry.image before))
    (covered : symmetry.CoversAll progression) (depth : Nat) :
    ∃ levels others, progression.explore depth = .ok levels ∧
      (symmetry.image progression).explore depth = .ok others ∧
      List.Forall₂ (Exploration.Corresponds related) levels others := by
  obtain ⟨levels, found, length, holds⟩ := progression.exists_levels depth
  obtain ⟨others, otherFound, otherLength, otherHolds⟩ :=
    (symmetry.image progression).exists_levels depth
  refine ⟨levels, others, found, otherFound, ?_⟩
  rw [List.forall₂_iff_get]
  refine ⟨length.trans otherLength.symm, fun index within bound => ?_⟩
  have level := holds index _ (List.getElem?_eq_getElem within)
  have other := otherHolds index _ (List.getElem?_eq_getElem bound)
  constructor
  · intro tokens member
    have distance := (level tokens).1 member
    obtain ⟨reached, rfl⟩ := distance.1.canonical
    have image := (atDistance_image covered).2 ⟨reached, distance, rfl⟩
    exact ⟨reached, _, rfl, relates _ (covers_reached covered distance.1), (other _).2 image⟩
  · intro tokens member
    obtain ⟨reached, distance, rfl⟩ := (atDistance_image covered).1 ((other tokens).1 member)
    exact ⟨reached, _, rfl, relates _ (covers_reached covered distance.1), (level _).2 distance⟩

end Symmetry

end JazzGrammar
