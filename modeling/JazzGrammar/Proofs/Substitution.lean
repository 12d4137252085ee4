/-
Secondary dominants and their substitutes: where a dominant is put in front of its target, there is
one tritone substitution for it, and none for the substitute.
-/

import JazzGrammar.Proofs.Interval
import JazzGrammar.Proofs.Listing

namespace JazzGrammar

namespace Progression

/-- The listed steps of a rule that replace the chords between two indices. -/
def stepsAt (progression : Progression) (rule : Rule) (start stop : Nat) : List Step :=
  progression.steps.filter fun step =>
    step.rule = rule ∧ step.start = start ∧ step.stop = stop

/-- At one place a rule has a step for each of its variants, because the steps are listed by rule and
then by position. -/
theorem stepsAt_cut {rule : Rule} {span : Progression} (fits : span.length = rule.width)
    (left right : Progression) :
    stepsAt (left ++ span ++ right) rule left.length (left.length + span.length) =
      (rule.replacements span).map fun replacement => ⟨rule, left, span, replacement, right⟩ := by
  have every : rule ∈ Rule.all := by cases rule <;> decide
  have distinct : Rule.all.Nodup := by decide
  have positive := rule.width_positive
  have inside : left.length ∈ List.range (left ++ span ++ right).length := by
    rw [List.mem_range, List.length_append, List.length_append]
    omega
  have place : (left ++ span ++ right).drop left.length = span ++ right := by
    rw [List.append_assoc, List.drop_left]
  rw [stepsAt, steps_eq, List.filter_flatMap, flatMap_eq_of_unique distinct every, Rule.steps,
    List.filter_flatMap, flatMap_eq_of_unique List.nodup_range inside]
  · rw [List.filter_eq_self.2, place, ← fits, List.take_left, List.append_assoc, List.take_left,
      ← List.append_assoc, ← List.length_append, List.drop_left]
    intro step member
    obtain ⟨replacement, _, rfl⟩ := List.mem_map.1 member
    simp [Step.start, Step.stop, ← fits]
  · intro start within differs
    rw [List.filter_eq_nil_iff]
    intro step member
    obtain ⟨replacement, _, rfl⟩ := List.mem_map.1 member
    rw [List.mem_range] at within
    simp only [Step.start, List.length_take, decide_eq_true_eq]
    omega
  · intro other _ differs
    rw [List.filter_eq_nil_iff]
    intro step member
    rw [(Rule.mem_steps.1 member).1]
    simp [differs]

end Progression

namespace Step

/-- A step that inserts the dominant seventh of the chord behind it. -/
def IsSecondaryDominant (step : Step) : Prop :=
  step.rule = .dominantOfMinorSeventh ∨ step.rule = .dominantOfSeventh ∧
    ∃ inserted ∈ step.replacement.head?, inserted.chord.quality = .dominantSeventh

variable {progression : Progression} {step : Step}

/-- What a secondary dominant replaces, and by what. -/
theorem IsSecondaryDominant.cut (secondary : step.IsSecondaryDominant)
    (listed : step ∈ progression.steps) : ∃ first target : TimedChord,
      target.chord.isDiminished = false ∧ step.span = [first, target] ∧
        step.replacement =
          [⟨⟨target.chord.root.dominant, .dominantSeventh⟩, first.duration⟩, target] := by
  obtain ⟨rule, left, span, replacement, right⟩ := step
  obtain ⟨_, admits⟩ := Progression.mem_steps_iff.1 listed
  dsimp only [IsSecondaryDominant] at secondary admits ⊢
  cases admits with
  | dominantOfSeventh first target quality plain seventh variant =>
    obtain ⟨_, inserted, head, dominant⟩ := secondary.resolve_left (by decide)
    obtain rfl := Option.some.inj head
    obtain rfl : quality = .dominantSeventh := dominant
    refine ⟨first, target, ?_, rfl, rfl⟩
    rw [Chord.isDiminished, seventh]
    rfl
  | dominantOfMinorSeventh first target plain seventh =>
    refine ⟨first, target, ?_, rfl, rfl⟩
    rw [Chord.isDiminished, seventh]
    rfl
  | split | splitSubdominant | tritoneSubstitution | diatonicAscent | diminishedPassing =>
    simp at secondary

end Step

namespace TimedChord

/-- The substitute of a dominant lies a tritone from it and half a step above its target. It takes
over the mode of the target and the duration of the dominant. -/
structure SubstitutesFor (substitute dominant target : TimedChord) : Prop where
  tritone : (substitute.chord.root.semitone - dominant.chord.root.semitone) % 12 = 6
  halfStep : (substitute.chord.root.semitone - target.chord.root.semitone) % 12 = 1
  mode : substitute.chord.isMinor = target.chord.isMinor
  duration : substitute.duration = dominant.duration

end TimedChord

namespace Rule

variable (target : TimedChord) (duration : Duration)

/-- The dominant of a target can be substituted in one way. -/
theorem replacements_dominant (undiminished : target.chord.isDiminished = false) :
    replacements .tritoneSubstitution
        [⟨⟨target.chord.root.dominant, .dominantSeventh⟩, duration⟩, target] =
      [[⟨⟨target.chord.root.flatSupertonic, .ofFlags target.chord.isMinor true⟩, duration⟩,
        target]] := by
  simp [replacements, undiminished]

/-- The substitute is no dominant of the target. -/
theorem replacements_flatSupertonic (quality : Quality) :
    replacements .tritoneSubstitution
      [⟨⟨target.chord.root.flatSupertonic, quality⟩, duration⟩, target] = [] := by
  simp [replacements, Root.flatSupertonic_ne_dominant]

end Rule

theorem Quality.isMinor_ofFlags (minor seventh : Bool) :
    (ofFlags minor seventh).isMinor = minor := by
  cases minor <;> cases seventh <;> rfl

namespace Progression

/-- A secondary dominant admits its tritone substitute, once. After every step that puts the
dominant seventh of a seventh chord in front of it, the result has one tritone substitution at the
place of the step. The substitute lies a tritone from the dominant and half a step above the target,
takes over the mode of the target and the duration of the replaced chord, and cannot be substituted
again. -/
theorem substituted_once {progression : Progression} {step : Step}
    (listed : step ∈ progression.steps) (secondary : step.IsSecondaryDominant) :
    ∃ (first dominant target substitute : TimedChord) (after : Progression) (substitution : Step)
      (final : Progression),
      step.span = [first, target] ∧ step.stop = step.start + 2 ∧
      step.replacement = [dominant, target] ∧ dominant.duration = first.duration ∧
      ofTokens step.result.tokens = .ok after ∧
      after.stepsAt .tritoneSubstitution step.start step.stop = [substitution] ∧
      substitution.replacement = [substitute, target] ∧
      substitute.SubstitutesFor dominant target ∧
      ofTokens substitution.result.tokens = .ok final ∧
      final.stepsAt .tritoneSubstitution step.start step.stop = [] := by
  obtain ⟨first, target, undiminished, span, replacement⟩ := secondary.cut listed
  let dominant : TimedChord :=
    ⟨⟨target.chord.root.dominant, .dominantSeventh⟩, first.duration⟩
  let substitute : TimedChord :=
    ⟨⟨target.chord.root.flatSupertonic, .ofFlags target.chord.isMinor true⟩, first.duration⟩
  let substitution : Step := ⟨.tritoneSubstitution, step.left, [dominant, target],
    [substitute, target], step.right⟩
  have stop : step.stop = step.left.length + 2 := by rw [Step.stop, span]; rfl
  have result : step.result = step.left ++ [dominant, target] ++ step.right := by
    rw [Step.result, replacement]
  have related : substitute.SubstitutesFor dominant target :=
    ⟨target.chord.root.semitone_flatSupertonic_sub_dominant,
      target.chord.root.semitone_flatSupertonic_sub, Quality.isMinor_ofFlags _ _, rfl⟩
  refine ⟨first, dominant, target, substitute, step.result, substitution, substitution.result, span,
    stop, replacement, rfl, ofTokens_tokens _, ?_, rfl, related, ofTokens_tokens _, ?_⟩
  · have fits : [dominant, target].length = Rule.tritoneSubstitution.width := rfl
    have found := stepsAt_cut fits step.left step.right
    rw [Rule.replacements_dominant target first.duration undiminished] at found
    rw [result, stop]
    exact found
  · have fits : [substitute, target].length = Rule.tritoneSubstitution.width := rfl
    have found := stepsAt_cut fits step.left step.right
    rw [Rule.replacements_flatSupertonic] at found
    rw [stop]
    exact found

/-- Eight flats on a leading tone. Its dominant has five sharps and its substitute four, for the two
beats of the chord that was there. -/
theorem substituted_once_flats :
    let tonic : TimedChord := ⟨⟨⟨0, 0⟩, .minor⟩, .add .one .one⟩
    let target : TimedChord := .unit ⟨⟨6, -8⟩, .dominantSeventh⟩
    let dominant : TimedChord := ⟨⟨⟨3, 5⟩, .dominantSeventh⟩, .add .one .one⟩
    let substitute : TimedChord := ⟨⟨⟨0, 4⟩, .dominantSeventh⟩, .add .one .one⟩
    let step : Step := ⟨.dominantOfSeventh, [target], [tonic, target], [dominant, target], [tonic]⟩
    let substitution : Step := ⟨.tritoneSubstitution, [target], [dominant, target],
      [substitute, target], [tonic]⟩
    step ∈ steps [target, tonic, target, tonic] ∧ step.IsSecondaryDominant ∧
      substitute.SubstitutesFor dominant target ∧
      stepsAt [target, dominant, target, tonic] .tritoneSubstitution 1 3 = [substitution] ∧
      stepsAt [target, substitute, target, tonic] .tritoneSubstitution 1 3 = [] := by
  intro tonic target dominant substitute step substitution
  have listed : step ∈ steps [target, tonic, target, tonic] := by decide +kernel
  have secondary : step.IsSecondaryDominant := .inr ⟨rfl, dominant, rfl, rfl⟩
  have single : stepsAt [target, dominant, target, tonic] .tritoneSubstitution 1 3 =
      [substitution] := by decide +kernel
  obtain ⟨_, inserted, _, replaced, after, taken, final, _, _, replacement, _, read, found,
    replacing, related, again, never⟩ := substituted_once listed secondary
  rw [ofTokens_tokens] at read again
  obtain rfl := Except.ok.inj read
  obtain rfl := Except.ok.inj again
  obtain rfl : substitution = taken := List.singleton_inj.1 (single.symm.trans found)
  obtain ⟨inserts, targets⟩ := List.cons.inj replacement
  obtain rfl : dominant = inserted := inserts
  obtain rfl := List.singleton_inj.1 targets
  obtain rfl : substitute = replaced := (List.cons.inj replacing).1
  exact ⟨listed, secondary, related, single, never⟩

end Progression

end JazzGrammar
