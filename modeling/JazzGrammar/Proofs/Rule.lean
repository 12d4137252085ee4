/-
The replacements that each rule makes, and the steps that come of them.
-/

import JazzGrammar.Step
import Mathlib.Tactic.Cases

namespace JazzGrammar

/-- The spans that a rule replaces and what it puts in their place, in the terms by which a rule tests
chords. The effects of a rule are proved by the cases of this relation; `Rule.Table` lists the same
replacements by their roots and qualities, as a reader of the rules knows them. -/
inductive Rule.Admits : Rule → Progression → Progression → Prop
  | split (timed : TimedChord) (undiminished : timed.chord.isDiminished = false) :
      Admits .split [timed]
        [⟨timed.chord.withoutSeventh, timed.duration.half⟩, ⟨timed.chord, timed.duration.half⟩]
  | splitSubdominant (timed : TimedChord) (undiminished : timed.chord.isDiminished = false) :
      Admits .splitSubdominant [timed]
        [⟨timed.chord, timed.duration.half⟩,
          ⟨⟨timed.chord.root.subdominant, .major⟩, timed.duration.half⟩]
  | dominantOfSeventh (first target : TimedChord) (quality : Quality)
      (plain : first.chord.isPlain = true) (seventh : target.chord.quality = .dominantSeventh)
      (variant : quality = .dominantSeventh ∨ quality = .minorSeventh) :
      Admits .dominantOfSeventh [first, target]
        [⟨⟨target.chord.root.dominant, quality⟩, first.duration⟩, target]
  | dominantOfMinorSeventh (first target : TimedChord)
      (plain : first.chord.isPlain = true) (seventh : target.chord.quality = .minorSeventh) :
      Admits .dominantOfMinorSeventh [first, target]
        [⟨⟨target.chord.root.dominant, .dominantSeventh⟩, first.duration⟩, target]
  | tritoneSubstitution (first target : TimedChord)
      (seventh : first.chord.quality = .dominantSeventh)
      (undiminished : target.chord.isDiminished = false)
      (dominant : first.chord.root = target.chord.root.dominant) :
      Admits .tritoneSubstitution [first, target]
        [⟨⟨target.chord.root.flatSupertonic, .ofFlags target.chord.isMinor true⟩,
          first.duration⟩, target]
  | diatonicAscent (chord : Chord) (first second third : Duration)
      (major : chord.quality = .major) :
      Admits .diatonicAscent [⟨chord, first⟩, ⟨chord, second⟩, ⟨chord, third⟩]
        [⟨chord, first⟩, ⟨⟨chord.root.supertonic, .minor⟩, second⟩,
          ⟨⟨chord.root.mediant, .minor⟩, third⟩]
  | diminishedPassing (chord : Chord) (first second : Duration) (target : TimedChord)
      (plain : chord.isPlain = true) (passing : isPassingTarget chord target.chord = true) :
      Admits .diminishedPassing [⟨chord, first⟩, ⟨chord, second⟩, target]
        [⟨chord, first⟩, ⟨⟨chord.root.sharpened, .diminishedSeventh⟩, second⟩, target]

namespace Rule

/-- The two rules that cut a chord in half. -/
def IsSplit (rule : Rule) : Prop :=
  rule = .split ∨ rule = .splitSubdominant

instance (rule : Rule) : Decidable rule.IsSplit :=
  inferInstanceAs (Decidable (_ ∨ _))

theorem Admits.length_span {rule : Rule} {span replacement : Progression}
    (admits : rule.Admits span replacement) : span.length = rule.width := by
  cases admits <;> rfl

theorem width_positive (rule : Rule) : 0 < rule.width := by
  cases rule <;> decide

/-- What is computed is in the table. -/
theorem admits_of_mem_replacements {rule : Rule} {span replacement : Progression}
    (member : replacement ∈ rule.replacements span) : rule.Admits span replacement := by
  unfold replacements at member
  split at member
  · rename_i timed
    split at member
    · contradiction
    · rename_i undiminished
      rw [List.mem_singleton.1 member]
      exact .split timed (by simpa using undiminished)
  · rename_i timed
    split at member
    · contradiction
    · rename_i undiminished
      rw [List.mem_singleton.1 member]
      exact .splitSubdominant timed (by simpa using undiminished)
  · rename_i first target
    split at member
    · rename_i fits
      simp only [Bool.and_eq_true, beq_iff_eq] at fits
      simp only [List.mem_cons, List.not_mem_nil, or_false] at member
      rcases member with rfl | rfl
      · exact .dominantOfSeventh first target _ fits.1 fits.2 (.inl rfl)
      · exact .dominantOfSeventh first target _ fits.1 fits.2 (.inr rfl)
    · contradiction
  · rename_i first target
    split at member
    · rename_i fits
      simp only [Bool.and_eq_true, beq_iff_eq] at fits
      rw [List.mem_singleton.1 member]
      exact .dominantOfMinorSeventh first target fits.1 fits.2
    · contradiction
  · rename_i first target
    split at member
    · rename_i fits
      simp only [Bool.and_eq_true, beq_iff_eq, Bool.not_eq_true'] at fits
      rw [List.mem_singleton.1 member]
      exact .tritoneSubstitution first target fits.1.1 fits.1.2 fits.2
    · contradiction
  · rename_i first second third
    dsimp only at member
    split at member
    · rename_i fits
      obtain ⟨chord, duration⟩ := first
      obtain ⟨secondChord, secondDuration⟩ := second
      obtain ⟨thirdChord, thirdDuration⟩ := third
      simp only [Bool.and_eq_true, beq_iff_eq] at fits
      obtain ⟨⟨rfl, rfl⟩, major⟩ := fits
      rw [List.mem_singleton.1 member]
      exact .diatonicAscent _ duration secondDuration thirdDuration major
    · contradiction
  · rename_i first second third
    split at member
    · rename_i fits
      obtain ⟨chord, duration⟩ := first
      obtain ⟨secondChord, secondDuration⟩ := second
      simp only [Bool.and_eq_true, beq_iff_eq] at fits
      obtain ⟨⟨rfl, plain⟩, passing⟩ := fits
      rw [List.mem_singleton.1 member]
      exact .diminishedPassing _ duration secondDuration third plain passing
    · contradiction
  · contradiction

/-- What is in the table is computed. -/
theorem Admits.mem_replacements {rule : Rule} {span replacement : Progression}
    (admits : rule.Admits span replacement) : replacement ∈ rule.replacements span := by
  cases admits with
  | split timed undiminished => simp [replacements, undiminished]
  | splitSubdominant timed undiminished => simp [replacements, undiminished]
  | dominantOfSeventh first target quality plain seventh variant =>
    rcases variant with rfl | rfl <;> simp [replacements, plain, seventh]
  | dominantOfMinorSeventh first target plain seventh => simp [replacements, plain, seventh]
  | tritoneSubstitution first target seventh undiminished dominant =>
    simp [replacements, seventh, undiminished, dominant]
  | diatonicAscent chord first second third major => simp [replacements, major]
  | diminishedPassing chord first second target plain passing =>
    simp [replacements, plain, passing]

/-- The computed replacements are those of the table. -/
theorem mem_replacements {rule : Rule} {span replacement : Progression} :
    replacement ∈ rule.replacements span ↔ rule.Admits span replacement :=
  ⟨admits_of_mem_replacements, Admits.mem_replacements⟩

/-- A rule has variants for spans of its width only. -/
theorem replacements_eq_nil {rule : Rule} {span : Progression} (unfit : span.length ≠ rule.width) :
    rule.replacements span = [] := by
  rw [List.eq_nil_iff_forall_not_mem]
  intro replacement member
  exact unfit (mem_replacements.1 member).length_span

/-- The roots of a replacement are roots of the span or lie at an interval from one of them. -/
theorem Admits.exists_origin {rule : Rule} {span replacement : Progression}
    (admits : rule.Admits span replacement) : ∀ timed ∈ replacement, ∃ origin ∈ span,
      timed.chord.root = origin.chord.root ∨
        ∃ degrees semitones, timed.chord.root = origin.chord.root.shift degrees semitones := by
  cases admits with
  | split timed => simp [Chord.withoutSeventh]
  | splitSubdominant timed =>
    have subdominant : ∃ degrees semitones,
        timed.chord.root.subdominant = timed.chord.root.shift degrees semitones := ⟨3, 5, rfl⟩
    simp [subdominant]
  | dominantOfSeventh first target =>
    have dominant : ∃ degrees semitones,
        target.chord.root.dominant = target.chord.root.shift degrees semitones := ⟨4, 7, rfl⟩
    simp [dominant]
  | dominantOfMinorSeventh first target =>
    have dominant : ∃ degrees semitones,
        target.chord.root.dominant = target.chord.root.shift degrees semitones := ⟨4, 7, rfl⟩
    simp [dominant]
  | tritoneSubstitution first target =>
    have supertonic : ∃ degrees semitones,
        target.chord.root.flatSupertonic = target.chord.root.shift degrees semitones := ⟨1, 1, rfl⟩
    simp [supertonic]
  | diatonicAscent chord =>
    have supertonic : ∃ degrees semitones,
        chord.root.supertonic = chord.root.shift degrees semitones := ⟨1, 2, rfl⟩
    have mediant : ∃ degrees semitones,
        chord.root.mediant = chord.root.shift degrees semitones := ⟨2, 4, rfl⟩
    simp [supertonic, mediant]
  | diminishedPassing chord =>
    have sharpened : ∃ degrees semitones,
        chord.root.sharpened = chord.root.shift degrees semitones := ⟨0, 1, rfl⟩
    simp [sharpened]

/-- The steps of a rule cut the progression in three and replace the middle by the table. -/
theorem mem_steps {rule : Rule} {progression : Progression} {step : Step} :
    step ∈ rule.steps progression ↔ step.rule = rule ∧
      progression = step.left ++ step.span ++ step.right ∧
        rule.Admits step.span step.replacement := by
  constructor
  · intro member
    simp only [steps, List.mem_flatMap, List.mem_map, mem_replacements] at member
    obtain ⟨start, _, replacement, admits, rfl⟩ := member
    refine ⟨rfl, ?_, admits⟩
    dsimp only
    rw [List.append_assoc, ← List.drop_drop, List.take_append_drop, List.take_append_drop]
  · rintro ⟨rfl, rfl, admits⟩
    obtain ⟨rule, left, span, replacement, right⟩ := step
    have width : span.length = rule.width := admits.length_span
    have positive := rule.width_positive
    simp only [steps, List.mem_flatMap, List.mem_map, List.mem_range, mem_replacements]
    refine ⟨left.length, ?_, replacement, ?_, ?_⟩
    · simp only [List.length_append]
      omega
    · simpa only [List.append_assoc, List.drop_left, ← width, List.take_left] using admits
    · simp only [List.append_assoc, List.drop_left, ← width, List.take_left, Step.mk.injEq,
        true_and]
      rw [← List.drop_drop, List.drop_left, List.drop_left]

end Rule

end JazzGrammar
