/-
The steps of a rule are the rows of the rule table, each at every place where it fits, once and from
left to right.
-/

import JazzGrammar.Proofs.Rule

namespace JazzGrammar

/-- The rule table, row by row: the roots and qualities that a rule asks for and those that it puts
in their place. Durations stay in their slots, and a split halves them. -/
inductive Rule.Table : Rule → Progression → Progression → Prop
  | split (root : Root) (quality triad : Quality) (duration : Duration)
      (drops : (quality, triad) ∈ [(.major, .major), (.dominantSeventh, .major), (.minor, .minor),
        (.minorSeventh, .minor)]) :
      Table .split [⟨⟨root, quality⟩, duration⟩]
        [⟨⟨root, triad⟩, duration.half⟩, ⟨⟨root, quality⟩, duration.half⟩]
  | splitSubdominant (root : Root) (quality : Quality) (duration : Duration)
      (undiminished : quality ≠ .diminishedSeventh) :
      Table .splitSubdominant [⟨⟨root, quality⟩, duration⟩]
        [⟨⟨root, quality⟩, duration.half⟩, ⟨⟨root.subdominant, .major⟩, duration.half⟩]
  | dominantOfSeventh (other root : Root) (triad quality : Quality) (first second : Duration)
      (plain : triad ∈ [.major, .minor]) (variant : quality ∈ [.dominantSeventh, .minorSeventh]) :
      Table .dominantOfSeventh [⟨⟨other, triad⟩, first⟩, ⟨⟨root, .dominantSeventh⟩, second⟩]
        [⟨⟨root.dominant, quality⟩, first⟩, ⟨⟨root, .dominantSeventh⟩, second⟩]
  | dominantOfMinorSeventh (other root : Root) (triad : Quality) (first second : Duration)
      (plain : triad ∈ [.major, .minor]) :
      Table .dominantOfMinorSeventh [⟨⟨other, triad⟩, first⟩, ⟨⟨root, .minorSeventh⟩, second⟩]
        [⟨⟨root.dominant, .dominantSeventh⟩, first⟩, ⟨⟨root, .minorSeventh⟩, second⟩]
  | tritoneSubstitution (root : Root) (quality substitute : Quality) (first second : Duration)
      (mode : (quality, substitute) ∈ [(.major, .dominantSeventh),
        (.dominantSeventh, .dominantSeventh), (.minor, .minorSeventh),
        (.minorSeventh, .minorSeventh)]) :
      Table .tritoneSubstitution
        [⟨⟨root.dominant, .dominantSeventh⟩, first⟩, ⟨⟨root, quality⟩, second⟩]
        [⟨⟨root.flatSupertonic, substitute⟩, first⟩, ⟨⟨root, quality⟩, second⟩]
  | diatonicAscent (root : Root) (first second third : Duration) :
      Table .diatonicAscent
        [⟨⟨root, .major⟩, first⟩, ⟨⟨root, .major⟩, second⟩, ⟨⟨root, .major⟩, third⟩]
        [⟨⟨root, .major⟩, first⟩, ⟨⟨root.supertonic, .minor⟩, second⟩,
          ⟨⟨root.mediant, .minor⟩, third⟩]
  | diminishedPassing (root target : Root) (triad quality : Quality)
      (first second third : Duration) (plain : triad ∈ [.major, .minor])
      (undiminished : quality ≠ .diminishedSeventh)
      (passes : target = root.supertonic ∧ quality ∈ [.minor, .minorSeventh] ∨
        target = root.leadingTone ∨ target = root.dominant) :
      Table .diminishedPassing
        [⟨⟨root, triad⟩, first⟩, ⟨⟨root, triad⟩, second⟩, ⟨⟨target, quality⟩, third⟩]
        [⟨⟨root, triad⟩, first⟩, ⟨⟨root.sharpened, .diminishedSeventh⟩, second⟩,
          ⟨⟨target, quality⟩, third⟩]

namespace Quality

theorem isPlain_iff {quality : Quality} :
    quality.isPlain = true ↔ quality ∈ [.major, .minor] := by
  cases quality <;> decide

theorem isMinor_iff {quality : Quality} :
    quality.isMinor = true ↔ quality ∈ [.minor, .minorSeventh] := by
  cases quality <;> decide

theorem isDiminished_iff {quality : Quality} :
    quality.isDiminished = false ↔ quality ≠ .diminishedSeventh := by
  cases quality <;> decide

/-- Without its seventh a chord that is not diminished is a triad of the same mode. -/
theorem withoutSeventh_iff {quality triad : Quality} :
    quality.isDiminished = false ∧ triad = quality.withoutSeventh ↔
      (quality, triad) ∈ [(.major, .major), (.dominantSeventh, .major), (.minor, .minor),
        (.minorSeventh, .minor)] := by
  cases quality <;> cases triad <;> decide

/-- A seventh chord takes its mode over from a chord that is not diminished. -/
theorem seventh_iff {quality substitute : Quality} :
    quality.isDiminished = false ∧ substitute = ofFlags quality.isMinor true ↔
      (quality, substitute) ∈ [(.major, .dominantSeventh), (.dominantSeventh, .dominantSeventh),
        (.minor, .minorSeventh), (.minorSeventh, .minorSeventh)] := by
  cases quality <;> cases substitute <;> decide

end Quality

namespace Rule

theorem isPassingTarget_iff {chord target : Chord} :
    isPassingTarget chord target = true ↔ target.quality ≠ .diminishedSeventh ∧
      (target.root = chord.root.supertonic ∧ target.quality ∈ [.minor, .minorSeventh] ∨
        target.root = chord.root.leadingTone ∨ target.root = chord.root.dominant) := by
  simp only [isPassingTarget, Chord.isDiminished, Chord.isMinor, Bool.and_eq_true,
    Bool.not_eq_true', Bool.or_eq_true, beq_iff_eq, Quality.isDiminished_iff, Quality.isMinor_iff,
    or_assoc]

/-- The table admits what its rows list. -/
theorem admits_iff_table {rule : Rule} {span replacement : Progression} :
    rule.Admits span replacement ↔ rule.Table span replacement := by
  constructor
  · intro admits
    cases admits with
    | split timed undiminished =>
      exact .split _ _ _ _ (Quality.withoutSeventh_iff.1 ⟨undiminished, rfl⟩)
    | splitSubdominant timed undiminished =>
      exact .splitSubdominant _ _ _ (Quality.isDiminished_iff.1 undiminished)
    | dominantOfSeventh first target quality plain seventh variant =>
      obtain ⟨⟨root, _⟩, second⟩ := target
      obtain rfl := seventh
      exact .dominantOfSeventh _ root _ _ _ second (Quality.isPlain_iff.1 plain)
        (by simpa using variant)
    | dominantOfMinorSeventh first target plain seventh =>
      obtain ⟨⟨root, _⟩, second⟩ := target
      obtain rfl := seventh
      exact .dominantOfMinorSeventh _ root _ _ second (Quality.isPlain_iff.1 plain)
    | tritoneSubstitution first target seventh undiminished dominant =>
      obtain ⟨⟨root, _⟩, duration⟩ := first
      obtain rfl := seventh
      obtain rfl := dominant
      exact .tritoneSubstitution _ _ _ duration _ (Quality.seventh_iff.1 ⟨undiminished, rfl⟩)
    | diatonicAscent chord first second third major =>
      obtain ⟨root, _⟩ := chord
      obtain rfl := major
      exact .diatonicAscent root first second third
    | diminishedPassing chord first second target plain passing =>
      obtain ⟨undiminished, passes⟩ := isPassingTarget_iff.1 passing
      exact .diminishedPassing _ _ _ _ first second _ (Quality.isPlain_iff.1 plain) undiminished
        passes
  · intro row
    cases row with
    | split root quality triad duration drops =>
      obtain ⟨undiminished, rfl⟩ := Quality.withoutSeventh_iff.2 drops
      exact .split ⟨⟨root, quality⟩, duration⟩ undiminished
    | splitSubdominant root quality duration undiminished =>
      exact .splitSubdominant ⟨⟨root, quality⟩, duration⟩ (Quality.isDiminished_iff.2 undiminished)
    | dominantOfSeventh other root triad quality first second plain variant =>
      exact .dominantOfSeventh ⟨⟨other, triad⟩, first⟩ ⟨⟨root, .dominantSeventh⟩, second⟩ quality
        (Quality.isPlain_iff.2 plain) rfl (by simpa using variant)
    | dominantOfMinorSeventh other root triad first second plain =>
      exact .dominantOfMinorSeventh ⟨⟨other, triad⟩, first⟩ ⟨⟨root, .minorSeventh⟩, second⟩
        (Quality.isPlain_iff.2 plain) rfl
    | tritoneSubstitution root quality substitute first second mode =>
      obtain ⟨undiminished, rfl⟩ := Quality.seventh_iff.2 mode
      exact .tritoneSubstitution ⟨⟨root.dominant, .dominantSeventh⟩, first⟩
        ⟨⟨root, quality⟩, second⟩ rfl undiminished rfl
    | diatonicAscent root first second third =>
      exact .diatonicAscent ⟨root, .major⟩ first second third rfl
    | diminishedPassing root target triad quality first second third plain undiminished passes =>
      exact .diminishedPassing ⟨root, triad⟩ first second ⟨⟨target, quality⟩, third⟩
        (Quality.isPlain_iff.2 plain) (isPassingTarget_iff.2 ⟨undiminished, passes⟩)

end Rule

namespace Step

/-- Where a step replaces chords, and by which ones. -/
def extent (step : Step) : Nat × Nat × Progression :=
  (step.start, step.stop, step.replacement)

/-- The dominant seventh of a place comes before its minor variant. -/
def VariantOf (one other : Progression) : Prop :=
  ∃ root duration target, one = [⟨⟨root, .dominantSeventh⟩, duration⟩, target] ∧
    other = [⟨⟨root, .minorSeventh⟩, duration⟩, target]

/-- Steps are ordered by their places, and at one place by the variants of the rule. -/
def Precedes (one other : Step) : Prop :=
  one.start < other.start ∨ one.start = other.start ∧ VariantOf one.replacement other.replacement

theorem Precedes.extent_ne {one other : Step} (precedes : Precedes one other) :
    one.extent ≠ other.extent := by
  intro same
  simp only [extent, Prod.mk.injEq] at same
  obtain ⟨starts, _, replacements⟩ := same
  rcases precedes with earlier | ⟨_, root, duration, target, shape, variant⟩
  · exact Nat.ne_of_lt earlier starts
  · simp [shape, variant] at replacements

end Step

namespace Rule

/-- A rule has at most two variants, and the dominant seventh is the first of them. -/
theorem replacements_ordered (rule : Rule) (span : Progression) :
    (rule.replacements span).Pairwise Step.VariantOf := by
  fun_cases replacements rule span <;> simp [Step.VariantOf]

/-- The steps of a rule are listed from left to right. -/
theorem steps_ordered (rule : Rule) (progression : Progression) :
    (rule.steps progression).Pairwise Step.Precedes := by
  rw [steps, List.pairwise_flatMap]
  constructor
  · intro start _
    rw [List.pairwise_map]
    exact (rule.replacements_ordered _).imp fun variant => .inr ⟨rfl, variant⟩
  · apply List.Pairwise.imp_of_mem _ List.pairwise_lt_range
    intro start later within bound less one oneMember other otherMember
    obtain ⟨_, _, rfl⟩ := List.mem_map.1 oneMember
    obtain ⟨_, _, rfl⟩ := List.mem_map.1 otherMember
    rw [List.mem_range] at within bound
    left
    simp only [Step.start, List.length_take]
    omega

/-- The steps of a rule replace every span that has a row in its table by what stands in the row,
and nothing else. Each place and replacement occurs once, from left to right. -/
theorem steps_exact (rule : Rule) (progression : Progression) :
    (∀ start stop replacement,
      (start, stop, replacement) ∈ (rule.steps progression).map Step.extent ↔
        ∃ left span right, progression = left ++ span ++ right ∧ start = left.length ∧
          stop = left.length + span.length ∧ rule.Table span replacement) ∧
    ((rule.steps progression).map Step.extent).Nodup ∧
    (rule.steps progression).Pairwise Step.Precedes ∧
    ∀ step ∈ rule.steps progression,
      step.rule = rule ∧ progression = step.left ++ step.span ++ step.right := by
  refine ⟨?_, ?_, rule.steps_ordered progression, ?_⟩
  · intro start stop replacement
    rw [List.mem_map]
    constructor
    · rintro ⟨step, member, place⟩
      obtain ⟨_, shape, admits⟩ := mem_steps.1 member
      simp only [Step.extent, Prod.mk.injEq] at place
      obtain ⟨rfl, rfl, rfl⟩ := place
      exact ⟨_, _, _, shape, rfl, rfl, admits_iff_table.1 admits⟩
    · rintro ⟨left, span, right, shape, rfl, rfl, row⟩
      exact ⟨⟨rule, left, span, replacement, right⟩,
        mem_steps.2 ⟨rfl, shape, admits_iff_table.2 row⟩, rfl⟩
  · rw [List.Nodup, List.pairwise_map]
    exact (rule.steps_ordered progression).imp Step.Precedes.extent_ne
  · intro step member
    obtain ⟨same, shape, _⟩ := mem_steps.1 member
    exact ⟨same, shape⟩

end Rule

end JazzGrammar
