/-
Diminished sevenths stay: no rule takes one into its span, so that derivations keep each of them in
its place in time, and only the passing chord adds to their number.
-/

import JazzGrammar.Proofs.Time

namespace JazzGrammar

namespace Quality

theorem isDiminished_of_isPlain {quality : Quality} (plain : quality.isPlain = true) :
    quality.isDiminished = false := by
  cases quality with
  | major | minor => rfl
  | dominantSeventh | minorSeventh | diminishedSeventh => contradiction

@[simp]
theorem isDiminished_ofFlags (minor seventh : Bool) :
    (ofFlags minor seventh).isDiminished = false := by
  cases minor <;> cases seventh <;> rfl

end Quality

namespace Rule

variable {rule : Rule} {span replacement : Progression}

/-- The rules ask for chords without diminished seventh at every place of a span. -/
theorem Admits.undiminished (admits : rule.Admits span replacement) :
    ∀ timed ∈ span, timed.chord.isDiminished = false := by
  cases admits with
  | split timed undiminished => simpa using undiminished
  | splitSubdominant timed undiminished => simpa using undiminished
  | dominantOfSeventh first target quality plain seventh =>
    have one : first.chord.isDiminished = false := Quality.isDiminished_of_isPlain plain
    have other : target.chord.isDiminished = false := congrArg Quality.isDiminished seventh
    simp [one, other]
  | dominantOfMinorSeventh first target plain seventh =>
    have one : first.chord.isDiminished = false := Quality.isDiminished_of_isPlain plain
    have other : target.chord.isDiminished = false := congrArg Quality.isDiminished seventh
    simp [one, other]
  | tritoneSubstitution first target seventh undiminished =>
    have one : first.chord.isDiminished = false := congrArg Quality.isDiminished seventh
    simp [one, undiminished]
  | diatonicAscent chord first second third major =>
    have each : chord.isDiminished = false := congrArg Quality.isDiminished major
    simp [each]
  | diminishedPassing chord first second target plain passing =>
    have each : chord.isDiminished = false := Quality.isDiminished_of_isPlain plain
    have other : target.chord.isDiminished = false := by
      simp only [isPassingTarget, Bool.and_eq_true, Bool.not_eq_true'] at passing
      exact passing.1
    simp [each, other]

/-- The spans of a rule are not empty. -/
theorem Admits.exists_undiminished (admits : rule.Admits span replacement) :
    ∃ timed ∈ span, timed.chord.isDiminished = false := by
  have nonempty : span ≠ [] := by
    rw [← List.length_pos_iff, admits.length_span]
    exact rule.width_positive
  obtain ⟨timed, member⟩ := List.exists_mem_of_ne_nil span nonempty
  exact ⟨timed, member, admits.undiminished timed member⟩

/-- Only the rule of the passing chord puts a diminished seventh in. -/
theorem Admits.countP_diminished (admits : rule.Admits span replacement) :
    replacement.countP (·.chord.isDiminished) = if rule = .diminishedPassing then 1 else 0 := by
  have kept := admits.undiminished
  cases admits with
  | split timed undiminished =>
    have triad : Chord.isDiminished timed.chord.withoutSeventh = false :=
      Quality.isDiminished_ofFlags _ _
    simp [triad, undiminished]
  | splitSubdominant timed undiminished =>
    have subdominant : Chord.isDiminished ⟨timed.chord.root.subdominant, .major⟩ = false := rfl
    simp [subdominant, undiminished]
  | dominantOfSeventh first target quality plain seventh variant =>
    have dominant : Chord.isDiminished ⟨target.chord.root.dominant, quality⟩ = false := by
      rcases variant with rfl | rfl <;> rfl
    simp [dominant, kept target]
  | dominantOfMinorSeventh first target plain seventh =>
    have dominant : Chord.isDiminished ⟨target.chord.root.dominant, .dominantSeventh⟩ = false := rfl
    simp [dominant, kept target]
  | tritoneSubstitution first target =>
    have substitute : Chord.isDiminished ⟨target.chord.root.flatSupertonic,
        .ofFlags target.chord.isMinor true⟩ = false := Quality.isDiminished_ofFlags _ _
    simp [substitute, kept target]
  | diatonicAscent chord first second third =>
    have supertonic : Chord.isDiminished ⟨chord.root.supertonic, .minor⟩ = false := rfl
    have mediant : Chord.isDiminished ⟨chord.root.mediant, .minor⟩ = false := rfl
    simp [supertonic, mediant, kept ⟨chord, first⟩]
  | diminishedPassing chord first second target =>
    have passing : Chord.isDiminished ⟨chord.root.sharpened, .diminishedSeventh⟩ = true := rfl
    have each : chord.isDiminished = false := kept ⟨chord, first⟩ (by simp)
    simp [passing, each, kept target]

end Rule

namespace Progression

/-- The chord begins at the onset, which is the total duration of the chords before it. -/
def Begins (progression : Progression) (onset : Rat) (timed : TimedChord) : Prop :=
  ∃ index, progression[index]? = some timed ∧ total (progression.take index) = onset

variable {rule : Rule} {rules : List Rule} {before after front back : Progression}
  {onset : Rat} {timed : TimedChord}

theorem Begins.mem (begins : Begins before onset timed) : timed ∈ before := by
  obtain ⟨index, found, _⟩ := begins
  exact List.mem_of_getElem? found

/-- What begins in the second part begins after the whole first part. -/
theorem begins_append_iff : Begins (front ++ back) onset timed ↔
    Begins front onset timed ∨ Begins back (onset - front.total) timed := by
  constructor
  · rintro ⟨index, found, rfl⟩
    by_cases early : index < front.length
    · left
      rw [List.getElem?_append_left early] at found
      exact ⟨index, found, by rw [List.take_append_of_le_length early.le]⟩
    · right
      obtain ⟨place, rfl⟩ := Nat.exists_eq_add_of_le (Nat.not_lt.1 early)
      rw [List.getElem?_append_right (Nat.le_add_right _ _), Nat.add_sub_cancel_left] at found
      exact ⟨place, found, by rw [List.take_length_add_append, total_append, add_sub_cancel_left]⟩
  · rintro (⟨index, found, rfl⟩ | ⟨place, found, rest⟩)
    · have early := (List.getElem?_eq_some_iff.1 found).1
      refine ⟨index, ?_, ?_⟩
      · rw [List.getElem?_append_left early, found]
      · rw [List.take_append_of_le_length early.le]
    · refine ⟨front.length + place, ?_, ?_⟩
      · rw [List.getElem?_append_right (Nat.le_add_right _ _), Nat.add_sub_cancel_left, found]
      · rw [List.take_length_add_append, total_append, rest, add_sub_cancel]

/-- One step keeps every diminished seventh in its place. -/
theorem Rewrites.begins (step : Rewrites rule before after)
    (diminished : timed.chord.isDiminished = true) (begins : Begins before onset timed) :
    Begins after onset timed := by
  obtain ⟨left, span, replacement, right, rfl, rfl, admits⟩ := rewrites_iff.1 step
  rw [begins_append_iff, begins_append_iff, total_append] at begins ⊢
  rw [admits.total]
  rcases begins with (early | inside) | late
  · exact .inl (.inl early)
  · have undiminished := admits.undiminished timed inside.mem
    rw [diminished] at undiminished
    contradiction
  · exact .inr late

/-- A derivation keeps every diminished seventh in its place. -/
theorem Derives.begins (run : Derives rules before after)
    (diminished : timed.chord.isDiminished = true) (begins : Begins before onset timed) :
    Begins after onset timed := by
  induction run with
  | done progression => exact begins
  | step first rest ih => exact ih (first.begins diminished begins)

/-- A derivation adds one diminished seventh with each passing chord. -/
theorem Derives.countP_diminished (run : Derives rules before after) :
    after.countP (·.chord.isDiminished) =
      before.countP (·.chord.isDiminished) + rules.count .diminishedPassing := by
  refine run.countP _ (· == .diminishedPassing) fun {rule span replacement} admits => ?_
  have absent : span.countP (·.chord.isDiminished) = 0 := by
    simpa only [List.countP_eq_zero, Bool.not_eq_true] using admits.undiminished
  rw [admits.countP_diminished, absent, Nat.zero_add]
  simp only [beq_iff_eq]

/-- Diminished sevenths are permanent. Whatever rules are applied, each of them remains the same
chord at the same onset and for the same duration, and the applications of the passing chord are
exactly the diminished sevenths that are added. -/
theorem diminished_permanent (run : Derives rules before after) :
    (∀ index timed, before[index]? = some timed → timed.chord.isDiminished = true →
      ∃ place, after[place]? = some timed ∧ total (after.take place) = total (before.take index)) ∧
    after.countP (·.chord.isDiminished) =
      before.countP (·.chord.isDiminished) + rules.count .diminishedPassing := by
  refine ⟨fun index timed found diminished => ?_, run.countP_diminished⟩
  exact run.begins diminished ⟨index, found, rfl⟩

/-- A tonic is split and its second half becomes a passing chord. The diminished seventh behind it
has one chord more in front of it and begins at the same time as before. -/
theorem diminished_permanent_passing :
    let tonic : Chord := ⟨⟨0, 0⟩, .major⟩
    let dominant : TimedChord := .unit ⟨⟨4, 0⟩, .dominantSeventh⟩
    let diminished : TimedChord := .unit ⟨⟨1, 1⟩, .diminishedSeventh⟩
    let before : Progression := [⟨tonic, Duration.one.add .one⟩, dominant, diminished]
    let after : Progression :=
      [.unit tonic, .unit ⟨⟨0, 1⟩, .diminishedSeventh⟩, dominant, diminished]
    Derives [.split, .diminishedPassing] before after ∧
      (∃ place, after[place]? = some diminished ∧
        total (after.take place) = total (before.take 2)) ∧
      after.countP (·.chord.isDiminished) = before.countP (·.chord.isDiminished) + 1 := by
  intro tonic dominant diminished before after
  have half : (Duration.one.add .one).half = .one := Duration.ext (by decide +kernel)
  have halved := Rule.Admits.split ⟨tonic, Duration.one.add .one⟩ rfl
  have passed := Rule.Admits.diminishedPassing tonic .one .one dominant rfl (by decide)
  have root : tonic.root.sharpened = ⟨0, 1⟩ := by decide
  rw [half] at halved
  rw [root] at passed
  have run : Derives [.split, .diminishedPassing] before after :=
    .step (.of_admits halved [] [dominant, diminished])
      (.step (.of_admits passed [] [diminished]) (.done _))
  obtain ⟨kept, count⟩ := diminished_permanent run
  exact ⟨run, kept 2 diminished rfl rfl, count⟩

end Progression

end JazzGrammar
