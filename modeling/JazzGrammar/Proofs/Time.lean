/-
Derivations conserve time: the total duration stays, and no onset is lost.
-/

import JazzGrammar.Proofs.Rewriting
import JazzGrammar.Proofs.Timeline

namespace JazzGrammar

namespace Rule

/-- A rule that does not split keeps the durations. -/
theorem Admits.durations {rule : Rule} {span replacement : Progression}
    (admits : rule.Admits span replacement) (whole : ¬rule.IsSplit) :
    replacement.durations = span.durations := by
  cases admits with
  | split timed => exact absurd (.inl rfl) whole
  | splitSubdominant timed => exact absurd (.inr rfl) whole
  | dominantOfSeventh | dominantOfMinorSeventh | tritoneSubstitution | diatonicAscent
  | diminishedPassing => rfl

/-- A rule that splits puts two halves in the place of one chord. -/
theorem Admits.halves {rule : Rule} {span replacement : Progression}
    (admits : rule.Admits span replacement) (split : rule.IsSplit) :
    ∃ timed first second, span = [timed] ∧ replacement = [first, second] ∧
      first.duration = timed.duration.half ∧ second.duration = timed.duration.half := by
  cases admits with
  | split timed => exact ⟨timed, _, _, rfl, rfl, rfl, rfl⟩
  | splitSubdominant timed => exact ⟨timed, _, _, rfl, rfl, rfl, rfl⟩
  | dominantOfSeventh | dominantOfMinorSeventh | tritoneSubstitution | diatonicAscent
  | diminishedPassing => rcases split with wrong | wrong <;> contradiction

/-- Every rule keeps the total duration of the span. -/
theorem Admits.total {rule : Rule} {span replacement : Progression}
    (admits : rule.Admits span replacement) : replacement.total = span.total := by
  by_cases split : rule.IsSplit
  · obtain ⟨timed, first, second, rfl, rfl, firstHalf, secondHalf⟩ := admits.halves split
    simp [firstHalf, secondHalf]
  · rw [Progression.total, Progression.total, admits.durations split]

end Rule

namespace Progression

variable {left right : Progression} {timed first second : TimedChord}

/-- The midpoint of a chord is no onset. -/
theorem midpoint_notMem_onsets (left right : Progression) (timed : TimedChord) :
    left.total + timed.duration.value / 2 ∉ (left ++ [timed] ++ right).onsets := by
  have positive := timed.duration.positive
  rw [List.append_assoc, List.singleton_append, onsets_append, onsets_cons, List.mem_append,
    List.map_cons, List.mem_cons, not_or, not_or]
  refine ⟨?_, ?_, ?_⟩
  · intro early
    have bounds := onset_bounds early
    linarith
  · intro same
    linarith
  · intro late
    rw [List.map_map] at late
    obtain ⟨onset, member, same⟩ := List.mem_map.1 late
    have bounds := onset_bounds member
    simp only [Function.comp_apply] at same
    linarith

/-- Splitting a chord adds its midpoint to the onsets. -/
theorem onsets_halves (firstHalf : first.duration = timed.duration.half)
    (secondHalf : second.duration = timed.duration.half) :
    (left ++ [first, second] ++ right).onsets =
      (left ++ [timed] ++ right).onsets.take (left.length + 1) ++
        (left.total + timed.duration.value / 2) ::
          (left ++ [timed] ++ right).onsets.drop (left.length + 1) := by
  have size : left.onsets.length = left.length := by simp [onsets]
  have later : (right.onsets.map (second.duration.value + ·)).map (first.duration.value + ·) =
      right.onsets.map (timed.duration.value + ·) := by
    rw [List.map_map, firstHalf, secondHalf]
    refine List.map_congr_left fun onset _ => ?_
    simp only [Function.comp_apply, Duration.value_half]
    ring
  have before : (left ++ [timed] ++ right).onsets = left.onsets ++
      ([left.total] ++ (right.onsets.map (timed.duration.value + ·)).map (left.total + ·)) := by
    rw [List.append_assoc, List.singleton_append, onsets_append, onsets_cons]
    simp
  have after : (left ++ [first, second] ++ right).onsets = left.onsets ++ ([left.total] ++
      (left.total + timed.duration.value / 2) ::
        (right.onsets.map (timed.duration.value + ·)).map (left.total + ·)) := by
    rw [List.append_assoc, List.cons_append, List.singleton_append, onsets_append, onsets_cons,
      onsets_cons, List.map_cons, List.map_cons, List.map_cons, later, firstHalf]
    simp
  rw [before, after, ← size, List.take_length_add_append, List.drop_length_add_append]
  simp

/-- A step without split keeps the durations. -/
theorem Rewrites.durations {rule : Rule} {before after : Progression}
    (step : Rewrites rule before after) (whole : ¬rule.IsSplit) :
    after.durations = before.durations := by
  obtain ⟨left, span, replacement, right, rfl, rfl, admits⟩ := rewrites_iff.1 step
  have same := admits.durations whole
  simp only [Progression.durations, List.map_append] at same ⊢
  rw [same]

/-- One step keeps the total duration and every onset. -/
theorem Rewrites.time {rule : Rule} {before after : Progression}
    (step : Rewrites rule before after) :
    after.total = before.total ∧ before.onsets ⊆ after.onsets := by
  obtain ⟨left, span, replacement, right, rfl, rfl, admits⟩ := rewrites_iff.1 step
  constructor
  · simp only [total_append, admits.total]
  · by_cases split : rule.IsSplit
    · obtain ⟨timed, first, second, rfl, rfl, firstHalf, secondHalf⟩ := admits.halves split
      rw [onsets_halves firstHalf secondHalf]
      intro onset member
      rw [← List.take_append_drop (left.length + 1) (left ++ [timed] ++ right).onsets,
        List.mem_append] at member
      rcases member with early | late
      · exact List.mem_append_left _ early
      · exact List.mem_append_right _ (List.mem_cons_of_mem _ late)
    · rw [onsets_of_durations (step.durations split)]
      exact List.Subset.refl _

/-- A derivation keeps the total duration and every onset. -/
theorem Derives.time {rules : List Rule} {before after : Progression}
    (run : Derives rules before after) :
    after.total = before.total ∧ before.onsets ⊆ after.onsets := by
  induction run with
  | done progression => exact ⟨rfl, List.Subset.refl _⟩
  | step first rest ih =>
    obtain ⟨total, onsets⟩ := first.time
    exact ⟨ih.1.trans total, List.Subset.trans onsets ih.2⟩

/-- Time is conserved over every derivation. One step reads back without a fault, replaces a span by
one of the same total duration, and either adds the midpoint of the chord that it splits as the one
new onset or leaves the durations as they were. -/
theorem time_conserved (progression : Progression) :
    (∀ rules after, Derives rules progression after →
      after.total = progression.total ∧ progression.onsets ⊆ after.onsets) ∧
    ∀ step ∈ progression.steps, step.span.total = step.replacement.total ∧
      ∃ after, ofTokens step.result.tokens = .ok after ∧
        (step.rule.IsSplit → ∃ timed midpoint, progression[step.start]? = some timed ∧
          midpoint = total (progression.take step.start) + timed.duration.value / 2 ∧
          midpoint ∉ progression.onsets ∧
          after.onsets = progression.onsets.take (step.start + 1) ++
            midpoint :: progression.onsets.drop (step.start + 1)) ∧
        (¬step.rule.IsSplit → after.durations = progression.durations) := by
  refine ⟨fun rules after run => run.time, ?_⟩
  intro step member
  obtain ⟨_, shape, admits⟩ := Rule.mem_steps.1 (mem_steps member)
  refine ⟨admits.total.symm, step.result, ofTokens_tokens _, ?_, ?_⟩
  · intro split
    obtain ⟨timed, first, second, span, replacement, firstHalf, secondHalf⟩ := admits.halves split
    rw [span] at shape
    refine ⟨timed, _, ?_, rfl, ?_, ?_⟩
    · simp [shape, Step.start]
    · rw [shape, Step.start, List.append_assoc, List.take_left, ← List.append_assoc]
      exact midpoint_notMem_onsets step.left step.right timed
    · rw [shape, Step.start, Step.result, replacement, onsets_halves firstHalf secondHalf,
        List.append_assoc step.left, List.take_left]
  · intro whole
    have same := admits.durations whole
    rw [shape, Step.result]
    simp only [durations, List.map_append] at same ⊢
    rw [same]

/-- A tonic of two beats is split, and its second half becomes a secondary dominant. -/
theorem time_conserved_secondary_dominant :
    let tonic : Chord := ⟨⟨0, 0⟩, .major⟩
    let dominant : Chord := ⟨⟨4, 0⟩, .dominantSeventh⟩
    let before : Progression := [⟨tonic, Duration.one.add .one⟩, .unit dominant]
    let after : Progression :=
      [.unit tonic, .unit ⟨⟨1, 0⟩, .dominantSeventh⟩, .unit dominant]
    Derives [.split, .dominantOfSeventh] before after ∧ after.total = before.total ∧
      before.onsets ⊆ after.onsets := by
  intro tonic dominant before after
  have half : (Duration.one.add .one).half = .one := Duration.ext (by decide +kernel)
  have root : dominant.root.dominant = ⟨1, 0⟩ := by decide
  have halved := Rule.Admits.split ⟨tonic, Duration.one.add .one⟩ rfl
  have replaced := Rule.Admits.dominantOfSeventh (.unit tonic) (.unit dominant) .dominantSeventh
    rfl rfl (.inl rfl)
  rw [half] at halved
  change Rule.Admits _ _ [⟨⟨dominant.root.dominant, _⟩, _⟩, _] at replaced
  rw [root] at replaced
  have run : Derives [.split, .dominantOfSeventh] before after :=
    .step (rewrites_iff.2 ⟨[], _, _, [.unit dominant], rfl, rfl, halved⟩)
      (.step (rewrites_iff.2 ⟨[.unit tonic], _, _, [], rfl, rfl, replaced⟩) (.done _))
  exact ⟨run, (time_conserved before).1 _ _ run⟩

end Progression

end JazzGrammar
