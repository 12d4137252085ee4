/-
A written grid is a canonical form of what sounds. Progressions are written alike exactly when they
sound alike up to the ends of their last bars, however they are cut into chords.
-/

import JazzGrammar.Proofs.Grid.Alignment
import JazzGrammar.Proofs.Grid.RoundTrip
import JazzGrammar.Proofs.Sound

namespace JazzGrammar.Grid

section Slots

variable {perBeat : Nat} (positive : 0 < perBeat)

/-- A slot sounds from the instant that it starts at. -/
theorem chordAt_sounding (slots : List Chord) (index : Nat) :
    (sounding perBeat positive slots).chordAt (index / perBeat) = slots[index]? := by
  induction slots generalizing index with
  | nil => rfl
  | cons first rest ih =>
    rw [sounding, List.map_cons]
    cases index with
    | zero =>
      rw [Nat.cast_zero, zero_div]
      exact Progression.chordAt_before _ (Duration.part perBeat positive).positive
    | succ index =>
      have behind : ((index + 1 : Nat) : Rat) / perBeat =
          (Duration.part perBeat positive).value + index / perBeat := by
        rw [Duration.value_part, Nat.cast_succ, add_div, add_comm]
      have late : (0 : Rat) ≤ index / perBeat :=
        div_nonneg (Nat.cast_nonneg _) (Nat.cast_nonneg _)
      rw [behind, Progression.chordAt_after ⟨first, .part perBeat positive⟩ _ late]
      exact ih index

/-- Different slots of one size sound different. -/
theorem eq_of_mergeRuns_sounding {one other : List Chord}
    (same : (sounding perBeat positive one).mergeRuns =
      (sounding perBeat positive other).mergeRuns) : one = other := by
  apply List.ext_getElem?
  intro index
  have late : (0 : Rat) ≤ index / perBeat := div_nonneg (Nat.cast_nonneg _) (Nat.cast_nonneg _)
  rw [← chordAt_sounding positive, ← chordAt_sounding positive,
    Progression.mergeRuns_eq_iff.1 same _ late]

end Slots

section Layout

variable {options : Options}

/-- The text of full bars does not depend on how far their beats were divided. -/
theorem barsText_stretch {perBeat factor : Nat} (checked : options.check = .ok ())
    (positive : 0 < perBeat) (divided : 0 < factor) (slots : List Chord) :
    barsText options (perBeat * factor) (Run.stretch factor slots) =
      barsText options perBeat slots := by
  rw [barsText, barsText, ← Nat.mul_assoc,
    cut_stretch divided (Nat.mul_pos (beatsPerBar_positive checked) positive) positive]

/-- Full bars have the same text exactly when they sound alike, whatever their subdivisions are.
Both can be divided up to the product of their subdivisions, where alike sounds are equal slots. -/
theorem FillsBars.text_eq_iff {one other : Nat} {oneFull otherFull : Progression}
    {oneSlots otherSlots : List Chord} (oneFills : FillsBars options one oneFull oneSlots)
    (otherFills : FillsBars options other otherFull otherSlots) :
    barsText options one oneSlots = barsText options other otherSlots ↔
      oneFull.mergeRuns = otherFull.mergeRuns := by
  constructor
  · intro same
    have found := oneFills.read
    rw [same, otherFills.read] at found
    exact (Except.ok.inj found).symm
  · intro same
    have positive := Nat.mul_pos oneFills.positive otherFills.positive
    have equal : Run.stretch other oneSlots = Run.stretch one otherSlots := by
      apply eq_of_mergeRuns_sounding positive
      rw [mergeRuns_sounding_stretch oneFills.positive rfl, oneFills.fills.sounds, same,
        mergeRuns_sounding_stretch otherFills.positive (Nat.mul_comm one other),
        otherFills.fills.sounds]
    rw [← barsText_stretch oneFills.checked oneFills.positive otherFills.positive, equal,
      Nat.mul_comm, barsText_stretch oneFills.checked otherFills.positive oneFills.positive]

end Layout

section Written

variable {options : Options}

/-- Merging keeps the durations whole slots. -/
theorem FillsBars.commonSubdivision_dvd {perBeat : Nat} {full : Progression}
    {slots : List Chord} (fills : FillsBars options perBeat full slots) :
    Duration.commonSubdivision full.mergeRuns.durations ∣ perBeat := by
  rw [← Progression.aligned_iff, ← fills.fills.sounds]
  exact (aligned_sounding slots (Nat.dvd_refl perBeat)).mergeRuns

/-- Something sounds in full bars. -/
theorem FillsBars.mergeRuns_ne_nil {perBeat : Nat} {full : Progression} {slots : List Chord}
    (fills : FillsBars options perBeat full slots) : full.mergeRuns ≠ [] := by
  obtain ⟨bars, begun, whole⟩ := fills.exists_bars
  intro silent
  rw [← Progression.total_mergeRuns, silent, Progression.total_nil] at whole
  have beats := Nat.mul_pos begun (beatsPerBar_positive fills.checked)
  exact beats.ne (by exact_mod_cast whole)

/-- What full bars are read as is written again as the same bars. -/
theorem FillsBars.eq_of_write {perBeat : Nat} {full : Progression} {slots : List Chord}
    {rendered : Text} (fills : FillsBars options perBeat full slots)
    (again : write options full.mergeRuns = .ok rendered) :
    rendered = barsText options perBeat slots := by
  obtain ⟨bars, _, whole⟩ := fills.exists_bars
  rw [← Progression.total_mergeRuns] at whole
  obtain ⟨same, others, filled, otherFills, rfl⟩ := exists_fillsBars fills.mergeRuns_ne_nil again
  obtain rfl := filled.eq whole
  exact (otherFills.text_eq_iff fills).2 (Progression.merged_mergeRuns full).mergeRuns

/-- What is read from a written text is the progression that is filled up, without its
repetitions. -/
theorem exists_fillsBars_of_read {progression found : Progression} {text : Text}
    (nonempty : progression ≠ []) (written : write options progression = .ok text)
    (accepted : read options text = .ok found) :
    ∃ full slots, FilledUp options progression full ∧
      FillsBars options (Duration.commonSubdivision progression.durations) full slots ∧
      text = barsText options (Duration.commonSubdivision progression.durations) slots ∧
      found = full.mergeRuns := by
  obtain ⟨full, slots, filled, fills, rfl⟩ := exists_fillsBars nonempty written
  rw [fills.read] at accepted
  exact ⟨full, slots, filled, fills, rfl, (Except.ok.inj accepted).symm⟩

end Written

/-- A written grid is a canonical form of what sounds. Two progressions are written alike exactly
when they have the same merged form, each with its last bar filled up, and they have it exactly when
the same chord sounds at every instant. What is written is read, and what is read is written again
as the same text whenever it is written. -/
theorem written_canonical (options : Options) (one other : Progression) (oneText otherText : Text)
    (oneNonempty : one ≠ []) (otherNonempty : other ≠ [])
    (oneWritten : write options one = .ok oneText)
    (otherWritten : write options other = .ok otherText) :
    ∃ oneFull otherFull, FilledUp options one oneFull ∧ FilledUp options other otherFull ∧
      (oneText = otherText ↔ ∃ merged, oneFull.MergesTo merged ∧ otherFull.MergesTo merged) ∧
      ((∃ merged, oneFull.MergesTo merged ∧ otherFull.MergesTo merged) ↔
        oneFull.SoundsLike otherFull) ∧
      ∃ found, read options oneText = .ok found ∧
        ∀ rendered, write options found = .ok rendered → rendered = oneText := by
  obtain ⟨oneFull, oneSlots, oneFilled, oneFills, rfl⟩ := exists_fillsBars oneNonempty oneWritten
  obtain ⟨otherFull, otherSlots, otherFilled, otherFills, rfl⟩ :=
    exists_fillsBars otherNonempty otherWritten
  refine ⟨oneFull, otherFull, oneFilled, otherFilled, ?_, Progression.exists_mergesTo_iff,
    _, oneFills.read, fun rendered => oneFills.eq_of_write⟩
  rw [Progression.exists_mergesTo_iff, ← Progression.mergeRuns_eq_iff,
    oneFills.text_eq_iff otherFills]

/-- A bar is written the same way when its tonic is cut after a quarter of a beat and its last beat
is left to be filled up. -/
theorem written_canonical_syncopated :
    let options : Options := {}
    let tonic : Chord := ⟨⟨0, 0⟩, .major⟩
    let supertonic : Chord := ⟨⟨1, 0⟩, .minor⟩
    let half := Duration.half .one
    let quarter := half.half
    let long := Duration.one.add half
    let one : Progression := [⟨tonic, long⟩, ⟨supertonic, long.add .one⟩]
    let other : Progression :=
      [⟨tonic, quarter⟩, ⟨tonic, .add .one quarter⟩, ⟨supertonic, long⟩]
    let text : Text := ['|', ' ', 'I', ' ', '/', ' ', 'I', ',', 'I', 'I', 'm', ' ', '/', ' ', 'I',
      'I', 'm', ' ', '/', ' ', 'I', 'I', 'm', ' ', '|']
    write options one = .ok text ∧ write options other = .ok text ∧
      ∃ oneFull otherFull, FilledUp options one oneFull ∧ FilledUp options other otherFull ∧
        (∃ merged, oneFull.MergesTo merged ∧ otherFull.MergesTo merged) ∧
        oneFull.SoundsLike otherFull ∧
        ∃ found, read options text = .ok found ∧
          ∀ rendered, write options found = .ok rendered → rendered = text := by
  intro options tonic supertonic half quarter long one other text
  have oneWritten : write options one = .ok text := by decide +kernel
  have otherWritten : write options other = .ok text := by decide +kernel
  obtain ⟨oneFull, otherFull, oneFilled, otherFilled, same, sound, again⟩ :=
    written_canonical options one other text text (List.cons_ne_nil _ _) (List.cons_ne_nil _ _)
      oneWritten otherWritten
  have merged := same.1 rfl
  exact ⟨oneWritten, otherWritten, oneFull, otherFull, oneFilled, otherFilled, merged,
    sound.1 merged, again⟩

end JazzGrammar.Grid
