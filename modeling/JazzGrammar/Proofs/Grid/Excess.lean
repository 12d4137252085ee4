/-
The slots that are laid out up to the last bar line. Padding may take them past the limit, and then
what is read from the text is too long to be written again.
-/

import JazzGrammar.Proofs.Grid.Limit

namespace JazzGrammar.Grid

variable {options : Options} {progression found : Progression} {text : Text}

/-- What is read from a written text can be written again as long as its slots keep to the limit. -/
theorem exists_write_again_iff (nonempty : progression ≠ [])
    (written : write options progression = .ok text) (accepted : read options text = .ok found) :
    (∃ again, write options found = .ok again) ↔
      found.total * Duration.commonSubdivision found.durations ≤ slotLimit := by
  obtain ⟨full, slots, _, fills, _, rfl⟩ := exists_fillsBars_of_read nonempty written accepted
  constructor
  · rintro ⟨again, rewritten⟩
    exact within_of_write fills.mergeRuns_ne_nil rewritten
  · intro short
    obtain ⟨bars, _, whole⟩ := fills.exists_bars
    rw [← Progression.total_mergeRuns] at whole
    have beats := check_eq_ok.1 fills.checked
    have coarser := Nat.le_of_dvd fills.positive fills.commonSubdivision_dvd
    exact (exists_write_iff_fits fills.mergeRuns_ne_nil beats (coarser.trans fills.sparse)
      short).2 ⟨room_of_whole beats whole short, .inr ⟨bars, whole⟩⟩

/-- What is read from a written text needs no more slots than were laid out. -/
theorem slots_of_read_write (nonempty : progression ≠ [])
    (written : write options progression = .ok text) (accepted : read options text = .ok found) :
    found.total * Duration.commonSubdivision found.durations ≤
      (⌈progression.total / options.beatsPerBar.toNat⌉₊ : Rat) * (options.beatsPerBar.toNat *
        Duration.commonSubdivision progression.durations) := by
  obtain ⟨full, slots, filled, fills, _, rfl⟩ := exists_fillsBars_of_read nonempty written accepted
  have coarser : (Duration.commonSubdivision full.mergeRuns.durations : Rat) ≤
      Duration.commonSubdivision progression.durations :=
    Nat.cast_le.2 (Nat.le_of_dvd fills.positive fills.commonSubdivision_dvd)
  rw [Progression.total_mergeRuns, filled.total (check_eq_ok.1 fills.checked), ← mul_assoc,
    mul_comm (options.beatsPerBar.toNat : Rat)]
  exact mul_le_mul_of_nonneg_left coarser (by positivity)

/-- The bars that are begun take less than one bar of slots more than the chords. -/
theorem slots_lt (progression : Progression) {perBeat : Nat}
    (beats : 0 < options.beatsPerBar.toNat) (positive : 0 < perBeat) :
    (⌈progression.total / options.beatsPerBar.toNat⌉₊ : Rat) *
        (options.beatsPerBar.toNat * perBeat) <
      progression.total * perBeat + options.beatsPerBar.toNat * perBeat := by
  have perBar : (0 : Rat) < options.beatsPerBar.toNat := Nat.cast_pos.2 beats
  have begun := Nat.ceil_lt_add_one
    (div_nonneg (Progression.total_nonnegative progression) perBar.le)
  rw [← sub_lt_iff_lt_add, lt_div_iff₀ perBar] at begun
  have slots := mul_lt_mul_of_pos_right begun (Nat.cast_pos.2 positive : (0 : Rat) < perBeat)
  linarith

/-- A word holds the slots of a bar where it is written. -/
theorem word_of_write (nonempty : progression ≠ [])
    (written : write options progression = .ok text) :
    options.beatsPerBar.toNat * Duration.commonSubdivision progression.durations <
      UInt64.size := by
  obtain ⟨_, _, _, _, word, _⟩ := (write_eq_ok nonempty).1 written
  exact word

/-- Bars within the limit are read, and they are written again as they were. -/
theorem exists_again_of_within (nonempty : progression ≠ [])
    (written : write options progression = .ok text)
    (within : ⌈progression.total / options.beatsPerBar.toNat⌉₊ * (options.beatsPerBar.toNat *
      Duration.commonSubdivision progression.durations) ≤ slotLimit) :
    ∃ found, read options text = .ok found ∧ write options found = .ok text := by
  obtain ⟨full, slots, _, fills, rfl⟩ := exists_fillsBars nonempty written
  have fewer : full.mergeRuns.total * Duration.commonSubdivision full.mergeRuns.durations ≤
      slotLimit :=
    (slots_of_read_write nonempty written fills.read).trans (by exact_mod_cast within)
  obtain ⟨again, rewritten⟩ := (exists_write_again_iff nonempty written fills.read).2 fewer
  exact ⟨_, fills.read, fills.eq_of_write rewritten ▸ rewritten⟩

/-- The chords of a written progression keep to the limit of slots, and a word holds the slots of a
bar. The bars that are begun are written on a line each, and they take less than one bar more than
the chords, or nothing more when they are full. When the bars keep to the limit too, what is read
from the text is written again as this text. In any case the text is read, and what is read can be
written again exactly when its own slots keep to the limit. -/
theorem written_within_limit (options : Options) (progression : Progression) (text : Text)
    (nonempty : progression ≠ []) (written : write options progression = .ok text) :
    let perBeat := Duration.commonSubdivision progression.durations
    let perBar := options.beatsPerBar.toNat * perBeat
    let bars := ⌈progression.total / options.beatsPerBar.toNat⌉₊
    progression.total * perBeat ≤ slotLimit ∧ perBar < UInt64.size ∧
    (text.splitOn '\n').length = bars ∧
    ((bars * perBar : Nat) : Rat) < progression.total * perBeat + perBar ∧
    ((∃ full : Nat, progression.total = full * options.beatsPerBar.toNat) →
      bars * perBar ≤ slotLimit) ∧
    (bars * perBar ≤ slotLimit →
      ∃ found, read options text = .ok found ∧ write options found = .ok text) ∧
    ∃ found, read options text = .ok found ∧
      ((∃ again, write options found = .ok again) ↔
        found.total * Duration.commonSubdivision found.durations ≤ slotLimit) := by
  intro perBeat perBar bars
  have short := within_of_write nonempty written
  obtain ⟨full, slots, _, fills, rfl⟩ := exists_fillsBars nonempty written
  have beats := check_eq_ok.1 fills.checked
  refine ⟨short, word_of_write nonempty written, length_lines_of_write nonempty written, ?_, ?_,
    exists_again_of_within nonempty written, _, fills.read,
    exists_write_again_iff nonempty written fills.read⟩
  · have less := slots_lt progression beats fills.positive
    simpa only [bars, perBar, Nat.cast_mul] using less
  · rintro ⟨_, whole⟩
    rw [← slots_eq beats whole] at short
    exact_mod_cast short

/-- Three beats are padded to one bar of four, which is written again as it was. -/
theorem written_within_limit_syncopated :
    let options : Options := {}
    let half := Duration.half .one
    let progression : Progression := [⟨⟨⟨0, 0⟩, .major⟩, .add .one half⟩,
      ⟨⟨⟨4, 0⟩, .dominantSeventh⟩, .add .one half⟩]
    let perBeat := Duration.commonSubdivision progression.durations
    let perBar := options.beatsPerBar.toNat * perBeat
    let bars := ⌈progression.total / options.beatsPerBar.toNat⌉₊
    let text : Text := ['|', ' ', 'I', ' ', '/', ' ', 'I', ',', 'V', '7', ' ', '/', ' ', 'V', '7',
      ' ', '/', ' ', 'V', '7', ' ', '|']
    progression ≠ [] ∧ write options progression = .ok text ∧
      progression.total * perBeat ≤ slotLimit ∧ perBar < UInt64.size ∧
      (text.splitOn '\n').length = bars ∧
      ((bars * perBar : Nat) : Rat) < progression.total * perBeat + perBar ∧
      bars * perBar ≤ slotLimit ∧
      ∃ found, read options text = .ok found ∧ write options found = .ok text := by
  intro options half progression perBeat perBar bars text
  have nonempty : progression ≠ [] := List.cons_ne_nil _ _
  have written : write options progression = .ok text := by decide +kernel
  have within : bars * perBar ≤ slotLimit := by decide +kernel
  obtain ⟨short, word, lines, less, _, again, _⟩ :=
    written_within_limit options progression text nonempty written
  exact ⟨nonempty, written, short, word, lines, less, within, again within⟩

/-- Two slots of 256 to the beat are padded up to 257 beats, and these are refused. -/
theorem padded_bar_refused :
    let options : Options := ⟨257, 256, true⟩
    let slot : Duration := .part 256 (by decide)
    let progression : Progression := [⟨⟨⟨0, 0⟩, .major⟩, slot⟩, ⟨⟨⟨4, 0⟩, .major⟩, slot⟩]
    ∃ text found, write options progression = .ok text ∧
      slotLimit < (text.splitOn '\n').length * (options.beatsPerBar.toNat *
        Duration.commonSubdivision progression.durations) ∧
      read options text = .ok found ∧ write options found = .error (.argument .gridTooLong) := by
  intro options slot progression
  let full : Progression :=
    [⟨⟨⟨0, 0⟩, .major⟩, slot⟩, ⟨⟨⟨4, 0⟩, .major⟩, ⟨65791 / 256, by decide +kernel⟩⟩]
  have nonempty : progression ≠ [] := List.cons_ne_nil _ _
  have room : Room options progression := by decide +kernel
  obtain ⟨text, written⟩ := (exists_write_iff_fits nonempty (by decide) (by decide +kernel)
    (by decide +kernel)).2 ⟨room, .inl rfl⟩
  have lines := length_lines_of_write nonempty written
  obtain ⟨_, slots, filled, fills, rfl⟩ := exists_fillsBars nonempty written
  have fullFilled : FilledUp options progression full :=
    ⟨_, isLeast_first_bar (by decide +kernel) (by decide +kernel), [_], _, _, rfl, rfl,
      by decide +kernel⟩
  obtain rfl := filled.unique fullFilled
  refine ⟨_, _, written, ?_, fills.read, by decide +kernel⟩
  rw [lines]
  decide +kernel

end JazzGrammar.Grid
