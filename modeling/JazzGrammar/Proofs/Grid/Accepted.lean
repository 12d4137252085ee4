/-
A grid that is read has whole bars, and its progression can be written as a grid that is read as the
same progression.
-/

import JazzGrammar.Proofs.Grid.Alignment
import JazzGrammar.Proofs.Grid.Reading
import JazzGrammar.Proofs.Grid.RoundTrip

namespace JazzGrammar.Grid

section Beats

theorem total_spread {beat : List Chord} (nonempty : beat ≠ []) :
    Progression.total (spread beat) = 1 := by
  have parts := List.length_pos_iff.2 nonempty
  have whole : (sounding beat.length parts beat).total * beat.length = beat.length :=
    total_sounding beat
  rw [spread_eq_sounding parts]
  exact mul_right_cancel₀ (Nat.cast_ne_zero.2 parts.ne') (by rw [whole, one_mul])

/-- Each beat lasts for one beat, in however many parts it is divided. -/
theorem total_spread_beats {beats : List (List Chord)} (filled : ∀ beat ∈ beats, beat ≠ []) :
    Progression.total (beats.flatMap spread) = beats.length := by
  induction beats with
  | nil => rfl
  | cons beat rest ih =>
    obtain ⟨one, others⟩ := List.forall_mem_cons.1 filled
    rw [List.flatMap_cons, Progression.total_append, total_spread one, ih others, List.length_cons,
      Nat.cast_succ, add_comm]

/-- Something sounds in what is read. -/
theorem ne_nil_of_read {options : Options} {text : Text} {progression : Progression}
    (accepted : read options text = .ok progression) : progression ≠ [] := by
  obtain ⟨checked, bodies, bars, _, nonempty, spells, _, rfl⟩ := read_eq_ok.1 accepted
  have beats : 0 < bars.flatten.length := by
    rw [length_beats spells]
    exact Nat.mul_pos (List.length_pos_iff.2 nonempty) (beatsPerBar_positive checked)
  have whole := Progression.total_mergeRuns (bars.flatten.flatMap spread)
  intro silent
  rw [silent, Progression.total_nil, total_spread_beats (beat_ne_nil spells)] at whole
  exact beats.ne (by exact_mod_cast whole)

/-- The parts of all beats are whole slots at their common subdivision. -/
theorem aligned_spread_beats {beats : List (List Chord)} (filled : ∀ beat ∈ beats, beat ≠ []) :
    Progression.Aligned (subdivisionOf beats) (beats.flatMap spread) := by
  have divides := (foldl_lcm_dvd_iff List.length).1 (Nat.dvd_refl (subdivisionOf beats))
  intro timed member
  obtain ⟨beat, inside, within⟩ := List.mem_flatMap.1 member
  rw [spread_eq_sounding (List.length_pos_iff.2 (filled beat inside))] at within
  exact aligned_sounding beat (divides.2 beat inside) timed within

end Beats

/-- Full bars are written as they are, with and without padding. -/
theorem FillsBars.write_full {options : Options} {perBeat : Nat} {progression : Progression}
    {runs : List (Run Text)} {slots : List Chord} (nonempty : progression ≠ [])
    (same : perBeat = Duration.commonSubdivision progression.durations)
    (fills : FillsBars options perBeat progression slots)
    (found : Grid.runs perBeat 0 progression = .ok runs)
    (expanded : Run.expand runs = slots.map Chord.write)
    (fits : options.beatsPerBar.toNat * perBeat < UInt64.size) (pad : Bool) :
    write { options with padWithLastChord := pad } progression =
      .ok (barsText options perBeat slots) := by
  subst same
  refine (write_eq_ok nonempty).2 ⟨fills.checked, fills.sparse, runs, found, fits,
    slots.map Chord.write, ?_, linesOf_map _ _ slots⟩
  rw [fillBar_eq, expanded, List.length_map, if_pos fills.bars]

/-- A progression of whole bars, without repeated chords and within the limits, is written the same
way with and without padding, and what is written is read as the progression. -/
theorem exists_rendered {options : Options} {progression : Progression} {count : Nat}
    (nonempty : progression ≠ []) (merged : progression.Merged)
    (checked : options.check = .ok ())
    (sparse : Duration.commonSubdivision progression.durations ≤ options.maxSubdivisions.toNat)
    (whole : progression.total = count * options.beatsPerBar.toNat)
    (short : progression.total * Duration.commonSubdivision progression.durations ≤ slotLimit) :
    ∃ rendered,
      (∀ pad, write { options with padWithLastChord := pad } progression = .ok rendered) ∧
        read options rendered = .ok progression := by
  generalize same : Duration.commonSubdivision progression.durations = perBeat at sparse short
  have positive : 0 < perBeat := same ▸ Duration.commonSubdivision_positive _
  have aligned : progression.Aligned perBeat := Progression.aligned_iff.2 (dvd_of_eq same)
  have start : ((0 : Nat) : Rat) + progression.total * perBeat ≤ slotLimit := by
    rwa [Nat.cast_zero, zero_add]
  obtain ⟨runs, found⟩ := exists_runs aligned start
  obtain ⟨slots, expanded, fills⟩ := exists_fills found positive
  have filled : slots ≠ [] := by
    rintro rfl
    exact nonempty (by simpa using fills.last.symm)
  have length : slots.length = count * (options.beatsPerBar.toNat * perBeat) := by
    have total := fills.total
    rw [whole, mul_assoc] at total
    exact_mod_cast total.symm
  have bars : options.beatsPerBar.toNat * perBeat ∣ slots.length :=
    length ▸ Nat.dvd_mul_left _ _
  have fits : options.beatsPerBar.toNat * perBeat < UInt64.size := by
    have bound := Nat.le_of_dvd (List.length_pos_iff.2 filled) bars
    have few : slots.length ≤ slotLimit := by
      rw [fills.total] at short
      exact_mod_cast short
    exact (bound.trans few).trans_lt (by decide)
  have full : FillsBars options perBeat progression slots :=
    ⟨checked, sparse, positive, filled, bars, fills⟩
  refine ⟨barsText options perBeat slots,
    full.write_full nonempty same.symm found expanded fits, ?_⟩
  rw [full.read, merged.mergeRuns]

/-- A grid that is read lasts for its bars, and its progression needs no finer subdivision than its
beats have. As long as it does not pass the limit of slots, it is written with and without padding
as one text, which is read as the same progression. -/
theorem read_renders (options : Options) (text : Text) (progression : Progression)
    (accepted : read options text = .ok progression) :
    ∃ bodies, Encloses text bodies ∧
      progression.total = bodies.length * options.beatsPerBar.toNat ∧
      Duration.commonSubdivision progression.durations ∣ (partCounts bodies).foldl Nat.lcm 1 ∧
      (partCounts bodies).foldl Nat.lcm 1 ≤ options.maxSubdivisions.toNat ∧
      Duration.commonSubdivision progression.durations ≤ options.maxSubdivisions.toNat ∧
      (progression.total * Duration.commonSubdivision progression.durations ≤ slotLimit →
        ∃ rendered,
          (∀ pad, write { options with padWithLastChord := pad } progression = .ok rendered) ∧
            read options rendered = .ok progression) := by
  obtain ⟨checked, bodies, bars, encloses, nonempty, spells, sparse, rfl⟩ := read_eq_ok.1 accepted
  have filled := beat_ne_nil spells
  have positive : 0 < subdivisionOf bars.flatten :=
    foldl_lcm_positive _ Nat.one_pos fun beat member => List.length_pos_iff.2 (filled beat member)
  have divides := Progression.aligned_iff.1 (aligned_spread_beats filled).mergeRuns
  have bound := (Nat.le_of_dvd positive divides).trans sparse
  have whole : Progression.total (Progression.mergeRuns (bars.flatten.flatMap spread)) =
      bodies.length * options.beatsPerBar.toNat := by
    rw [Progression.total_mergeRuns, total_spread_beats filled, length_beats spells, Nat.cast_mul]
  have sounds : Progression.mergeRuns (bars.flatten.flatMap spread) ≠ [] := by
    intro silent
    rw [silent, Progression.total_nil] at whole
    have beats : 0 < bodies.length * options.beatsPerBar.toNat :=
      Nat.mul_pos (List.length_pos_iff.2 nonempty) (beatsPerBar_positive checked)
    exact beats.ne (by exact_mod_cast whole)
  rw [subdivisionOf_eq spells] at divides sparse
  exact ⟨bodies, encloses, whole, divides, sparse, bound,
    exists_rendered sounds (Progression.merged_mergeRuns _) checked bound whole⟩

/-- A bar with a divided beat and shorthand symbols, which is written without them. -/
theorem read_renders_syncopated :
    let options : Options := {}
    let text : Text := ['|', ' ', 'I', ' ', '/', ' ', 'I', ',', 'i', 'i', ' ', '/', ' ', 'i', 'i',
      ' ', '/', ' ', 'i', 'i', ' ', '|']
    let half := Duration.half .one
    let progression : Progression := [⟨⟨⟨0, 0⟩, .major⟩, .add .one half⟩,
      ⟨⟨⟨1, 0⟩, .minor⟩, .add half (.add .one .one)⟩]
    read options text = .ok progression ∧ ∃ bodies, Encloses text bodies ∧
      progression.total = bodies.length * options.beatsPerBar.toNat ∧
      Duration.commonSubdivision progression.durations ∣ (partCounts bodies).foldl Nat.lcm 1 ∧
      (partCounts bodies).foldl Nat.lcm 1 ≤ options.maxSubdivisions.toNat ∧
      Duration.commonSubdivision progression.durations ≤ options.maxSubdivisions.toNat ∧
      ∃ rendered,
        (∀ pad, write { options with padWithLastChord := pad } progression = .ok rendered) ∧
          read options rendered = .ok progression := by
  intro options text half progression
  have accepted : read options text = .ok progression := by decide +kernel
  have short :
      progression.total * Duration.commonSubdivision progression.durations ≤ slotLimit := by
    decide +kernel
  obtain ⟨bodies, encloses, whole, divides, sparse, bound, rendered⟩ :=
    read_renders options text progression accepted
  exact ⟨accepted, bodies, encloses, whole, divides, sparse, bound, rendered short⟩

end JazzGrammar.Grid
