/-
Reading a written grid gives the padded progression back without its repetitions.
-/

import JazzGrammar.Proofs.Grid.Cut
import JazzGrammar.Proofs.Grid.Padding

namespace JazzGrammar.Grid

/-- The bars that hold the slots, one on each line. -/
def linesOf (perBar perBeat : Nat) (slots : List Text) : Text :=
  Text.join ['\n'] ((Run.chunks perBar slots).map (writeBar perBeat))

/-- The written bars lay out the slots. -/
theorem linesOf_map (perBar perBeat : Nat) (slots : List Chord) :
    linesOf perBar perBeat (slots.map Chord.write) = layout (cut perBar perBeat slots) := by
  rw [linesOf, Run.chunks_map, List.map_map, layout, cut, List.map_map]
  congr 2
  funext bar
  exact writeBar_map perBeat bar

theorem slotsPerBar_eq_ok {options : Options} {perBeat perBar : Nat} :
    slotsPerBar options perBeat = .ok perBar ↔
      options.beatsPerBar.toNat * perBeat < UInt64.size ∧
        options.beatsPerBar.toNat * perBeat = perBar := by
  by_cases fits : options.beatsPerBar.toNat * perBeat < UInt64.size <;> simp [slotsPerBar, fits]

theorem slotsPerBar_eq_error {options : Options} {perBeat : Nat} {fault : Fault} :
    slotsPerBar options perBeat = .error fault ↔
      UInt64.size ≤ options.beatsPerBar.toNat * perBeat ∧ .stopped .overflow = fault := by
  by_cases fits : options.beatsPerBar.toNat * perBeat < UInt64.size <;>
    simp [slotsPerBar, fits, Nat.not_le.2, Nat.not_lt.1]

/-- The writing succeeds when each of its stages does. -/
theorem write_eq_ok {options : Options} {progression : Progression} {text : Text}
    (nonempty : progression ≠ []) :
    let perBeat := Duration.commonSubdivision progression.durations
    let perBar := options.beatsPerBar.toNat * perBeat
    write options progression = .ok text ↔
      options.check = .ok () ∧ perBeat ≤ options.maxSubdivisions.toNat ∧
        ∃ runs, Grid.runs perBeat 0 progression = .ok runs ∧ perBar < UInt64.size ∧
          ∃ slots, fillBar options perBar (Run.expand runs) = .ok slots ∧
            linesOf perBar perBeat slots = text := by
  intro perBeat perBar
  have visible : ¬progression.isEmpty = true := by simpa using nonempty
  rw [write, if_neg visible, bind_eq_ok]
  dsimp only
  simp only [guard_eq_ok, bind_eq_ok, slotsPerBar_eq_ok]
  constructor
  · rintro ⟨_, checked, sparse, runs, found, _, ⟨fits, rfl⟩, slots, done, joined⟩
    exact ⟨checked, Nat.not_lt.1 sparse, runs, found, fits, slots, done, Except.ok.inj joined⟩
  · rintro ⟨checked, sparse, runs, found, fits, slots, done, joined⟩
    exact ⟨(), checked, Nat.not_lt.2 sparse, runs, found, _, ⟨fits, rfl⟩, slots, done,
      congrArg Except.ok joined⟩

/-- The writing has the fault of the first stage that does not succeed. -/
theorem write_eq_error {options : Options} {progression : Progression} {fault : Fault}
    (nonempty : progression ≠ []) :
    let perBeat := Duration.commonSubdivision progression.durations
    let perBar := options.beatsPerBar.toNat * perBeat
    write options progression = .error fault ↔
      options.check = .error fault ∨ options.check = .ok () ∧
        (options.maxSubdivisions.toNat < perBeat ∧
            .subdivision perBeat options.maxSubdivisions = fault ∨
          perBeat ≤ options.maxSubdivisions.toNat ∧
            (Grid.runs perBeat 0 progression = .error fault ∨
              ∃ runs, Grid.runs perBeat 0 progression = .ok runs ∧
                (UInt64.size ≤ perBar ∧ .stopped .overflow = fault ∨
                  perBar < UInt64.size ∧
                    fillBar options perBar (Run.expand runs) = .error fault))) := by
  intro perBeat perBar
  have visible : ¬progression.isEmpty = true := by simpa using nonempty
  rw [write, if_neg visible, bind_eq_error]
  dsimp only
  simp only [guard_eq_error, bind_eq_error, slotsPerBar_eq_ok, slotsPerBar_eq_error, Nat.not_lt,
    pure, Except.pure, reduceCtorEq, and_false, exists_const, or_false, and_assoc,
    exists_and_left, exists_eq_left']
  exact or_congr_right Unique.exists_iff

/-- A grid is written only when its options and its subdivision are allowed, and its text lays out
the slots of the progression up to the end of the last bar. -/
theorem exists_slots {options : Options} {progression : Progression} {text : Text}
    (nonempty : progression ≠ []) (written : write options progression = .ok text) :
    ∃ (perBeat : Nat) (positive : 0 < perBeat) (front : Progression) (last : TimedChord)
      (slots : List Chord), perBeat = Duration.commonSubdivision progression.durations ∧
        options.check = .ok () ∧ perBeat ≤ options.maxSubdivisions.toNat ∧
        progression = front ++ [last] ∧ Fills perBeat positive progression slots ∧
        text = layout (cut (options.beatsPerBar.toNat * perBeat) perBeat (slots ++
          List.replicate (missing (options.beatsPerBar.toNat * perBeat) slots.length)
            last.chord)) := by
  have positive := Duration.commonSubdivision_positive progression.durations
  obtain ⟨checked, sparse, runs, found, _, filled, done, rfl⟩ := (write_eq_ok nonempty).1 written
  obtain ⟨slots, expanded, fills⟩ := exists_fills found positive
  obtain ⟨front, last, rfl⟩ := (List.eq_nil_or_concat' progression).resolve_left nonempty
  have ends : slots.getLast? = some last.chord := by simpa using fills.last
  refine ⟨_, positive, front, last, slots, rfl, checked, sparse, rfl, fills, ?_⟩
  rw [expanded] at done
  rw [fillBar_eq_ok ends done, linesOf_map]

/-- Bars may be of any length but none. -/
theorem check_eq_ok {options : Options} :
    options.check = .ok () ↔ 0 < options.beatsPerBar.toNat := by
  by_cases empty : options.beatsPerBar = 0
  · simp [Options.check, empty]
  · have beats : options.beatsPerBar.toNat ≠ 0 := fun zero => empty (UInt64.toNat_inj.1 zero)
    simp [Options.check, empty, Nat.pos_of_ne_zero beats]

theorem check_eq_error {options : Options} {fault : Fault} (failed : options.check = .error fault) :
    fault = .argument .zeroBeatsPerBar := by
  rw [Options.check] at failed
  split at failed
  · exact (Except.error.inj failed).symm
  · contradiction

theorem beatsPerBar_positive {options : Options} (checked : options.check = .ok ()) :
    0 < options.beatsPerBar.toNat :=
  check_eq_ok.1 checked

/-- Slots that sound like a progression, keep to the options and leave no bar incomplete. -/
structure FillsBars (options : Options) (perBeat : Nat) (progression : Progression)
    (slots : List Chord) : Prop where
  checked : options.check = .ok ()
  sparse : perBeat ≤ options.maxSubdivisions.toNat
  positive : 0 < perBeat
  nonempty : slots ≠ []
  bars : options.beatsPerBar.toNat * perBeat ∣ slots.length
  fills : Fills perBeat positive progression slots

/-- The text of full bars. -/
def barsText (options : Options) (perBeat : Nat) (slots : List Chord) : Text :=
  layout (cut (options.beatsPerBar.toNat * perBeat) perBeat slots)

/-- The last chord is prolonged by the least time that fills the last bar. -/
def FilledUp (options : Options) (progression full : Progression) : Prop :=
  ∃ amount, IsLeast {amount | Completes options progression amount} amount ∧
    progression.Prolongs amount full

section Bars

variable {options : Options} {perBeat : Nat} {progression full other : Progression}
  {slots : List Chord}

/-- Full bars of slots are read as what they sound like. -/
theorem FillsBars.read (fills : FillsBars options perBeat progression slots) :
    read options (barsText options perBeat slots) = .ok progression.mergeRuns := by
  have beats : perBeat ∣ options.beatsPerBar.toNat * perBeat := Nat.dvd_mul_left _ _
  have found := readBeats_layout fills.checked (cut_ne_nil fills.nonempty)
    (fun bar member => length_of_mem_cut fills.positive fills.bars member)
    fun bar member => cut_filled member
  have dense : ¬options.maxSubdivisions.toNat < subdivisionOf
      (cut (options.beatsPerBar.toNat * perBeat) perBeat slots).flatten :=
    Nat.not_lt.2 ((Nat.le_of_dvd fills.positive (subdivisionOf_cut_dvd beats fills.bars)).trans
      fills.sparse)
  rw [Grid.read, barsText, found]
  simp only [bind, Except.bind, dense, if_false]
  rw [mergeRuns_spread_cut fills.positive beats fills.bars, fills.fills.sounds]
  rfl

/-- Whole bars need no time to be filled. -/
theorem FilledUp.eq {bars : Nat} (whole : progression.total = bars * options.beatsPerBar.toNat)
    (filled : FilledUp options progression full) : full = progression := by
  obtain ⟨amount, least, prolongs⟩ := filled
  obtain rfl : amount = 0 :=
    le_antisymm (least.2 ⟨le_rfl, bars, by rw [add_zero, whole]⟩) least.1.1
  exact prolongs.eq_of_zero

/-- The last bar is filled in one way only. -/
theorem FilledUp.unique (filled : FilledUp options progression full)
    (also : FilledUp options progression other) : full = other := by
  obtain ⟨amount, least, prolongs⟩ := filled
  obtain ⟨_, smallest, longer⟩ := also
  obtain rfl := least.unique smallest
  exact prolongs.unique longer

/-- A progression that is filled up lasts for the bars that were begun. -/
theorem FilledUp.total (beats : 0 < options.beatsPerBar.toNat)
    (filled : FilledUp options progression full) :
    full.total =
      options.beatsPerBar.toNat * ⌈progression.total / options.beatsPerBar.toNat⌉₊ := by
  obtain ⟨amount, least, prolongs⟩ := filled
  rw [prolongs.total, total_add_least beats least]

/-- What is written are the full bars of the progression that is filled up. -/
theorem exists_fillsBars {text : Text} (nonempty : progression ≠ [])
    (written : write options progression = .ok text) :
    ∃ full slots, FilledUp options progression full ∧
      FillsBars options (Duration.commonSubdivision progression.durations) full slots ∧
        text = barsText options (Duration.commonSubdivision progression.durations) slots := by
  obtain ⟨perBeat, positive, front, last, slots, same, checked, sparse, rfl, fills, rfl⟩ :=
    exists_slots nonempty written
  have beats := beatsPerBar_positive checked
  have least := isLeast_missing beats positive fills.total
  have padded (more : Nat) : slots ++ List.replicate more last.chord ≠ [] := by
    apply List.append_ne_nil_of_left_ne_nil
    rintro rfl
    simpa using fills.last
  let duration : Duration := ⟨_, add_pos_of_pos_of_nonneg last.duration.positive least.1.1⟩
  rw [← same]
  refine ⟨front ++ [⟨last.chord, duration⟩], _,
    ⟨_, least, front, last, duration, rfl, rfl, rfl⟩,
    ⟨checked, sparse, positive, padded _, ?_, fills.prolong rfl⟩, rfl⟩
  rw [List.length_append, List.length_replicate]
  exact dvd_add_missing _ _ (Nat.mul_pos beats positive)

/-- Full bars last for a whole number of bars, and for at least one. -/
theorem FillsBars.exists_bars (fills : FillsBars options perBeat full slots) :
    ∃ bars : Nat, 0 < bars ∧ full.total = bars * options.beatsPerBar.toNat := by
  obtain ⟨bars, size⟩ := fills.bars
  have parts : (perBeat : Rat) ≠ 0 := Nat.cast_ne_zero.2 fills.positive.ne'
  refine ⟨bars, Nat.pos_of_ne_zero ?_, ?_⟩
  · rintro rfl
    exact fills.nonempty (List.length_eq_zero_iff.1 size)
  · apply mul_right_cancel₀ parts
    rw [fills.fills.total, size]
    push_cast
    ring

end Bars

/-- A written grid is read back as the progression whose last chord is prolonged by the least time
that fills the last bar, without repeated chords. -/
theorem read_written (options : Options) (progression : Progression) (text : Text)
    (nonempty : progression ≠ []) (written : write options progression = .ok text) :
    ∃ amount longer merged, IsLeast {amount | Completes options progression amount} amount ∧
      progression.Prolongs amount longer ∧ longer.MergesTo merged ∧
      read options text = .ok merged := by
  obtain ⟨full, slots, ⟨amount, least, prolongs⟩, fills, rfl⟩ := exists_fillsBars nonempty written
  exact ⟨amount, full, _, least, prolongs, Progression.mergesTo_mergeRuns full, fills.read⟩

/-- A tonic of three half beats and three half beats of its dominant are padded by one beat. -/
theorem read_written_syncopated :
    let options : Options := {}
    let tonic : Chord := ⟨⟨0, 0⟩, .major⟩
    let dominant : Chord := ⟨⟨4, 0⟩, .dominantSeventh⟩
    let half := Duration.half .one
    let progression : Progression :=
      [⟨tonic, .add .one half⟩, ⟨dominant, half⟩, ⟨dominant, .one⟩]
    let text : Text := ['|', ' ', 'I', ' ', '/', ' ', 'I', ',', 'V', '7', ' ', '/', ' ', 'V', '7',
      ' ', '/', ' ', 'V', '7', ' ', '|']
    progression ≠ [] ∧ write options progression = .ok text ∧
      ∃ amount longer merged, IsLeast {amount | Completes options progression amount} amount ∧
        progression.Prolongs amount longer ∧ longer.MergesTo merged ∧
        read options text = .ok merged := by
  intro options tonic dominant half progression text
  have nonempty : progression ≠ [] := List.cons_ne_nil _ _
  have written : write options progression = .ok text := by decide +kernel
  exact ⟨nonempty, written, read_written options progression text nonempty written⟩

end JazzGrammar.Grid
