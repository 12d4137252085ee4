/-
When a progression can be written as a grid. The slots of its chords are kept to a limit one chord
after the other. The last bar is filled beyond the limit, up to what a list can hold, and where the
machine has no room for the slots the writing stops.
-/

import JazzGrammar.Proofs.Grid.Canonical

namespace JazzGrammar.Grid

section Runs

variable {perBeat : Nat}

/-- What is reported of the chord that passes the limit of slots. Its own slots are counted first,
and those that do not fit a word are not told from slots that are no whole number. -/
def limitFault (perBeat : Nat) (timed : TimedChord) : Fault :=
  if timed.duration.value * perBeat < UInt64.size then .argument .gridTooLong
  else .alignment timed.duration.write perBeat

theorem limitFault_ne_stopped (perBeat : Nat) (timed : TimedChord) (cause : Stop) :
    limitFault perBeat timed ≠ .stopped cause := by
  rw [limitFault]
  split <;> nofun

/-- Too many slots are reported at the first chord that passes the limit. A chord that stays within
the limit leaves this to a later one. -/
theorem runs_passing {filled : Nat} {progression : Progression}
    (aligned : progression.Aligned perBeat) (started : filled ≤ slotLimit)
    (long : slotLimit < filled + progression.total * perBeat) :
    ∃ (front : Progression) (timed : TimedChord) (rest : Progression),
      progression = front ++ timed :: rest ∧
      filled + front.total * perBeat ≤ slotLimit ∧
      slotLimit < filled + (front.total + timed.duration.value) * perBeat ∧
      Grid.runs perBeat filled progression = .error (limitFault perBeat timed) := by
  induction progression generalizing filled with
  | nil =>
    rw [Progression.total_nil, zero_mul, add_zero, Nat.cast_lt] at long
    omega
  | cons timed rest ih =>
    obtain ⟨one, others⟩ := List.forall_mem_cons.1 aligned
    obtain ⟨count, slots, counted⟩ := exists_slotCount one
    have limit : slotLimit < UInt64.size := by decide
    by_cases room : filled + count ≤ slotLimit
    · rw [Progression.total_cons, add_mul, slots, ← add_assoc, ← Nat.cast_add] at long
      obtain ⟨front, later, behind, rfl, within, beyond, failed⟩ := ih others room long
      refine ⟨timed :: front, later, behind, rfl, ?_, ?_, ?_⟩
      · rw [Progression.total_cons, add_mul, slots, ← add_assoc, ← Nat.cast_add]
        exact within
      · rw [Progression.total_cons, add_assoc, add_mul timed.duration.value, slots, ← add_assoc,
          ← Nat.cast_add]
        exact beyond
      · rw [if_pos (by omega)] at counted
        rw [Grid.runs, counted]
        simp only [bind, Except.bind, failed, if_neg (Nat.not_lt.2 room)]
    · refine ⟨[], timed, rest, rfl, ?_, ?_, ?_⟩
      · rw [Progression.total_nil, zero_mul, add_zero]
        exact_mod_cast started
      · rw [Progression.total_nil, zero_add, slots, ← Nat.cast_add, Nat.cast_lt]
        omega
      · rw [Grid.runs, counted, limitFault, slots]
        by_cases word : count < UInt64.size
        · simp only [if_pos word, Nat.cast_lt, bind, Except.bind, if_pos (Nat.lt_of_not_le room)]
          rfl
        · simp only [if_neg word, Nat.cast_lt]
          rfl

end Runs

/-- A list can hold the slots of all bars that a progression begins. -/
def Room (options : Options) (progression : Progression) : Prop :=
  ⌈progression.total / options.beatsPerBar.toNat⌉₊ * (options.beatsPerBar.toNat *
    Duration.commonSubdivision progression.durations) ≤ slotCapacity

instance (options : Options) (progression : Progression) : Decidable (Room options progression) :=
  inferInstanceAs (Decidable (_ ≤ _))

/-- The machine can lay out the bars of a progression: a word holds the slots of a bar, and where
the last bar is padded a list holds those of all bars. -/
structure Affordable (options : Options) (progression : Progression) : Prop where
  word : options.beatsPerBar.toNat * Duration.commonSubdivision progression.durations < UInt64.size
  list : options.padWithLastChord = true → Room options progression

section Bars

variable {options : Options} {progression : Progression}

/-- What sounds begins at least one bar. -/
theorem bars_positive (nonempty : progression ≠ []) (beats : 0 < options.beatsPerBar.toNat) :
    0 < ⌈progression.total / options.beatsPerBar.toNat⌉₊ :=
  Nat.ceil_pos.2 (div_pos (Progression.total_positive nonempty) (Nat.cast_pos.2 beats))

/-- Full bars take the slots of the chords and nothing more. -/
theorem slots_eq {perBeat bars : Nat} (beats : 0 < options.beatsPerBar.toNat)
    (whole : progression.total = bars * options.beatsPerBar.toNat) :
    (⌈progression.total / options.beatsPerBar.toNat⌉₊ : Rat) *
      (options.beatsPerBar.toNat * perBeat) = progression.total * perBeat := by
  rw [whole, mul_div_cancel_right₀ _ (Nat.cast_ne_zero.2 beats.ne'), Nat.ceil_natCast, mul_assoc]

/-- A list can hold full bars whose slots keep to the limit. -/
theorem room_of_whole {bars : Nat} (beats : 0 < options.beatsPerBar.toNat)
    (whole : progression.total = bars * options.beatsPerBar.toNat)
    (short : progression.total * Duration.commonSubdivision progression.durations ≤ slotLimit) :
    Room options progression := by
  rw [← slots_eq beats whole] at short
  have few : ⌈progression.total / options.beatsPerBar.toNat⌉₊ * (options.beatsPerBar.toNat *
      Duration.commonSubdivision progression.durations) ≤ slotLimit := by exact_mod_cast short
  exact few.trans (by decide)

/-- Where a list can hold all bars a word holds the slots of one. -/
theorem Room.affordable (room : Room options progression) (nonempty : progression ≠ [])
    (beats : 0 < options.beatsPerBar.toNat) : Affordable options progression where
  word := ((Nat.le_mul_of_pos_left _ (bars_positive nonempty beats)).trans room).trans_lt
    (by decide)
  list _ := room

/-- Whole bars take a whole number of slots for each of them. -/
theorem dvd_slots_iff {perBeat count : Nat} (positive : 0 < perBeat)
    (total : progression.total * perBeat = count) :
    options.beatsPerBar.toNat * perBeat ∣ count ↔
      ∃ bars : Nat, progression.total = bars * options.beatsPerBar.toNat := by
  have parts : (perBeat : Rat) ≠ 0 := Nat.cast_ne_zero.2 positive.ne'
  refine exists_congr fun bars => ?_
  rw [← Nat.cast_inj (R := Rat), ← total]
  push_cast
  constructor
  · intro size
    exact mul_right_cancel₀ parts (by rw [size]; ring)
  · intro size
    rw [size]
    ring

end Bars

section Write

variable {options : Options} {progression : Progression}

/-- Behind the checks of the options the slots are laid out, and then their last bar is filled. -/
theorem write_checked (nonempty : progression ≠ []) (beats : 0 < options.beatsPerBar.toNat)
    (sparse : Duration.commonSubdivision progression.durations ≤ options.maxSubdivisions.toNat) :
    let perBeat := Duration.commonSubdivision progression.durations
    write options progression = (runs perBeat 0 progression >>= fun runs =>
      slotsPerBar options perBeat >>= fun perBar =>
        (fillBar options perBar (Run.expand runs)).map (linesOf perBar perBeat)) := by
  have visible : ¬progression.isEmpty = true := by simpa using nonempty
  rw [write, if_neg visible, check_eq_ok.2 beats]
  simp only [bind, Except.bind, if_neg (Nat.not_lt.2 sparse)]
  rfl

theorem aligned_commonSubdivision (progression : Progression) :
    progression.Aligned (Duration.commonSubdivision progression.durations) :=
  Progression.aligned_iff.2 (Nat.dvd_refl _)

/-- Within the limit nothing but the last bar can prevent the writing. -/
theorem exists_write_eq (nonempty : progression ≠ []) (beats : 0 < options.beatsPerBar.toNat)
    (sparse : Duration.commonSubdivision progression.durations ≤ options.maxSubdivisions.toNat)
    (short : progression.total * Duration.commonSubdivision progression.durations ≤ slotLimit) :
    let perBeat := Duration.commonSubdivision progression.durations
    ∃ slots : List Text, progression.total * perBeat = slots.length ∧
      write options progression = (slotsPerBar options perBeat >>= fun perBar =>
        (fillBar options perBar slots).map (linesOf perBar perBeat)) := by
  have start : ((0 : Nat) : Rat) +
      progression.total * Duration.commonSubdivision progression.durations ≤ slotLimit := by
    rwa [Nat.cast_zero, zero_add]
  obtain ⟨runs, found⟩ := exists_runs (aligned_commonSubdivision progression) start
  obtain ⟨slots, expanded, fills⟩ :=
    exists_fills found (Duration.commonSubdivision_positive progression.durations)
  refine ⟨Run.expand runs, ?_, ?_⟩
  · rw [fills.total, expanded, List.length_map]
  · rw [write_checked nonempty beats sparse, found]
    rfl

/-- Beyond the limit the chord is reported that passes it. -/
theorem exists_write_passing (beats : 0 < options.beatsPerBar.toNat)
    (sparse : Duration.commonSubdivision progression.durations ≤ options.maxSubdivisions.toNat)
    (long : slotLimit < progression.total * Duration.commonSubdivision progression.durations) :
    let perBeat := Duration.commonSubdivision progression.durations
    ∃ (front : Progression) (timed : TimedChord) (rest : Progression),
      progression = front ++ timed :: rest ∧ front.total * perBeat ≤ slotLimit ∧
      slotLimit < (front.total + timed.duration.value) * perBeat ∧
      write options progression = .error (limitFault perBeat timed) := by
  have start : (slotLimit : Rat) < (0 : Nat) +
      progression.total * Duration.commonSubdivision progression.durations := by
    rwa [Nat.cast_zero, zero_add]
  obtain ⟨front, timed, rest, whole, within, beyond, failed⟩ :=
    runs_passing (aligned_commonSubdivision progression) (Nat.zero_le _) start
  have nonempty : progression ≠ [] := by
    rw [whole]
    exact List.append_ne_nil_of_right_ne_nil _ (List.cons_ne_nil _ _)
  rw [Nat.cast_zero, zero_add] at within beyond
  refine ⟨front, timed, rest, whole, within, beyond, ?_⟩
  rw [write_checked nonempty beats sparse, failed]
  rfl

/-- What is written kept to the limit before its last bar was filled. -/
theorem within_of_write {text : Text} (nonempty : progression ≠ [])
    (written : write options progression = .ok text) :
    progression.total * Duration.commonSubdivision progression.durations ≤ slotLimit := by
  obtain ⟨_, _, _, fills, _⟩ := exists_fillsBars nonempty written
  by_contra long
  obtain ⟨_, _, _, _, _, _, failed⟩ :=
    exists_write_passing (check_eq_ok.1 fills.checked) fills.sparse (lt_of_not_ge long)
  rw [failed] at written
  contradiction

/-- What comes of a progression whose slots keep to the limit. It is written, or its last bar is not
full and not to be padded, or the machine cannot lay out its bars. -/
theorem write_within (nonempty : progression ≠ []) (beats : 0 < options.beatsPerBar.toNat)
    (sparse : Duration.commonSubdivision progression.durations ≤ options.maxSubdivisions.toNat)
    (short : progression.total * Duration.commonSubdivision progression.durations ≤ slotLimit) :
    let Whole := ∃ bars : Nat, progression.total = bars * options.beatsPerBar.toNat
    (Room options progression ∧ (options.padWithLastChord = true ∨ Whole) ∧
        ∃ text, write options progression = .ok text) ∨
      (Affordable options progression ∧ options.padWithLastChord = false ∧ ¬Whole ∧
        write options progression = .error (.grid .incompleteBar)) ∨
      (¬Affordable options progression ∧
        ∃ cause, write options progression = .error (.stopped cause)) := by
  intro Whole
  have positive := Duration.commonSubdivision_positive progression.durations
  obtain ⟨slots, total, shape⟩ := exists_write_eq nonempty beats sparse short
  have whole : _ ↔ Whole := dvd_slots_iff positive total
  have padded := add_missing_eq beats positive total
  by_cases word : options.beatsPerBar.toNat *
      Duration.commonSubdivision progression.durations < UInt64.size
  · rw [slotsPerBar_eq_ok.2 ⟨word, rfl⟩] at shape
    simp only [bind, Except.bind, fillBar_eq, padded] at shape
    by_cases full : options.beatsPerBar.toNat *
        Duration.commonSubdivision progression.durations ∣ slots.length
    · rw [if_pos full] at shape
      obtain ⟨bars, lasts⟩ := whole.1 full
      exact .inl ⟨room_of_whole beats lasts short, .inr ⟨bars, lasts⟩, _, shape⟩
    · rw [if_neg full] at shape
      cases pad : options.padWithLastChord with
      | true =>
        rw [pad, if_pos rfl] at shape
        by_cases room : Room options progression
        · rw [if_neg (Nat.not_lt.2 room)] at shape
          exact .inl ⟨room, .inl rfl, _, shape⟩
        · rw [if_pos (Nat.lt_of_not_le room)] at shape
          exact .inr (.inr ⟨fun affordable => room (affordable.list pad), _, shape⟩)
      | false =>
        rw [pad, if_neg Bool.false_ne_true] at shape
        exact .inr (.inl ⟨⟨word, fun asked => by simp [pad] at asked⟩, rfl, mt whole.2 full,
          shape⟩)
  · rw [slotsPerBar_eq_error.2 ⟨Nat.le_of_not_lt word, rfl⟩] at shape
    exact .inr (.inr ⟨fun affordable => word affordable.word, _, shape⟩)

/-- Once the options are allowed and the slots keep to their limit, the last bar decides. -/
theorem exists_write_iff_fits (nonempty : progression ≠ [])
    (beats : 0 < options.beatsPerBar.toNat)
    (sparse : Duration.commonSubdivision progression.durations ≤ options.maxSubdivisions.toNat)
    (short : progression.total * Duration.commonSubdivision progression.durations ≤ slotLimit) :
    (∃ text, write options progression = .ok text) ↔ Room options progression ∧
      (options.padWithLastChord = true ∨
        ∃ bars : Nat, progression.total = bars * options.beatsPerBar.toNat) := by
  obtain ⟨room, fits, written⟩ | ⟨_, pad, rest, failed⟩ | ⟨scarce, cause, stopped⟩ :=
    write_within nonempty beats sparse short
  · exact iff_of_true written ⟨room, fits⟩
  · refine iff_of_false (by simp [failed]) ?_
    rintro ⟨_, padded | whole⟩
    · simp [pad] at padded
    · exact rest whole
  · refine iff_of_false (by simp [stopped]) ?_
    rintro ⟨room, _⟩
    exact scarce (room.affordable nonempty beats)

/-- The writing stops exactly when the options are allowed and the slots keep to their limit, but the
machine cannot lay out the bars. -/
theorem stops_iff (nonempty : progression ≠ []) :
    (∃ cause, write options progression = .error (.stopped cause)) ↔
      0 < options.beatsPerBar.toNat ∧
        Duration.commonSubdivision progression.durations ≤ options.maxSubdivisions.toNat ∧
        progression.total * Duration.commonSubdivision progression.durations ≤ slotLimit ∧
        ¬Affordable options progression := by
  constructor
  · rintro ⟨cause, stopped⟩
    obtain unchecked | ⟨checked, ⟨_, other⟩ | ⟨sparse, _⟩⟩ := (write_eq_error nonempty).1 stopped
    · cases check_eq_error unchecked
    · contradiction
    · have beats := check_eq_ok.1 checked
      have short : progression.total * Duration.commonSubdivision progression.durations ≤
          slotLimit := by
        by_contra long
        obtain ⟨_, timed, _, _, _, _, failed⟩ :=
          exists_write_passing beats sparse (lt_of_not_ge long)
        exact limitFault_ne_stopped _ timed cause (Except.error.inj (failed.symm.trans stopped))
      refine ⟨beats, sparse, short, fun affordable => ?_⟩
      obtain ⟨_, _, text, written⟩ | ⟨_, _, _, failed⟩ | ⟨scarce, _⟩ :=
        write_within nonempty beats sparse short
      · cases written.symm.trans stopped
      · cases failed.symm.trans stopped
      · exact scarce affordable
  · rintro ⟨beats, sparse, short, scarce⟩
    obtain ⟨room, _, _⟩ | ⟨affordable, _, _, _⟩ | ⟨_, stops⟩ :=
      write_within nonempty beats sparse short
    · exact absurd (room.affordable nonempty beats) scarce
    · exact absurd affordable scarce
    · exact stops

end Write

section Lines

variable {options : Options} {progression : Progression}

/-- Each bar stands on a line of its own. -/
theorem splitOn_layout {bars : List (List (List Chord))} (nonempty : bars ≠ []) :
    (layout bars).splitOn '\n' = bars.map fun bar => '|' :: barBody bar ++ ['|'] := by
  rw [layout, Text.join, List.splitOn_intercalate]
  · intro line member inside
    obtain ⟨bar, _, rfl⟩ := List.mem_map.1 member
    have broken : '\n' ∈ barBody bar := by simpa using inside
    exact absurd (mem_barBody broken) (by decide)
  · simpa using nonempty

/-- Full bars are as many lines. -/
theorem FillsBars.length_lines {perBeat bars : Nat} {full : Progression} {slots : List Chord}
    (fills : FillsBars options perBeat full slots)
    (whole : full.total = bars * options.beatsPerBar.toNat) :
    ((barsText options perBeat slots).splitOn '\n').length = bars := by
  have positive := Nat.mul_pos (beatsPerBar_positive fills.checked) fills.positive
  have size : slots.length = options.beatsPerBar.toNat * perBeat * bars := by
    have total := fills.fills.total
    rw [whole, mul_assoc, mul_comm] at total
    exact_mod_cast total.symm
  rw [barsText, splitOn_layout (cut_ne_nil fills.nonempty), List.length_map, cut, List.length_map,
    Run.length_chunks positive, size, Nat.mul_add_div positive,
    Nat.div_eq_of_lt (Nat.sub_one_lt_of_lt positive), Nat.add_zero]

/-- As many lines are written as bars were begun. -/
theorem length_lines_of_write {text : Text} (nonempty : progression ≠ [])
    (written : write options progression = .ok text) :
    (text.splitOn '\n').length = ⌈progression.total / options.beatsPerBar.toNat⌉₊ := by
  obtain ⟨full, slots, filled, fills, rfl⟩ := exists_fillsBars nonempty written
  have whole := filled.total (beatsPerBar_positive fills.checked)
  rw [mul_comm] at whole
  rw [fills.length_lines whole]

end Lines

/-- A progression is written exactly when its options are allowed, its slots keep to their limit, a
list can hold the slots of its bars and the last bar is padded or full, and then there is a line for
each bar that was begun. -/
theorem written_iff (options : Options) (progression : Progression) (nonempty : progression ≠ []) :
    let perBeat := Duration.commonSubdivision progression.durations
    let bars := ⌈progression.total / options.beatsPerBar.toNat⌉₊
    ((∃ text, write options progression = .ok text) ↔
      1 ≤ options.beatsPerBar.toNat ∧ perBeat ≤ options.maxSubdivisions.toNat ∧
      progression.total * perBeat ≤ slotLimit ∧
      bars * (options.beatsPerBar.toNat * perBeat) ≤ slotCapacity ∧
      (options.padWithLastChord = true ∨
        ∃ bars : Nat, progression.total = bars * options.beatsPerBar.toNat)) ∧
    ∀ text, write options progression = .ok text → (text.splitOn '\n').length = bars := by
  intro perBeat bars
  refine ⟨⟨?_, ?_⟩, fun text written => length_lines_of_write nonempty written⟩
  · rintro ⟨text, written⟩
    obtain ⟨_, _, _, fills, _⟩ := exists_fillsBars nonempty written
    have beats := check_eq_ok.1 fills.checked
    have short := within_of_write nonempty written
    exact ⟨beats, fills.sparse, short,
      (exists_write_iff_fits nonempty beats fills.sparse short).1 ⟨text, written⟩⟩
  · rintro ⟨beats, sparse, short, fits⟩
    exact (exists_write_iff_fits nonempty beats sparse short).2 fits

/-- A chord of 65536 beats fills 16384 bars of four, and one more beat is too much. -/
theorem written_iff_at_limit :
    let tonic : Chord := ⟨⟨0, 0⟩, .major⟩
    let held : Progression := [⟨tonic, ⟨65536, by decide +kernel⟩⟩]
    let longer : Progression := [⟨tonic, ⟨65537, by decide +kernel⟩⟩]
    held ≠ [] ∧ longer ≠ [] ∧
      (∃ text, write {} held = .ok text ∧ (text.splitOn '\n').length = 16384) ∧
      ¬∃ text, write {} longer = .ok text := by
  intro tonic held longer
  have nonempty : held ≠ [] := List.cons_ne_nil _ _
  have others : longer ≠ [] := List.cons_ne_nil _ _
  obtain ⟨fits, lines⟩ := written_iff {} held nonempty
  obtain ⟨text, written⟩ :=
    fits.2 ⟨by decide, by decide +kernel, by decide +kernel, by decide +kernel, .inl rfl⟩
  refine ⟨nonempty, others, ⟨text, written, ?_⟩, fun found => ?_⟩
  · rw [lines text written]
    decide +kernel
  · obtain ⟨_, _, short, _⟩ := (written_iff {} longer others).1.1 found
    exact absurd short (by decide +kernel)

/-- A beat is divided so often that no list can hold the slots of one bar, although a word can count
them. Then the writing stops in the padding. -/
theorem padded_beat_stops :
    let options : Options := ⟨1, 4611686018427387904, true⟩
    let progression : Progression := [⟨⟨⟨0, 0⟩, .major⟩, .part 4611686018427387904 (by decide)⟩]
    let perBeat := Duration.commonSubdivision progression.durations
    options.beatsPerBar.toNat * perBeat < UInt64.size ∧ 1 ≤ options.beatsPerBar.toNat ∧
      perBeat ≤ options.maxSubdivisions.toNat ∧ progression.total * perBeat ≤ slotLimit ∧
      options.padWithLastChord = true ∧
      write options progression = .error (.stopped .capacity) := by
  decide +kernel

/-- Every chord fills whole slots at the common subdivision. As long as all slots keep to their
limit, nothing is reported but a last bar that is not full, and the writing stops only where the
machine cannot lay out the bars. Otherwise the chord is reported that passes the limit: as too long
when its own slots fit a word, and else as one that does not fill whole slots. -/
theorem overlong_reported (options : Options) (progression : Progression)
    (beats : 1 ≤ options.beatsPerBar.toNat)
    (sparse : Duration.commonSubdivision progression.durations ≤
      options.maxSubdivisions.toNat) :
    let perBeat := Duration.commonSubdivision progression.durations
    (∀ timed ∈ progression, ∃ count : Nat, timed.duration.value * perBeat = count) ∧
    (progression.total * perBeat ≤ slotLimit → ∀ fault,
      write options progression = .error fault → fault = .grid .incompleteBar ∨
        ¬Affordable options progression ∧ ∃ cause, fault = .stopped cause) ∧
    (slotLimit < progression.total * perBeat →
      ∃ (front : Progression) (timed : TimedChord) (rest : Progression),
        progression = front ++ timed :: rest ∧ front.total * perBeat ≤ slotLimit ∧
        slotLimit < (front.total + timed.duration.value) * perBeat ∧
        write options progression =
          .error (if timed.duration.value * perBeat < UInt64.size then .argument .gridTooLong
            else .alignment timed.duration.write perBeat)) := by
  refine ⟨fun timed member => ?_, fun short fault failed => ?_, exists_write_passing beats sparse⟩
  · obtain ⟨count, slots, _⟩ := exists_slotCount (aligned_commonSubdivision progression timed member)
    exact ⟨count, slots⟩
  · have nonempty : progression ≠ [] := by
      rintro rfl
      contradiction
    obtain ⟨_, _, text, written⟩ | ⟨_, _, _, incomplete⟩ | ⟨scarce, cause, stopped⟩ :=
      write_within nonempty beats sparse short
    · cases written.symm.trans failed
    · exact .inl (Except.error.inj (failed.symm.trans incomplete))
    · exact .inr ⟨scarce, cause, Except.error.inj (failed.symm.trans stopped)⟩

/-- Seven beats behind 65530 pass the limit. -/
theorem overlong_reported_dominant :
    let options : Options := {}
    let held : TimedChord := ⟨⟨⟨0, 0⟩, .major⟩, ⟨65530, by decide +kernel⟩⟩
    let dominant : TimedChord := ⟨⟨⟨4, 0⟩, .major⟩, ⟨7, by decide +kernel⟩⟩
    let progression : Progression := [held, dominant]
    let perBeat := Duration.commonSubdivision progression.durations
    1 ≤ options.beatsPerBar.toNat ∧ perBeat ≤ options.maxSubdivisions.toNat ∧
    (∃ count : Nat, dominant.duration.value * perBeat = count) ∧
    slotLimit < progression.total * perBeat ∧
      ∃ (front : Progression) (timed : TimedChord) (rest : Progression),
        progression = front ++ timed :: rest ∧ front.total * perBeat ≤ slotLimit ∧
        slotLimit < (front.total + timed.duration.value) * perBeat ∧
        write options progression =
          .error (if timed.duration.value * perBeat < UInt64.size then .argument .gridTooLong
            else .alignment timed.duration.write perBeat) := by
  intro options held dominant progression perBeat
  have beats : 1 ≤ options.beatsPerBar.toNat := by decide
  have sparse : perBeat ≤ options.maxSubdivisions.toNat := by decide +kernel
  have long : slotLimit < progression.total * perBeat := by decide +kernel
  obtain ⟨whole, _, passing⟩ := overlong_reported options progression beats sparse
  exact ⟨beats, sparse, whole dominant (by simp [progression]), long, passing long⟩

/-- A chord with more slots than a word can count is said not to fill whole slots, of which every
beat has one. -/
theorem overlong_chord_unaligned :
    let options : Options := {}
    let held : TimedChord := ⟨⟨⟨0, 0⟩, .major⟩, ⟨18446744073709551616, by decide +kernel⟩⟩
    let perBeat := Duration.commonSubdivision (Progression.durations [held])
    1 ≤ options.beatsPerBar.toNat ∧ perBeat = 1 ∧ perBeat ≤ options.maxSubdivisions.toNat ∧
      slotLimit < Progression.total [held] * perBeat ∧
      write options [held] = .error (.alignment held.duration.write 1) := by
  decide +kernel

end JazzGrammar.Grid
