/-
What sounds at an instant. Progressions without repeated chords are equal when the same chords sound
at every instant, so that the merged form depends on nothing else.
-/

import JazzGrammar.Proofs.Merging

namespace JazzGrammar

namespace Progression

/-- The chord that sounds a time after the start, none when all chords are over. -/
def chordAt : Progression → Rat → Option Chord
  | [], _ => none
  | timed :: rest, instant =>
    if instant < timed.duration.value then some timed.chord
    else chordAt rest (instant - timed.duration.value)

theorem chordAt_before {timed : TimedChord} (rest : Progression) {instant : Rat}
    (early : instant < timed.duration.value) : chordAt (timed :: rest) instant = some timed.chord :=
  if_pos early

/-- After the first chord the others sound from their own start. -/
theorem chordAt_after (timed : TimedChord) (rest : Progression) {instant : Rat}
    (late : 0 ≤ instant) :
    chordAt (timed :: rest) (timed.duration.value + instant) = chordAt rest instant := by
  rw [chordAt, if_neg (by linarith), add_sub_cancel_left]

/-- A chord sounds from its onset until its duration is over. -/
theorem chordAt_during (before : Progression) (timed : TimedChord) (after : Progression)
    {instant : Rat} (late : before.total ≤ instant)
    (early : instant < before.total + timed.duration.value) :
    chordAt (before ++ timed :: after) instant = some timed.chord := by
  induction before generalizing instant with
  | nil =>
    rw [total_nil, zero_add] at early
    exact chordAt_before after early
  | cons first rest ih =>
    rw [total_cons] at late early
    have others := total_nonnegative rest
    rw [List.cons_append, chordAt, if_neg (by linarith)]
    exact ih (by linarith) (by linarith)

theorem chordAt_fuse (first : TimedChord) (rest : Progression) (instant : Rat) :
    chordAt (fuse first rest) instant = chordAt (first :: rest) instant := by
  cases rest with
  | nil => rfl
  | cons next later =>
    by_cases same : first.chord = next.chord
    · have positive := next.duration.positive
      rw [fuse, if_pos same, chordAt, chordAt, chordAt, Duration.value_add]
      by_cases early : instant < first.duration.value
      · rw [if_pos early, if_pos (by linarith)]
      · rw [if_neg early, same, sub_sub]
        by_cases second : instant < first.duration.value + next.duration.value
        · rw [if_pos second, if_pos (by linarith)]
        · rw [if_neg second, if_neg (by linarith)]
    · rw [fuse_other same]

/-- Merging changes nothing that sounds. -/
theorem chordAt_mergeRuns (progression : Progression) (instant : Rat) :
    chordAt progression.mergeRuns instant = chordAt progression instant := by
  induction progression generalizing instant with
  | nil => rfl
  | cons first rest ih =>
    rw [mergeRuns_cons, chordAt_fuse, chordAt, chordAt, ih]

/-- The same chord sounds at every instant, and none after the same end. -/
def SoundsLike (one other : Progression) : Prop :=
  ∀ instant, 0 ≤ instant → chordAt one instant = chordAt other instant

theorem SoundsLike.symm {one other : Progression} (same : SoundsLike one other) :
    SoundsLike other one :=
  fun instant late => (same instant late).symm

/-- Another chord starts where one without repetition ends. -/
theorem Merged.chordAt_end {first : TimedChord} {rest : Progression}
    (merged : Merged (first :: rest)) :
    chordAt (first :: rest) first.duration.value ≠ some first.chord := by
  have turn := chordAt_after first rest le_rfl
  rw [add_zero] at turn
  rw [turn]
  cases rest with
  | nil =>
    intro silent
    contradiction
  | cons next later =>
    rw [chordAt_before later next.duration.positive]
    intro same
    exact (List.isChain_cons_cons.1 merged).1 (Option.some.inj same).symm

/-- A first chord without repetition lasts as long as its like in what sounds the same. -/
theorem Merged.first_le {first other : TimedChord} {rest others : Progression}
    (merged : Merged (first :: rest)) (same : SoundsLike (first :: rest) (other :: others))
    (chords : first.chord = other.chord) : other.duration.value ≤ first.duration.value := by
  by_contra longer
  have sounds := same _ first.duration.positive.le
  rw [chordAt_before others (lt_of_not_ge longer), ← chords] at sounds
  exact merged.chordAt_end sounds

/-- Nothing but its sound determines a progression without repetitions. -/
theorem Merged.eq_of_soundsLike {one other : Progression} (oneMerged : Merged one)
    (otherMerged : Merged other) (same : SoundsLike one other) : one = other := by
  induction one generalizing other with
  | nil =>
    cases other with
    | nil => rfl
    | cons first rest =>
      have start := same 0 le_rfl
      rw [chordAt_before rest first.duration.positive] at start
      contradiction
  | cons first rest ih =>
    cases other with
    | nil =>
      have start := same 0 le_rfl
      rw [chordAt_before rest first.duration.positive] at start
      contradiction
    | cons next later =>
      have start := same 0 le_rfl
      rw [chordAt_before rest first.duration.positive,
        chordAt_before later next.duration.positive] at start
      have chords := Option.some.inj start
      have lasts : first.duration.value = next.duration.value :=
        le_antisymm (otherMerged.first_le same.symm chords.symm) (oneMerged.first_le same chords)
      obtain rfl : first = next := by
        obtain ⟨chord, duration⟩ := first
        obtain rfl := chords
        exact congrArg (TimedChord.mk _) (Duration.ext lasts)
      congr 1
      refine ih oneMerged.tail otherMerged.tail fun instant late => ?_
      have behind := same (first.duration.value + instant)
        (add_nonneg first.duration.positive.le late)
      rwa [chordAt_after first rest late, chordAt_after first later late] at behind

/-- Two progressions have the same merged form when they sound alike. -/
theorem mergeRuns_eq_iff {one other : Progression} :
    one.mergeRuns = other.mergeRuns ↔ SoundsLike one other := by
  constructor
  · intro same instant _
    rw [← chordAt_mergeRuns one, same, chordAt_mergeRuns]
  · intro same
    apply (merged_mergeRuns one).eq_of_soundsLike (merged_mergeRuns other)
    intro instant late
    rw [chordAt_mergeRuns, chordAt_mergeRuns, same instant late]

/-- Equal chords in a row sound until their durations are over. -/
theorem chordAt_equal {group : Progression} {chord : Chord}
    (equal : ∀ member ∈ group, member.chord = chord) {instant : Rat} (late : 0 ≤ instant) :
    chordAt group instant = if instant < group.total then some chord else none := by
  induction group generalizing instant with
  | nil => exact (if_neg (not_lt.2 late)).symm
  | cons first rest ih =>
    obtain ⟨one, others⟩ := List.forall_mem_cons.1 equal
    rw [chordAt, total_cons]
    by_cases early : instant < first.duration.value
    · rw [if_pos early, if_pos (by linarith [total_nonnegative rest]), one]
    · rw [if_neg early, ih others (by linarith)]
      exact if_congr sub_lt_iff_lt_add' rfl rfl

theorem SoundsAs.soundsLike {group : Progression} {timed : TimedChord}
    (sounds : SoundsAs group timed) : SoundsLike group [timed] := by
  intro instant late
  rw [chordAt_equal sounds.chord late, chordAt_equal (soundsAs_singleton timed).chord late,
    sounds.total, total_cons, total_nil, add_zero]

/-- There is one merged form only. -/
theorem MergesTo.mergeRuns_eq {progression merged : Progression}
    (merges : MergesTo progression merged) : progression.mergeRuns = merged := by
  obtain ⟨unrepeated, groups, rfl, sounds⟩ := merges
  rw [← unrepeated.mergeRuns]
  clear unrepeated
  induction sounds with
  | nil => rfl
  | cons one _ ih =>
    exact mergeRuns_append_congr (mergeRuns_eq_iff.2 one.soundsLike) ih

/-- Progressions share a merged form when they sound alike. -/
theorem exists_mergesTo_iff {one other : Progression} :
    (∃ merged, one.MergesTo merged ∧ other.MergesTo merged) ↔ SoundsLike one other := by
  rw [← mergeRuns_eq_iff]
  constructor
  · rintro ⟨merged, oneMerges, otherMerges⟩
    rw [oneMerges.mergeRuns_eq, otherMerges.mergeRuns_eq]
  · intro same
    exact ⟨_, mergesTo_mergeRuns one, same ▸ mergesTo_mergeRuns other⟩

/-- Merging computes a unique normal form. It goes through the slots from their start; what it
leaves has no equal neighbours, sounds like the slots at every instant and lasts as long, and is
the only progression without equal neighbours that does. So slots have the same merged form exactly
when they sound alike, and lists may be merged before they are put together. -/
theorem merged_form_unique (slots : Progression) :
    slots.mergeRuns = slots.foldl extend [] ∧
    Merged slots.mergeRuns ∧ SoundsLike slots slots.mergeRuns ∧
    slots.mergeRuns.total = slots.total ∧
    (∀ merged, Merged merged ∧ SoundsLike slots merged ↔ merged = slots.mergeRuns) ∧
    (∀ others : Progression, slots.mergeRuns = others.mergeRuns ↔ SoundsLike slots others) ∧
    ∀ later : Progression,
      (slots ++ later).mergeRuns = (slots.mergeRuns ++ later.mergeRuns).mergeRuns := by
  have merged := merged_mergeRuns slots
  have sounds : SoundsLike slots slots.mergeRuns :=
    fun instant _ => (chordAt_mergeRuns slots instant).symm
  refine ⟨mergeRuns_eq_foldl slots, merged, sounds, total_mergeRuns slots, ?_,
    fun _ => mergeRuns_eq_iff, mergeRuns_append slots⟩
  intro other
  constructor
  · intro normal
    rw [← normal.1.mergeRuns]
    exact mergeRuns_eq_iff.2 normal.2.symm
  · rintro rfl
    exact ⟨merged, sounds⟩

end Progression

end JazzGrammar
