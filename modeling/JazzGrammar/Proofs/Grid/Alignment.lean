/-
Progressions whose durations are whole numbers of slots, and how merging keeps them aligned.
-/

import JazzGrammar.Proofs.Grid.Slots

namespace JazzGrammar

namespace Progression

/-- Every duration is a whole number of slots. -/
def Aligned (perBeat : Nat) (progression : Progression) : Prop :=
  ∀ timed ∈ progression, timed.duration.value.den ∣ perBeat

variable {perBeat : Nat}

/-- The common subdivision is the least one at which a progression is aligned. -/
theorem aligned_iff {progression : Progression} :
    Aligned perBeat progression ↔
      Duration.commonSubdivision progression.durations ∣ perBeat := by
  rw [Duration.commonSubdivision_dvd_iff, durations, List.forall_mem_map]
  rfl

theorem Aligned.fuse {first : TimedChord} {rest : Progression}
    (one : first.duration.value.den ∣ perBeat) (others : Aligned perBeat rest) :
    Aligned perBeat (Progression.fuse first rest) := by
  cases rest with
  | nil => exact List.forall_mem_cons.2 ⟨one, others⟩
  | cons next later =>
    by_cases same : first.chord = next.chord
    · obtain ⟨second, final⟩ := List.forall_mem_cons.1 others
      rw [Progression.fuse, if_pos same]
      refine List.forall_mem_cons.2 ⟨?_, final⟩
      exact (Rat.add_den_dvd_lcm _ _).trans (Nat.lcm_dvd one second)
    · rw [fuse_other same]
      exact List.forall_mem_cons.2 ⟨one, others⟩

/-- Merging sums durations, whose denominators divide the same subdivision. -/
theorem Aligned.mergeRuns {progression : Progression} (aligned : Aligned perBeat progression) :
    Aligned perBeat progression.mergeRuns := by
  induction progression with
  | nil => exact aligned
  | cons first rest ih =>
    obtain ⟨one, others⟩ := List.forall_mem_cons.1 aligned
    rw [mergeRuns_cons]
    exact (ih others).fuse one

end Progression

namespace Duration

/-- A duration fills slots when its denominator divides their number in a beat. -/
theorem exists_slots?_eq_some {duration : Duration} {perBeat : Nat}
    (aligned : duration.value.den ∣ perBeat) : ∃ count, duration.slots? perBeat = some count := by
  obtain ⟨factor, rfl⟩ := aligned
  have whole : duration.value * (duration.value.den * factor : Nat) =
      (duration.value.num * factor : Int) := by
    push_cast
    rw [← mul_assoc, Rat.mul_den_eq_num]
  exact ⟨_, by rw [slots?, whole]; exact if_pos (Rat.den_intCast _)⟩

end Duration

namespace Grid

variable {perBeat : Nat} {positive : 0 < perBeat}

theorem total_sounding (slots : List Chord) :
    (sounding perBeat positive slots).total * perBeat = slots.length := by
  have whole : (perBeat : Rat) ≠ 0 := Nat.cast_ne_zero.2 positive.ne'
  induction slots with
  | nil => simp [sounding]
  | cons first rest ih =>
    rw [sounding] at ih
    rw [sounding, List.map_cons, Progression.total_cons, add_mul, ih, Duration.value_part,
      List.length_cons, Nat.cast_succ, div_mul_cancel₀ _ whole, add_comm]

theorem aligned_sounding (slots : List Chord) {multiple : Nat} (divides : perBeat ∣ multiple) :
    (sounding perBeat positive slots).Aligned multiple := by
  intro timed member
  obtain ⟨chord, _, rfl⟩ := List.mem_map.1 member
  have part := Rat.inv_natCast_den perBeat
  rw [if_neg positive.ne'] at part
  rw [Duration.value_part, one_div, part]
  exact divides

/-- The slots of a chord are counted when their number fits a word. -/
theorem exists_slotCount {duration : Duration} (aligned : duration.value.den ∣ perBeat) :
    ∃ count : Nat, duration.value * perBeat = count ∧ slotCount perBeat duration =
      if count < UInt64.size then .ok count else .error (.alignment duration.write perBeat) := by
  obtain ⟨count, slots⟩ := Duration.exists_slots?_eq_some aligned
  refine ⟨count, Duration.slots?_eq_some slots, ?_⟩
  rw [slotCount, slots]

/-- The runs of slots are found when every chord fills whole slots and all of them together do not
pass the limit. -/
theorem exists_runs {filled : Nat} {progression : Progression}
    (aligned : progression.Aligned perBeat)
    (short : filled + progression.total * perBeat ≤ slotLimit) :
    ∃ runs, Grid.runs perBeat filled progression = .ok runs := by
  induction progression generalizing filled with
  | nil => exact ⟨[], rfl⟩
  | cons timed rest ih =>
    obtain ⟨one, others⟩ := List.forall_mem_cons.1 aligned
    obtain ⟨count, slots, counted⟩ := exists_slotCount one
    rw [Progression.total_cons, add_mul, slots, ← add_assoc, ← Nat.cast_add] at short
    have behind : 0 ≤ Progression.total rest * perBeat :=
      mul_nonneg (Progression.total_nonnegative rest) (Nat.cast_nonneg _)
    have room : filled + count ≤ slotLimit := by
      have bound : ((filled + count : Nat) : Rat) ≤ slotLimit := by linarith
      exact_mod_cast bound
    have limit : slotLimit < UInt64.size := by decide
    rw [if_pos (by omega)] at counted
    obtain ⟨later, found⟩ := ih others short
    refine ⟨⟨timed.chord.write, count⟩ :: later, ?_⟩
    rw [Grid.runs, bind_eq_ok]
    refine ⟨count, counted, ?_⟩
    dsimp only
    rw [guard_eq_ok, bind_eq_ok]
    exact ⟨Nat.not_lt.2 room, later, found, rfl⟩

end Grid

end JazzGrammar
