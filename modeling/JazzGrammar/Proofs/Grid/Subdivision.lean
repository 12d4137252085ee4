/-
The common subdivision of durations is the least number of slots a beat at which each of them fills
whole slots.
-/

import JazzGrammar.Proofs.Grid.Alignment
import Mathlib.Order.Bounds.Basic

namespace JazzGrammar.Duration

variable {duration : Duration} {durations others : List Duration} {perBeat : Nat}

/-- Whole slots are filled at the multiples of the denominator. -/
theorem exists_slots?_iff :
    (∃ count, duration.slots? perBeat = some count) ↔ duration.value.den ∣ perBeat := by
  constructor
  · intro filled
    obtain ⟨count, slots⟩ := filled
    have whole := slots?_eq_some slots
    have below : (duration.value.den : Rat) ≠ 0 := Nat.cast_ne_zero.2 duration.value.den_nz
    have crossed : duration.value.num * perBeat = count * (duration.value.den : Int) := by
      rw [← Rat.num_div_den duration.value, div_mul_eq_mul_div, div_eq_iff below] at whole
      exact_mod_cast whole
    have divides : duration.value.den ∣ (duration.value.num * perBeat).natAbs := by
      rw [crossed, Int.natAbs_mul, Int.natAbs_natCast]
      exact Nat.dvd_mul_left _ _
    rw [Int.natAbs_mul, Int.natAbs_natCast] at divides
    exact duration.value.reduced.symm.dvd_of_dvd_mul_left divides
  · exact exists_slots?_eq_some

/-- Durations fill whole slots together at the multiples of their common subdivision. -/
theorem forall_slots?_iff :
    (∀ duration ∈ durations, ∃ count, duration.slots? perBeat = some count) ↔
      commonSubdivision durations ∣ perBeat := by
  simp only [exists_slots?_iff, commonSubdivision_dvd_iff]

/-- Fewer durations have a subdivision that divides that of all. -/
theorem commonSubdivision_dvd_of_subset (subset : others ⊆ durations) :
    commonSubdivision others ∣ commonSubdivision durations := by
  rw [commonSubdivision_dvd_iff]
  intro duration member
  exact commonSubdivision_dvd_iff.1 dvd_rfl duration (subset member)

theorem total_eq_sum (durations : List Duration) : total durations = (durations.map value).sum := by
  rw [total, List.sum_eq_foldl, List.foldl_map]

/-- Together the durations fill as many slots as their total demands. -/
theorem sum_slots {counts : List Nat}
    (filled : List.Forall₂ (fun duration count => duration.slots? perBeat = some count)
      durations counts) :
    (counts.sum : Rat) = perBeat * total durations := by
  rw [total_eq_sum]
  induction filled with
  | nil => simp
  | cons one _ ih =>
    rw [List.sum_cons, Nat.cast_add, ih, List.map_cons, List.sum_cons, mul_add,
      ← slots?_eq_some one, mul_comm]

/-- The common subdivision is the least at which all durations fill whole slots, and one slot a beat
when there are none. Its multiples are the others, and at each of them the slots add up to the
total. It depends neither on the order of the durations nor on repetitions among them. -/
theorem commonSubdivision_least (durations : List Duration) :
    (∀ perBeat, (∀ duration ∈ durations, ∃ count, duration.slots? perBeat = some count) ↔
      commonSubdivision durations ∣ perBeat) ∧
    (∀ perBeat, commonSubdivision durations ∣ perBeat → ∃ counts : List Nat,
      List.Forall₂ (fun duration count => duration.slots? perBeat = some count) durations counts ∧
        (counts.sum : Rat) = perBeat * total durations) ∧
    IsLeast {perBeat | 0 < perBeat ∧
      ∀ duration ∈ durations, ∃ count, duration.slots? perBeat = some count}
        (commonSubdivision durations) ∧
    commonSubdivision [] = 1 ∧
    ∀ others : List Duration, (∀ duration, duration ∈ others ↔ duration ∈ durations) →
      commonSubdivision others = commonSubdivision durations := by
  refine ⟨fun perBeat => forall_slots?_iff, ?_, ?_, rfl, ?_⟩
  · intro perBeat divides
    obtain ⟨counts, filled⟩ := exists_forall₂_iff.2 (forall_slots?_iff.2 divides)
    exact ⟨counts, filled, sum_slots filled⟩
  · constructor
    · exact ⟨commonSubdivision_positive durations, forall_slots?_iff.2 dvd_rfl⟩
    · rintro perBeat ⟨positive, whole⟩
      exact Nat.le_of_dvd positive (forall_slots?_iff.1 whole)
  · intro others same
    exact Nat.dvd_antisymm (commonSubdivision_dvd_of_subset fun _ => (same _).1)
      (commonSubdivision_dvd_of_subset fun _ => (same _).2)

/-- A third, a half and the third again, at twelve slots a beat and in another order. -/
theorem commonSubdivision_least_thirds :
    let third : Duration := .part 3 (by decide)
    let half : Duration := .half .one
    commonSubdivision [third, half, third] = 6 ∧ 6 ∣ 12 ∧
    (∃ counts : List Nat,
      List.Forall₂ (fun duration count => duration.slots? 12 = some count) [third, half, third]
        counts ∧ (counts.sum : Rat) = 12 * total [third, half, third]) ∧
    IsLeast {perBeat | 0 < perBeat ∧
      ∀ duration ∈ [third, half, third], ∃ count, duration.slots? perBeat = some count} 6 ∧
    (∀ duration, duration ∈ [half, third] ↔ duration ∈ [third, half, third]) ∧
    commonSubdivision [half, third] = commonSubdivision [third, half, third] := by
  intro third half
  have six : commonSubdivision [third, half, third] = 6 := by decide +kernel
  have same : ∀ duration, duration ∈ [half, third] ↔ duration ∈ [third, half, third] := by
    intro duration
    simp only [List.mem_cons, List.not_mem_nil, or_false]
    tauto
  obtain ⟨_, counted, least, _, unordered⟩ := commonSubdivision_least [third, half, third]
  rw [six] at least
  have divides : commonSubdivision [third, half, third] ∣ 12 := by
    rw [six]
    decide
  exact ⟨six, by decide, counted 12 divides, least, same, unordered _ same⟩

end JazzGrammar.Duration
