/-
The total duration and the onsets of a progression, part by part.
-/

import JazzGrammar.Progression
import Mathlib.Algebra.Order.Field.Rat
import Mathlib.Tactic.Linarith
import Mathlib.Tactic.Ring

namespace JazzGrammar

namespace Progression

/-- The onset of a chord is the total duration of the chords before it. -/
def onsets (progression : Progression) : List Rat :=
  (List.range progression.length).map fun index => total (progression.take index)

@[simp]
theorem total_nil : total [] = 0 := rfl

@[simp]
theorem total_cons (timed : TimedChord) (rest : Progression) :
    total (timed :: rest) = timed.duration.value + total rest := by
  have shift (durations : List Duration) (start : Rat) :
      durations.foldl (fun sum duration => sum + duration.value) start =
        start + Duration.total durations := by
    induction durations generalizing start with
    | nil => simp [Duration.total]
    | cons duration rest ih =>
      rw [Duration.total, List.foldl_cons, List.foldl_cons, ih, ih (0 + duration.value)]
      ring
  rw [total, total, durations, List.map_cons, Duration.total, List.foldl_cons, shift, zero_add]
  rfl

theorem total_append (left right : Progression) :
    total (left ++ right) = total left + total right := by
  induction left with
  | nil => simp
  | cons timed rest ih => rw [List.cons_append, total_cons, total_cons, ih, add_assoc]

theorem total_nonnegative (progression : Progression) : 0 ≤ progression.total := by
  induction progression with
  | nil => exact le_rfl
  | cons timed rest ih =>
    rw [total_cons]
    have positive := timed.duration.positive
    linarith

theorem total_positive {progression : Progression} (nonempty : progression ≠ []) :
    0 < progression.total := by
  obtain ⟨first, rest, rfl⟩ := List.exists_cons_of_ne_nil nonempty
  rw [total_cons]
  exact add_pos_of_pos_of_nonneg first.duration.positive (total_nonnegative rest)

/-- The onsets of the second part come after the whole first part. -/
theorem onsets_append (left right : Progression) :
    onsets (left ++ right) = onsets left ++ (onsets right).map (total left + ·) := by
  have early : ∀ index ∈ List.range left.length,
      total ((left ++ right).take index) = total (left.take index) := by
    intro index inside
    rw [List.take_append_of_le_length (List.mem_range.1 inside).le]
  have late : ∀ index ∈ List.range right.length,
      total ((left ++ right).take (left.length + index)) =
        total left + total (right.take index) := by
    intro index _
    rw [List.take_length_add_append, total_append]
  rw [onsets, List.length_append, List.range_add, List.map_append, List.map_map,
    List.map_congr_left early]
  simp only [onsets, List.map_map]
  exact congrArg _ (List.map_congr_left late)

theorem onsets_cons (timed : TimedChord) (rest : Progression) :
    onsets (timed :: rest) = 0 :: (onsets rest).map (timed.duration.value + ·) := by
  have first : onsets [timed] = [0] := rfl
  have joined := onsets_append [timed] rest
  simpa [first] using joined

/-- Onsets lie between the start and the end. -/
theorem onset_bounds {progression : Progression} {onset : Rat}
    (member : onset ∈ progression.onsets) : 0 ≤ onset ∧ onset ≤ progression.total := by
  obtain ⟨index, _, rfl⟩ := List.mem_map.1 member
  have whole := total_append (progression.take index) (progression.drop index)
  rw [List.take_append_drop] at whole
  have rest := total_nonnegative (progression.drop index)
  exact ⟨total_nonnegative _, by linarith⟩

/-- Onsets depend on the durations only. -/
theorem onsets_of_durations {left right : Progression} (same : left.durations = right.durations) :
    left.onsets = right.onsets := by
  have read (progression : Progression) : progression.onsets =
      (List.range progression.durations.length).map
        fun index => Duration.total (progression.durations.take index) := by
    simp only [onsets, durations, List.length_map, total, List.map_take]
  rw [read, read, same]

end Progression

end JazzGrammar
