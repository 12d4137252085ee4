/-
The slots of a grid sound like the progression that they are laid out for.
-/

import JazzGrammar.Grid.Printer
import JazzGrammar.Grid.Reader
import JazzGrammar.Proofs.Merging
import JazzGrammar.Proofs.Run
import JazzGrammar.Proofs.Token
import Mathlib.Data.Rat.Lemmas
import Mathlib.Tactic.FieldSimp

namespace JazzGrammar

section Multiple

variable {α : Type} (number : α → Nat)

/-- A common multiple is a multiple of the least one. -/
theorem foldl_lcm_dvd_iff {start multiple : Nat} {values : List α} :
    values.foldl (fun least value => least.lcm (number value)) start ∣ multiple ↔
      start ∣ multiple ∧ ∀ value ∈ values, number value ∣ multiple := by
  induction values generalizing start with
  | nil => simp
  | cons first rest ih =>
    rw [List.foldl_cons, ih, Nat.lcm_dvd_iff, List.forall_mem_cons, and_assoc]

theorem foldl_lcm_positive {start : Nat} {values : List α} (positive : 0 < start)
    (each : ∀ value ∈ values, 0 < number value) :
    0 < values.foldl (fun least value => least.lcm (number value)) start := by
  induction values generalizing start with
  | nil => exact positive
  | cons first rest ih =>
    obtain ⟨one, others⟩ := List.forall_mem_cons.1 each
    exact ih (Nat.lcm_pos positive one) others

end Multiple

namespace Duration

theorem commonSubdivision_positive (durations : List Duration) :
    0 < commonSubdivision durations :=
  foldl_lcm_positive _ Nat.one_pos fun duration _ => duration.value.den_pos

/-- The common subdivision divides every number that all denominators divide. -/
theorem commonSubdivision_dvd_iff {durations : List Duration} {perBeat : Nat} :
    commonSubdivision durations ∣ perBeat ↔
      ∀ duration ∈ durations, duration.value.den ∣ perBeat := by
  rw [commonSubdivision, foldl_lcm_dvd_iff]
  exact and_iff_right (Nat.one_dvd _)

/-- The slots of a duration are its multiple, when this is a whole number. -/
theorem slots?_eq_some {duration : Duration} {perBeat count : Nat}
    (slots : duration.slots? perBeat = some count) : duration.value * perBeat = count := by
  rw [slots?] at slots
  split at slots
  · rename_i whole
    have nonnegative : 0 ≤ (duration.value * perBeat).num :=
      Rat.num_nonneg.2 (mul_nonneg duration.positive.le (Nat.cast_nonneg _))
    have number := Int.toNat_of_nonneg nonnegative
    rw [Option.some.inj slots] at number
    rw [← Rat.coe_int_num_of_den_eq_one whole, ← number, Int.cast_natCast]
  · contradiction

end Duration

namespace Grid

/-- Chords that each fill one slot. -/
def sounding (perBeat : Nat) (positive : 0 < perBeat) (slots : List Chord) : Progression :=
  slots.map fun chord => ⟨chord, .part perBeat positive⟩

/-- The slots that a progression fills: as many as its total demands, up to its last chord, and
with the same sound. -/
structure Fills (perBeat : Nat) (positive : 0 < perBeat) (progression : Progression)
    (slots : List Chord) : Prop where
  total : progression.total * perBeat = slots.length
  last : slots.getLast? = progression.getLast?.map TimedChord.chord
  sounds : (sounding perBeat positive slots).mergeRuns = progression.mergeRuns

variable {perBeat : Nat} {positive : 0 < perBeat}

theorem sounding_append (left right : List Chord) :
    sounding perBeat positive (left ++ right) =
      sounding perBeat positive left ++ sounding perBeat positive right :=
  List.map_append

/-- A duration fills at least one slot. -/
theorem slots_positive {duration : Duration} {count : Nat} (positive : 0 < perBeat)
    (slots : duration.value * perBeat = count) : 0 < count := by
  have filled : 0 < duration.value * perBeat :=
    mul_pos duration.positive (Nat.cast_pos.2 positive)
  rw [slots] at filled
  exact_mod_cast filled

/-- A chord that fills some slots sounds like these slots. -/
theorem mergeRuns_sounding_replicate {chord : Chord} {duration : Duration} {count : Nat}
    (slots : duration.value * perBeat = count) :
    (sounding perBeat positive (List.replicate count chord)).mergeRuns =
      Progression.mergeRuns [⟨chord, duration⟩] := by
  have whole : (perBeat : Rat) ≠ 0 := Nat.cast_ne_zero.2 positive.ne'
  rw [sounding, List.map_replicate]
  apply Progression.mergeRuns_replicate (slots_positive positive slots) chord
  rw [← slots, Duration.value_part]
  field_simp

/-- One more chord at the front fills its slots in front of the others. -/
theorem Fills.cons {timed : TimedChord} {rest : Progression} {count : Nat} {slots : List Chord}
    (fills : Fills perBeat positive rest slots)
    (own : timed.duration.value * perBeat = count) :
    Fills perBeat positive (timed :: rest) (List.replicate count timed.chord ++ slots) where
  total := by
    rw [Progression.total_cons, add_mul, own, fills.total, List.length_append,
      List.length_replicate, Nat.cast_add]
  last := by
    have filled := slots_positive positive own
    rw [List.getLast?_append, List.getLast?_replicate, if_neg filled.ne', fills.last,
      List.getLast?_cons]
    cases rest.getLast? <;> rfl
  sounds := by
    rw [sounding_append]
    exact Progression.mergeRuns_append_congr (mergeRuns_sounding_replicate own) fills.sounds

theorem slotCount_eq_ok {duration : Duration} {count : Nat}
    (counted : slotCount perBeat duration = .ok count) : duration.value * perBeat = count := by
  rw [slotCount] at counted
  split at counted
  · rename_i slots whole
    split at counted
    · exact Except.ok.inj counted ▸ Duration.slots?_eq_some whole
    · contradiction
  · contradiction

/-- Slots that cannot be counted are reported as an alignment. -/
theorem slotCount_eq_error {duration : Duration} {fault : Fault}
    (failed : slotCount perBeat duration = .error fault) :
    fault = .alignment duration.write perBeat := by
  rw [slotCount] at failed
  split at failed
  · split at failed
    · contradiction
    · exact (Except.error.inj failed).symm
  · exact (Except.error.inj failed).symm

/-- The slots of a progression are reported for a chord or for their limit. -/
theorem runs_eq_error {filled : Nat} {progression : Progression} {fault : Fault}
    (failed : Grid.runs perBeat filled progression = .error fault) :
    fault = .argument .gridTooLong ∨
      ∃ timed ∈ progression, fault = .alignment timed.duration.write perBeat := by
  induction progression generalizing filled with
  | nil => contradiction
  | cons timed rest ih =>
    rw [Grid.runs, bind_eq_error] at failed
    obtain uncounted | ⟨count, _, later⟩ := failed
    · exact .inr ⟨timed, List.mem_cons_self, slotCount_eq_error uncounted⟩
    · rw [guard_eq_error, bind_eq_error] at later
      obtain ⟨_, long⟩ | ⟨_, behind | ⟨_, _, done⟩⟩ := later
      · exact .inl long.symm
      · exact (ih behind).imp_right fun ⟨held, member, same⟩ =>
          ⟨held, List.mem_cons_of_mem _ member, same⟩
      · contradiction

/-- The runs of slots are those of the chords, each with its written symbol. -/
theorem exists_fills {filled : Nat} {progression : Progression} {runs : List (Run Text)}
    (found : Grid.runs perBeat filled progression = .ok runs) (positive : 0 < perBeat) :
    ∃ slots, Run.expand runs = slots.map Chord.write ∧
      Fills perBeat positive progression slots := by
  induction progression generalizing filled runs with
  | nil =>
    obtain rfl := Except.ok.inj found
    exact ⟨[], rfl, by simp, rfl, rfl⟩
  | cons timed rest ih =>
    rw [Grid.runs, bind_eq_ok] at found
    obtain ⟨count, counted, found⟩ := found
    dsimp only at found
    rw [guard_eq_ok, bind_eq_ok] at found
    obtain ⟨_, later, behind, joined⟩ := found
    obtain rfl := Except.ok.inj joined
    obtain ⟨slots, expanded, fills⟩ := ih behind
    refine ⟨List.replicate count timed.chord ++ slots, ?_, fills.cons (slotCount_eq_ok counted)⟩
    rw [Run.expand_cons, expanded, List.map_append, List.map_replicate]

end Grid

end JazzGrammar
