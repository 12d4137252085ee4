/-
The last bar is filled by the least time that completes it.
-/

import JazzGrammar.Proofs.Grid.Slots
import Mathlib.Data.Rat.Floor
import Mathlib.Order.Bounds.Basic

namespace JazzGrammar

/-- The last chord sounds longer by an amount. -/
def Progression.Prolongs (amount : Rat) (progression longer : Progression) : Prop :=
  ∃ front last duration, progression = front ++ [last] ∧
    longer = front ++ [⟨last.chord, duration⟩] ∧
      duration.value = last.duration.value + amount

theorem Progression.Prolongs.eq_of_zero {progression longer : Progression}
    (prolongs : progression.Prolongs 0 longer) : longer = progression := by
  obtain ⟨front, last, duration, rfl, rfl, same⟩ := prolongs
  rw [add_zero] at same
  rw [Duration.ext same]

theorem Progression.Prolongs.unique {amount : Rat} {progression longer other : Progression}
    (prolongs : progression.Prolongs amount longer) (also : progression.Prolongs amount other) :
    longer = other := by
  obtain ⟨front, last, duration, rfl, rfl, same⟩ := prolongs
  obtain ⟨front', last', duration', whole, rfl, same'⟩ := also
  obtain ⟨rfl, lasts⟩ := List.append_inj' whole rfl
  obtain rfl := List.singleton_inj.1 lasts
  rw [Duration.ext (same.trans same'.symm)]

theorem Progression.Prolongs.total {amount : Rat} {progression longer : Progression}
    (prolongs : progression.Prolongs amount longer) :
    longer.total = progression.total + amount := by
  obtain ⟨front, last, duration, rfl, rfl, same⟩ := prolongs
  rw [total_append, total_append, total_cons, total_cons, same]
  ring

theorem Progression.Prolongs.append {amount : Rat} {progression longer : Progression}
    (prolongs : progression.Prolongs amount longer) (before : Progression) :
    (before ++ progression).Prolongs amount (before ++ longer) := by
  obtain ⟨front, last, duration, rfl, rfl, same⟩ := prolongs
  exact ⟨before ++ front, last, duration, (List.append_assoc ..).symm,
    (List.append_assoc ..).symm, same⟩

namespace Grid

/-- An amount of time fills the last bar. -/
def Completes (options : Options) (progression : Progression) (amount : Rat) : Prop :=
  0 ≤ amount ∧ ∃ bars : Nat, progression.total + amount = bars * options.beatsPerBar.toNat

/-- Whole bars in front do not change what fills the last bar. -/
theorem completes_append_iff {options : Options} {front back : Progression} {amount : Rat}
    {bars : Nat} (beats : 0 < options.beatsPerBar.toNat)
    (whole : front.total = bars * options.beatsPerBar.toNat) :
    Completes options (front ++ back) amount ↔ Completes options back amount := by
  refine and_congr_right fun nonnegative => ?_
  rw [Progression.total_append, whole]
  constructor
  · rintro ⟨all, filled⟩
    have perBar : (0 : Rat) < options.beatsPerBar.toNat := Nat.cast_pos.2 beats
    have behind := Progression.total_nonnegative back
    have fewer : bars ≤ all := by
      have bound : (bars : Rat) * options.beatsPerBar.toNat ≤ all * options.beatsPerBar.toNat := by
        linarith
      exact_mod_cast le_of_mul_le_mul_right bound perBar
    refine ⟨all - bars, ?_⟩
    rw [Nat.cast_sub fewer]
    linarith
  · rintro ⟨later, filled⟩
    refine ⟨bars + later, ?_⟩
    rw [add_assoc, filled, Nat.cast_add]
    ring

/-- The least time that fills the last bar rounds the total up to whole bars. The bars that cover
the total are filled by an amount of their own, which is no less. -/
theorem total_add_least {options : Options} {progression : Progression} {amount : Rat}
    (beats : 0 < options.beatsPerBar.toNat)
    (least : IsLeast {amount | Completes options progression amount} amount) :
    progression.total + amount =
      options.beatsPerBar.toNat * ⌈progression.total / options.beatsPerBar.toNat⌉₊ := by
  have perBar : (0 : Rat) < options.beatsPerBar.toNat := Nat.cast_pos.2 beats
  obtain ⟨⟨nonnegative, bars, filled⟩, smallest⟩ := least
  have enough : ⌈progression.total / options.beatsPerBar.toNat⌉₊ ≤ bars := by
    rw [Nat.ceil_le, div_le_iff₀ perBar]
    linarith
  have covered := Nat.le_ceil (progression.total / options.beatsPerBar.toNat)
  rw [div_le_iff₀ perBar] at covered
  have fewer := smallest ⟨sub_nonneg.2 covered, _, add_sub_cancel _ _⟩
  have bound : (⌈progression.total / options.beatsPerBar.toNat⌉₊ : Rat) ≤ bars :=
    Nat.cast_le.2 enough
  have more := mul_le_mul_of_nonneg_right bound perBar.le
  linarith

/-- The slots that are missing at the end of the last bar. -/
def missing (perBar count : Nat) : Nat :=
  if count % perBar = 0 then 0 else perBar - count % perBar

theorem dvd_add_missing (perBar count : Nat) (positive : 0 < perBar) :
    perBar ∣ count + missing perBar count := by
  have bound := Nat.mod_lt count positive
  have whole := Nat.div_add_mod count perBar
  rw [missing]
  split
  · rename_i complete
    rwa [Nat.add_zero, Nat.dvd_iff_mod_eq_zero]
  · refine ⟨count / perBar + 1, ?_⟩
    rw [Nat.mul_add, Nat.mul_one]
    omega

theorem missing_le {perBar count other : Nat} (positive : 0 < perBar)
    (completes : perBar ∣ count + other) : missing perBar count ≤ other := by
  have bound := Nat.mod_lt count positive
  rw [missing]
  split
  · exact Nat.zero_le _
  · rename_i incomplete
    by_contra fewer
    have less : count % perBar + other < perBar := by omega
    rw [Nat.dvd_iff_mod_eq_zero, ← Nat.mod_add_mod, Nat.mod_eq_of_lt less] at completes
    omega

/-- The missing slots take the least time that fills the last bar. Any other such amount is a whole
number of slots too, because the bars are. -/
theorem isLeast_missing {options : Options} {progression : Progression} {perBeat count : Nat}
    (beats : 0 < options.beatsPerBar.toNat) (positive : 0 < perBeat)
    (total : progression.total * perBeat = count) :
    IsLeast {amount | Completes options progression amount}
      (missing (options.beatsPerBar.toNat * perBeat) count / perBeat) := by
  have perBar := Nat.mul_pos beats positive
  have whole : (0 : Rat) < perBeat := Nat.cast_pos.2 positive
  constructor
  · obtain ⟨bars, filled⟩ := dvd_add_missing _ count perBar
    refine ⟨div_nonneg (Nat.cast_nonneg _) whole.le, bars, ?_⟩
    have slots : (count : Rat) + missing (options.beatsPerBar.toNat * perBeat) count =
        options.beatsPerBar.toNat * perBeat * bars := by exact_mod_cast filled
    rw [← total] at slots
    field_simp
    linarith
  · rintro amount ⟨nonnegative, bars, filled⟩
    have slots : (count : Rat) + amount * perBeat =
        (options.beatsPerBar.toNat * perBeat * bars : Nat) := by
      push_cast
      rw [← total, ← add_mul, filled]
      ring
    have enough : count ≤ options.beatsPerBar.toNat * perBeat * bars := by
      have grown : (count : Rat) ≤ (options.beatsPerBar.toNat * perBeat * bars : Nat) := by
        rw [← slots]
        linarith [mul_nonneg nonnegative whole.le]
      exact_mod_cast grown
    obtain ⟨other, complete⟩ := Nat.exists_eq_add_of_le enough
    have least := missing_le perBar ⟨bars, complete.symm⟩
    rw [complete, Nat.cast_add] at slots
    have same : amount * perBeat = other := by linarith
    rw [div_le_iff₀ whole, same]
    exact_mod_cast least

/-- Up to one bar, the time that is left of it is the least. -/
theorem isLeast_first_bar {options : Options} {progression : Progression}
    (sounds : 0 < progression.total) (short : progression.total ≤ options.beatsPerBar.toNat) :
    IsLeast {amount | Completes options progression amount}
      (options.beatsPerBar.toNat - progression.total) := by
  constructor
  · refine ⟨sub_nonneg.2 short, 1, ?_⟩
    rw [add_sub_cancel, Nat.cast_one, one_mul]
  · rintro amount ⟨nonnegative, bars, filled⟩
    have started : 0 < bars := by
      apply Nat.pos_of_ne_zero
      rintro rfl
      rw [Nat.cast_zero, zero_mul] at filled
      linarith
    have first : (1 : Rat) ≤ bars := by exact_mod_cast started
    have beats : (0 : Rat) ≤ options.beatsPerBar.toNat := Nat.cast_nonneg _
    linarith [mul_le_mul_of_nonneg_right first beats]

/-- With their padding the slots are those of the bars that were begun. -/
theorem add_missing_eq {options : Options} {progression : Progression} {perBeat count : Nat}
    (beats : 0 < options.beatsPerBar.toNat) (positive : 0 < perBeat)
    (total : progression.total * perBeat = count) :
    count + missing (options.beatsPerBar.toNat * perBeat) count =
      ⌈progression.total / options.beatsPerBar.toNat⌉₊ *
        (options.beatsPerBar.toNat * perBeat) := by
  have parts : (perBeat : Rat) ≠ 0 := Nat.cast_ne_zero.2 positive.ne'
  have whole := total_add_least beats (isLeast_missing beats positive total)
  rw [← Nat.cast_inj (R := Rat), Nat.cast_add, ← total]
  calc progression.total * perBeat + missing (options.beatsPerBar.toNat * perBeat) count
      = (progression.total + missing (options.beatsPerBar.toNat * perBeat) count / perBeat) *
          perBeat := by rw [add_mul, div_mul_cancel₀ _ parts]
    _ = _ := by
      rw [whole]
      push_cast
      ring

/-- The last bar is left as it is when it is full, and else padded as long as this is asked for and
a list can hold the slots. -/
theorem fillBar_eq {options : Options} {perBar : Nat} {slots : List Text} :
    fillBar options perBar slots =
      if perBar ∣ slots.length then .ok slots
      else if options.padWithLastChord then
        if slotCapacity < slots.length + missing perBar slots.length then
          .error (.stopped .capacity)
        else .ok (slots ++
          (slots.getLast?.map (List.replicate (missing perBar slots.length))).getD [])
      else .error (.grid .incompleteBar) := by
  rw [fillBar, missing]
  by_cases full : slots.length % perBar = 0 <;> simp [full, Nat.dvd_iff_mod_eq_zero]

/-- Filling repeats the last slot as often as slots are missing. -/
theorem fillBar_eq_ok {options : Options} {perBar : Nat} {slots : List Chord} {last : Chord}
    {filled : List Text} (ends : slots.getLast? = some last)
    (done : fillBar options perBar (slots.map Chord.write) = .ok filled) :
    filled = (slots ++ List.replicate (missing perBar slots.length) last).map Chord.write := by
  simp only [fillBar_eq, List.length_map, List.getLast?_map, ends, Option.map_some,
    Option.getD_some] at done
  split at done
  · rename_i full
    rw [missing, if_pos (Nat.mod_eq_zero_of_dvd full), List.replicate_zero, List.append_nil,
      Except.ok.inj done]
  · split at done
    · split at done
      · contradiction
      · rw [List.map_append, List.map_replicate, Except.ok.inj done]
    · contradiction

/-- A last bar that is not filled is not full, and it is not to be padded or a list cannot hold the
slots. -/
theorem fillBar_eq_error {options : Options} {perBar : Nat} {slots : List Text} {fault : Fault} :
    fillBar options perBar slots = .error fault ↔ ¬perBar ∣ slots.length ∧
      (options.padWithLastChord = false ∧ fault = .grid .incompleteBar ∨
        options.padWithLastChord = true ∧
          slotCapacity < slots.length + missing perBar slots.length ∧
            fault = .stopped .capacity) := by
  rw [fillBar_eq]
  by_cases full : perBar ∣ slots.length
  · simp [full]
  · by_cases pad : options.padWithLastChord = true
    · by_cases long : slotCapacity < slots.length + missing perBar slots.length <;>
        simp [full, pad, long, eq_comm]
    · simp [full, pad, eq_comm]

/-- Slots that repeat the last chord prolong it. -/
theorem Fills.prolong {perBeat more : Nat} {positive : 0 < perBeat} {front : Progression}
    {last : TimedChord} {slots : List Chord} {duration : Duration}
    (fills : Fills perBeat positive (front ++ [last]) slots)
    (longer : duration.value = last.duration.value + more / perBeat) :
    Fills perBeat positive (front ++ [⟨last.chord, duration⟩])
      (slots ++ List.replicate more last.chord) := by
  have whole : (0 : Rat) < perBeat := Nat.cast_pos.2 positive
  rcases Nat.eq_zero_or_pos more with rfl | several
  · obtain rfl : duration = last.duration := Duration.ext (by simpa using longer)
    rwa [List.replicate_zero, List.append_nil]
  · let rest : Duration := ⟨more / perBeat, div_pos (Nat.cast_pos.2 several) whole⟩
    have own : rest.value * perBeat = more := div_mul_cancel₀ _ whole.ne'
    have joined : duration = last.duration.add rest := Duration.ext longer
    have repeated : (sounding perBeat positive (List.replicate more last.chord)).mergeRuns =
        Progression.mergeRuns [⟨last.chord, rest⟩] := mergeRuns_sounding_replicate own
    constructor
    · rw [List.length_append, List.length_replicate, Nat.cast_add, ← fills.total, ← own]
      simp only [Progression.total_append, Progression.total_cons, Progression.total_nil, longer]
      ring
    · rw [List.getLast?_append, List.getLast?_replicate, if_neg several.ne']
      simp
    · rw [sounding_append, Progression.mergeRuns_append_congr fills.sounds
        repeated, List.append_assoc]
      apply Progression.mergeRuns_append_congr rfl
      rw [joined]
      exact Progression.fuse_same last.chord last.duration rest []

end Grid

end JazzGrammar
