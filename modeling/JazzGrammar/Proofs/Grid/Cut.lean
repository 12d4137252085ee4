/-
Slots are cut into bars and compacted beats, which sound like the slots and need no more of them.
-/

import JazzGrammar.Proofs.Compaction
import JazzGrammar.Proofs.Grid.Layout
import JazzGrammar.Proofs.Grid.Slots

namespace JazzGrammar.Grid

/-- The slots cut into bars and beats, and each beat compacted. -/
def cut (perBar perBeat : Nat) (slots : List Chord) : List (List (List Chord)) :=
  (Run.chunks perBar slots).map fun bar => (Run.chunks perBeat bar).map Run.compact

/-- Different chords have different symbols. -/
theorem write_injective : Chord.write.Injective := by
  intro left right same
  have read := left.read_write
  rw [same, right.read_write] at read
  exact (Except.ok.inj read).symm

theorem writeBar_map (perBeat : Nat) (slots : List Chord) :
    writeBar perBeat (slots.map Chord.write) =
      '|' :: barBody ((Run.chunks perBeat slots).map Run.compact) ++ ['|'] := by
  have beats : (Run.chunks perBeat (slots.map Chord.write)).map writeBeat =
      ((Run.chunks perBeat slots).map Run.compact).map beatText := by
    rw [Run.chunks_map, List.map_map, List.map_map]
    apply List.map_congr_left
    intro beat _
    simp only [Function.comp_apply, writeBeat, beatText, Run.compact_map write_injective]
  rw [writeBar, barBody, beats]
  simp

section Cut

variable {perBar perBeat : Nat} {slots : List Chord}

theorem cut_ne_nil (nonempty : slots ≠ []) : cut perBar perBeat slots ≠ [] := by
  obtain ⟨first, rest, rfl⟩ := List.exists_cons_of_ne_nil nonempty
  rw [cut, Run.chunks_cons]
  exact List.cons_ne_nil _ _

/-- Slots are cut apart at a bar line. -/
theorem cut_append {front : List Chord} (bars : perBar ∣ front.length) (back : List Chord) :
    cut perBar perBeat (front ++ back) = cut perBar perBeat front ++ cut perBar perBeat back := by
  rw [cut, Run.chunks_append bars, List.map_append]
  rfl

/-- Bars and beats are cut the same way when the slots are divided further. -/
theorem cut_stretch {factor : Nat} (positive : 0 < factor) (bar : 0 < perBar) (beat : 0 < perBeat)
    (slots : List Chord) :
    cut (perBar * factor) (perBeat * factor) (Run.stretch factor slots) =
      cut perBar perBeat slots := by
  rw [cut, cut, Run.chunks_stretch positive bar, List.map_map]
  apply List.map_congr_left
  intro piece _
  rw [Function.comp_apply, Run.chunks_stretch positive beat, List.map_map]
  apply List.map_congr_left
  intro part _
  exact Run.compact_stretch positive part

/-- Cutting leaves no bar and no beat empty. -/
theorem cut_filled {bar : List (List Chord)} (member : bar ∈ cut perBar perBeat slots) :
    bar ≠ [] ∧ ∀ beat ∈ bar, beat ≠ [] := by
  obtain ⟨piece, inside, rfl⟩ := List.mem_map.1 member
  obtain ⟨first, rest, rfl⟩ := List.exists_cons_of_ne_nil (Run.ne_nil_of_mem_chunks inside)
  constructor
  · rw [Run.chunks_cons]
    exact List.cons_ne_nil _ _
  · intro beat compacted
    obtain ⟨part, within, rfl⟩ := List.mem_map.1 compacted
    exact (Run.restores_compact part).ne_nil (Run.ne_nil_of_mem_chunks within)

theorem spread_eq_sounding {beat : List Chord} (parts : 0 < beat.length) :
    spread beat = sounding beat.length parts beat := by
  cases beat with
  | nil => contradiction
  | cons first rest => rfl

/-- Slots sound the same when they are divided further. -/
theorem mergeRuns_sounding_stretch {factor finer : Nat} {finerPositive : 0 < finer}
    (positive : 0 < perBeat) (divided : finer = perBeat * factor) (slots : List Chord) :
    (sounding finer finerPositive (Run.stretch factor slots)).mergeRuns =
      (sounding perBeat positive slots).mergeRuns := by
  have whole : (perBeat : Rat) ≠ 0 := Nat.cast_ne_zero.2 positive.ne'
  rw [sounding, sounding, Run.stretch, List.map_flatMap, List.map_eq_flatMap]
  apply Progression.mergeRuns_flatMap_congr
  intro chord _
  apply mergeRuns_sounding_replicate
  rw [Duration.value_part, divided, Nat.cast_mul]
  field_simp

/-- A compacted beat sounds like its slots. Each of its members stands for as many slots as the
factor says by which it was compacted. -/
theorem mergeRuns_spread_compact (positive : 0 < perBeat) (whole : slots.length = perBeat) :
    (spread (Run.compact slots)).mergeRuns = (sounding perBeat positive slots).mergeRuns := by
  have nonempty : slots ≠ [] := List.ne_nil_of_length_pos (whole ▸ positive)
  have restores := Run.restores_compact slots
  have parts : 0 < (Run.compact slots).length := List.length_pos_iff.2 (restores.ne_nil nonempty)
  obtain ⟨factor, _, restored⟩ := restores.exists_factor nonempty
  have size := congrArg List.length restored
  rw [Run.length_stretch, whole] at size
  rw [spread_eq_sounding parts]
  conv_rhs => rw [← restored]
  exact (mergeRuns_sounding_stretch parts size.symm (Run.compact slots)).symm

/-- Cutting loses no slot: the beats of all bars sound like the slots. -/
theorem mergeRuns_spread_cut (positive : 0 < perBeat) (beats : perBeat ∣ perBar)
    (bars : perBar ∣ slots.length) :
    Progression.mergeRuns ((cut perBar perBeat slots).flatten.flatMap spread) =
      (sounding perBeat positive slots).mergeRuns := by
  have pieces : (cut perBar perBeat slots).flatten =
      ((Run.chunks perBar slots).flatMap (Run.chunks perBeat)).map Run.compact := by
    rw [cut, List.map_flatMap, List.flatMap_def]
  have whole : ((Run.chunks perBar slots).flatMap (Run.chunks perBeat)).flatten = slots := by
    rw [List.flatMap_def, List.flatten_flatten, List.map_map]
    simp only [Function.comp_def, Run.flatten_chunks, List.map_id_fun']
    exact Run.flatten_chunks perBar slots
  rw [pieces, List.flatMap_map]
  conv_rhs => rw [← whole, sounding, List.map_flatten, ← List.flatMap_def]
  apply Progression.mergeRuns_flatMap_congr
  intro piece member
  obtain ⟨bar, inside, within⟩ := List.mem_flatMap.1 member
  have size := Run.length_of_mem_chunks bars inside
  exact mergeRuns_spread_compact positive
    (Run.length_of_mem_chunks (size.symm ▸ beats) within)

/-- A whole number of beats to the bar and of bars to the grid leaves no bar short. -/
theorem length_of_mem_cut {count : Nat} {bar : List (List Chord)} (positive : 0 < perBeat)
    (bars : count * perBeat ∣ slots.length) (member : bar ∈ cut (count * perBeat) perBeat slots) :
    bar.length = count := by
  obtain ⟨piece, inside, rfl⟩ := List.mem_map.1 member
  rw [List.length_map, Run.length_chunks positive, Run.length_of_mem_chunks bars inside,
    Nat.mul_comm, Nat.mul_add_div positive, Nat.div_eq_of_lt (Nat.sub_one_lt_of_lt positive),
    Nat.add_zero]

/-- The beats of a cut need no more slots than they had. -/
theorem subdivisionOf_cut_dvd (beats : perBeat ∣ perBar) (bars : perBar ∣ slots.length) :
    subdivisionOf (cut perBar perBeat slots).flatten ∣ perBeat := by
  rw [subdivisionOf, foldl_lcm_dvd_iff]
  refine ⟨Nat.one_dvd _, fun beat member => ?_⟩
  obtain ⟨bar, inside, within⟩ := List.mem_flatten.1 member
  obtain ⟨piece, pieceInside, rfl⟩ := List.mem_map.1 inside
  obtain ⟨part, partWithin, rfl⟩ := List.mem_map.1 within
  have size := Run.length_of_mem_chunks bars pieceInside
  rw [← Run.length_of_mem_chunks (size.symm ▸ beats) partWithin]
  exact (Run.restores_compact part).divides

end Cut

end JazzGrammar.Grid
