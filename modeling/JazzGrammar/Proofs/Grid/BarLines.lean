/-
Grids are put together at bar lines, in writing and in reading. The parts may be divided differently
from the whole.
-/

import JazzGrammar.Proofs.Grid.Accepted
import JazzGrammar.Proofs.Grid.Limit

namespace JazzGrammar.Grid

section Write

variable {options : Options}

/-- The parts of a progression keep to its subdivision. -/
theorem commonSubdivision_dvd_append (front back : Progression) :
    Duration.commonSubdivision front.durations ∣
        Duration.commonSubdivision (front ++ back).durations ∧
      Duration.commonSubdivision back.durations ∣
        Duration.commonSubdivision (front ++ back).durations := by
  obtain ⟨frontAligned, backAligned⟩ :=
    List.forall_mem_append.1 (aligned_commonSubdivision (front ++ back))
  exact ⟨Progression.aligned_iff.1 frontAligned, Progression.aligned_iff.1 backAligned⟩

/-- No part of a written progression passes a limit or needs more room, so that only its last bar can
prevent the writing. -/
theorem exists_write_of_dvd {whole part : Progression} {text : Text} (wholeNonempty : whole ≠ [])
    (nonempty : part ≠ [])
    (divides : Duration.commonSubdivision part.durations ∣
      Duration.commonSubdivision whole.durations)
    (shorter : part.total ≤ whole.total) (written : write options whole = .ok text)
    (fits : options.padWithLastChord = true ∨
      ∃ bars : Nat, part.total = bars * options.beatsPerBar.toNat) :
    ∃ partText, write options part = .ok partText := by
  obtain ⟨_, _, _, fills, _⟩ := exists_fillsBars wholeNonempty written
  have beats := check_eq_ok.1 fills.checked
  have fewer := Nat.le_of_dvd fills.positive divides
  have within := within_of_write wholeNonempty written
  have short : part.total * Duration.commonSubdivision part.durations ≤ slotLimit :=
    (mul_le_mul shorter (Nat.cast_le.2 fewer) (Nat.cast_nonneg _)
      (Progression.total_nonnegative whole)).trans within
  have wholeRoom : Room options whole :=
    ((exists_write_iff_fits wholeNonempty beats fills.sparse within).1 ⟨text, written⟩).1
  have room : Room options part := by
    have bars := Nat.ceil_le_ceil
      (div_le_div_of_nonneg_right shorter (Nat.cast_nonneg options.beatsPerBar.toNat))
    exact (Nat.mul_le_mul bars (Nat.mul_le_mul_left _ fewer)).trans wholeRoom
  exact (exists_write_iff_fits nonempty beats (fewer.trans fills.sparse) short).2 ⟨room, fits⟩

/-- Behind whole bars the last bar is filled up as it would be without them. -/
theorem FilledUp.append {front back full : Progression} {bars : Nat}
    (beats : 0 < options.beatsPerBar.toNat)
    (whole : front.total = bars * options.beatsPerBar.toNat)
    (filled : FilledUp options back full) : FilledUp options (front ++ back) (front ++ full) := by
  obtain ⟨amount, least, prolongs⟩ := filled
  refine ⟨amount, ?_, prolongs.append front⟩
  simpa only [completes_append_iff beats whole] using least

/-- Full bars may be divided further. They sound and are cut as before. -/
theorem FillsBars.exists_finer {perBeat finer : Nat} {full : Progression} {slots : List Chord}
    (fills : FillsBars options perBeat full slots) (divides : perBeat ∣ finer)
    (positive : 0 < finer) :
    ∃ divided : List Chord, options.beatsPerBar.toNat * finer ∣ divided.length ∧
      (sounding finer positive divided).mergeRuns = full.mergeRuns ∧
      cut (options.beatsPerBar.toNat * finer) finer divided =
        cut (options.beatsPerBar.toNat * perBeat) perBeat slots := by
  obtain ⟨factor, same⟩ := divides
  have parts : 0 < factor := Nat.pos_of_mul_pos_left (same ▸ positive)
  have beats := beatsPerBar_positive fills.checked
  refine ⟨Run.stretch factor slots, ?_, ?_, ?_⟩
  · rw [Run.length_stretch, same, ← Nat.mul_assoc]
    exact Nat.mul_dvd_mul_right fills.bars factor
  · rw [mergeRuns_sounding_stretch fills.positive same, fills.fills.sounds]
  · rw [same, ← Nat.mul_assoc, cut_stretch parts (Nat.mul_pos beats fills.positive) fills.positive]

/-- Full bars that follow each other are written one under the other, however far the parts and the
whole are divided. -/
theorem FillsBars.text_append {common one other : Nat} {front back : Progression}
    {slots oneSlots otherSlots : List Chord} (oneDivides : one ∣ common)
    (otherDivides : other ∣ common) (fills : FillsBars options common (front ++ back) slots)
    (oneFills : FillsBars options one front oneSlots)
    (otherFills : FillsBars options other back otherSlots) :
    barsText options common slots =
      barsText options one oneSlots ++ '\n' :: barsText options other otherSlots := by
  obtain ⟨oneFiner, bars, oneSounds, oneCut⟩ := oneFills.exists_finer oneDivides fills.positive
  obtain ⟨otherFiner, _, otherSounds, otherCut⟩ :=
    otherFills.exists_finer otherDivides fills.positive
  have same : slots = oneFiner ++ otherFiner := by
    apply eq_of_mergeRuns_sounding fills.positive
    rw [fills.fills.sounds, sounding_append]
    exact Progression.mergeRuns_append_congr oneSounds.symm otherSounds.symm
  rw [barsText, same, cut_append bars, oneCut, otherCut,
    layout_append (cut_ne_nil oneFills.nonempty) (cut_ne_nil otherFills.nonempty)]
  rfl

/-- Two progressions, the first of which has whole bars, are written together as they are written
each for itself, one under the other. -/
theorem write_together (options : Options) (front back : Progression) (text : Text)
    (frontNonempty : front ≠ []) (backNonempty : back ≠ [])
    (whole : ∃ bars : Nat, front.total = bars * options.beatsPerBar.toNat)
    (written : write options (front ++ back) = .ok text) :
    ∃ frontText backText, write options front = .ok frontText ∧
      write options back = .ok backText ∧ text = frontText ++ '\n' :: backText := by
  obtain ⟨bars, size⟩ := whole
  have nonempty : front ++ back ≠ [] := List.append_ne_nil_of_left_ne_nil frontNonempty _
  obtain ⟨full, slots, filled, fills, rfl⟩ := exists_fillsBars nonempty written
  have beats := beatsPerBar_positive fills.checked
  have frontLasts := Progression.total_nonnegative front
  have backLasts := Progression.total_nonnegative back
  have total := Progression.total_append front back
  obtain ⟨frontDivides, backDivides⟩ := commonSubdivision_dvd_append front back
  obtain ⟨frontText, frontWritten⟩ :=
    exists_write_of_dvd nonempty frontNonempty frontDivides (by linarith) written
      (.inr ⟨bars, size⟩)
  have fits : options.padWithLastChord = true ∨
      ∃ bars : Nat, back.total = bars * options.beatsPerBar.toNat := by
    have ends : Completes options (front ++ back) 0 ↔ Completes options back 0 :=
      completes_append_iff beats size
    simp only [Completes, le_refl, true_and, add_zero] at ends
    rw [← ends]
    exact ((exists_write_iff_fits nonempty beats fills.sparse
      (within_of_write nonempty written)).1 ⟨_, written⟩).2
  obtain ⟨backText, backWritten⟩ :=
    exists_write_of_dvd nonempty backNonempty backDivides (by linarith) written fits
  obtain ⟨frontFull, frontSlots, frontFilled, frontFills, rfl⟩ :=
    exists_fillsBars frontNonempty frontWritten
  obtain ⟨backFull, backSlots, backFilled, backFills, rfl⟩ :=
    exists_fillsBars backNonempty backWritten
  obtain rfl := frontFilled.eq size
  obtain rfl := filled.unique (backFilled.append beats size)
  exact ⟨_, _, frontWritten, backWritten,
    fills.text_append frontDivides backDivides frontFills backFills⟩

/-- A bar with halves above one that begins with thirds and is padded. The whole needs sixths, and
the dominant that crosses the bar line is written on both sides of it. -/
theorem write_together_thirds :
    let options : Options := ⟨4, 6, true⟩
    let tonic : Chord := ⟨⟨0, 0⟩, .major⟩
    let dominant : Chord := ⟨⟨4, 0⟩, .dominantSeventh⟩
    let half := Duration.half .one
    let third : Duration := ⟨1 / 3, by decide +kernel⟩
    let front : Progression := [⟨tonic, .add .one half⟩, ⟨dominant, .add half (.add .one .one)⟩]
    let back : Progression := [⟨dominant, third⟩, ⟨tonic, .add third third⟩]
    let text : Text := ['|', ' ', 'I', ' ', '/', ' ', 'I', ',', 'V', '7', ' ', '/', ' ', 'V', '7',
      ' ', '/', ' ', 'V', '7', ' ', '|', '\n', '|', ' ', 'V', '7', ',', 'I', ',', 'I', ' ', '/',
      ' ', 'I', ' ', '/', ' ', 'I', ' ', '/', ' ', 'I', ' ', '|']
    Duration.commonSubdivision (front ++ back).durations = 6 ∧ front ≠ [] ∧ back ≠ [] ∧
      (∃ bars : Nat, front.total = bars * options.beatsPerBar.toNat) ∧
      write options (front ++ back) = .ok text ∧
      ∃ frontText backText, write options front = .ok frontText ∧
        write options back = .ok backText ∧ text = frontText ++ '\n' :: backText := by
  intro options tonic dominant half third front back text
  have frontNonempty : front ≠ [] := List.cons_ne_nil _ _
  have backNonempty : back ≠ [] := List.cons_ne_nil _ _
  have whole : ∃ bars : Nat, front.total = bars * options.beatsPerBar.toNat :=
    ⟨1, by decide +kernel⟩
  have written : write options (front ++ back) = .ok text := by decide +kernel
  exact ⟨by decide +kernel, frontNonempty, backNonempty, whole, written,
    write_together options front back text frontNonempty backNonempty whole written⟩

end Write

section Read

/-- Two grids that are read are read together, with any blanks between them, exactly as long as
their beats need no more slots together than are allowed. Then the one sounds behind the other, and
when the last chord of the first is the first one of the second, both become one chord. -/
theorem read_together (options : Options) (front blanks back : Text) (one other : Progression)
    (blank : Text.allBlank blanks = true) (frontRead : read options front = .ok one)
    (backRead : read options back = .ok other) :
    ∃ frontBodies backBodies before last, Encloses front frontBodies ∧
      Encloses back backBodies ∧ one = before ++ [last] ∧
      let required := (partCounts (frontBodies ++ backBodies)).foldl Nat.lcm 1
      read options (front ++ blanks ++ back) =
        if required ≤ options.maxSubdivisions.toNat then .ok (before ++ Progression.fuse last other)
        else .error (.subdivision required options.maxSubdivisions) := by
  obtain ⟨before, last, shape⟩ :=
    (List.eq_nil_or_concat' one).resolve_left (ne_nil_of_read frontRead)
  obtain ⟨checked, frontBodies, frontBars, frontEncloses, frontNonempty, frontSpells, _, merged⟩ :=
    read_eq_ok.1 frontRead
  obtain ⟨_, backBodies, backBars, backEncloses, _, backSpells, _, rfl⟩ := read_eq_ok.1 backRead
  have encloses := frontEncloses.append (backEncloses.padded blank)
  have spells := List.rel_append frontSpells backSpells
  refine ⟨frontBodies, backBodies, before, last, frontEncloses, backEncloses, shape, ?_⟩
  rw [← List.append_assoc] at encloses
  rw [read_of_spells checked encloses (List.append_ne_nil_of_left_ne_nil frontNonempty _) spells,
    subdivisionOf_eq spells, List.flatten_append, List.flatMap_append,
    Progression.mergeRuns_append, ← merged, shape]
  rw [shape] at merged
  rw [Progression.mergeRuns_merged_append (merged ▸ Progression.merged_mergeRuns _)
    (Progression.merged_mergeRuns _)]

/-- A dominant sounds on behind the bar line, where the beats are divided further. -/
theorem read_together_fused :
    let options : Options := ⟨2, 4, true⟩
    let tonic : Chord := ⟨⟨0, 0⟩, .major⟩
    let dominant : Chord := ⟨⟨4, 0⟩, .dominantSeventh⟩
    let half := Duration.half .one
    let front : Text := ['|', 'I', '/', 'V', '7', '|']
    let blanks : Text := [' ', '\n']
    let back : Text := ['|', 'V', '7', '/', 'V', '7', ',', 'I', '|']
    let one : Progression := [⟨tonic, .one⟩, ⟨dominant, .one⟩]
    let other : Progression := [⟨dominant, .add .one half⟩, ⟨tonic, half⟩]
    Text.allBlank blanks = true ∧ read options front = .ok one ∧ read options back = .ok other ∧
      ∃ frontBodies backBodies before last, Encloses front frontBodies ∧
        Encloses back backBodies ∧ one = before ++ [last] ∧
        let required := (partCounts (frontBodies ++ backBodies)).foldl Nat.lcm 1
        read options (front ++ blanks ++ back) =
          if required ≤ options.maxSubdivisions.toNat then
            .ok (before ++ Progression.fuse last other)
          else .error (.subdivision required options.maxSubdivisions) := by
  intro options tonic dominant half front blanks back one other
  have blank : Text.allBlank blanks = true := by decide +kernel
  have frontRead : read options front = .ok one := by decide +kernel
  have backRead : read options back = .ok other := by decide +kernel
  exact ⟨blank, frontRead, backRead,
    read_together options front blanks back one other blank frontRead backRead⟩

/-- Halves and thirds are read each for themselves, and together they need sixths. -/
example :
    let front : Text := ['|', 'I', ',', 'V', '|']
    let back : Text := ['|', 'I', ',', 'V', ',', 'V', '|']
    let options : Options := ⟨1, 4, true⟩
    (read options front).isOk = true ∧ (read options back).isOk = true ∧
      read options (front ++ back) = .error (.subdivision 6 4) := by
  decide +kernel

end Read

end JazzGrammar.Grid
