/-
The language of grids. A text is read exactly when it is well formed and its divisions are allowed,
and then every part of a beat sounds at its place and for its share of the beat.
-/

import JazzGrammar.Proofs.Grid.Accepted
import JazzGrammar.Proofs.Sound

namespace JazzGrammar.Grid

/-- The texts of the beats of all bars. -/
def beatTexts (bodies : List Text) : List Text :=
  bodies.flatMap (·.splitOn '/')

/-- A text that encloses bars of the demanded number of beats, whose parts all are chord symbols. -/
structure WellFormed (options : Options) (text : Text) (bodies : List Text) : Prop where
  beatsPerBar : 1 ≤ options.beatsPerBar.toNat
  encloses : Encloses text bodies
  nonempty : bodies ≠ []
  beats : ∀ body ∈ bodies, (body.splitOn '/').length = options.beatsPerBar.toNat
  parts : ∀ beat ∈ beatTexts bodies, ∀ part ∈ beat.splitOn ',',
    Text.allBlank part = false ∧ ∃ chord, Chord.read part = .ok chord

section Language

variable {options : Options} {text : Text} {bodies : List Text}

theorem exists_spellsBeat_iff {beat : Text} :
    (∃ chords, SpellsBeat beat chords) ↔ ∀ part ∈ beat.splitOn ',',
      Text.allBlank part = false ∧ ∃ chord, Chord.read part = .ok chord := by
  simp only [SpellsBeat, exists_forall₂_iff, Chord.read_trim]
  refine forall₂_congr fun part _ => ⟨?_, And.right⟩
  rintro ⟨chord, found⟩
  exact ⟨Chord.allBlank_of_read found, chord, found⟩

theorem exists_spellsBar_iff {count : Nat} {body : Text} :
    (∃ beats, SpellsBar count body beats) ↔
      (body.splitOn '/').length = count ∧
        ∀ beat ∈ body.splitOn '/', ∃ chords, SpellsBeat beat chords := by
  rw [← exists_forall₂_iff]
  constructor
  · rintro ⟨beats, spelled, size⟩
    exact ⟨spelled.length_eq.trans size, beats, spelled⟩
  · rintro ⟨size, beats, spelled⟩
    exact ⟨beats, spelled, spelled.length_eq ▸ size⟩

/-- The bars of a well-formed text are spelled one by one. -/
theorem wellFormed_iff :
    WellFormed options text bodies ↔ options.check = .ok () ∧ Encloses text bodies ∧
      bodies ≠ [] ∧ ∃ bars, List.Forall₂ (SpellsBar options.beatsPerBar.toNat) bodies bars := by
  have spelled : (∃ bars, List.Forall₂ (SpellsBar options.beatsPerBar.toNat) bodies bars) ↔
      (∀ body ∈ bodies, (body.splitOn '/').length = options.beatsPerBar.toNat) ∧
        ∀ beat ∈ beatTexts bodies, ∀ part ∈ beat.splitOn ',',
          Text.allBlank part = false ∧ ∃ chord, Chord.read part = .ok chord := by
    simp only [exists_forall₂_iff, exists_spellsBar_iff, exists_spellsBeat_iff, beatTexts,
      List.forall_mem_flatMap, forall_and]
  rw [check_eq_ok, spelled]
  constructor
  · rintro ⟨beatsPerBar, encloses, nonempty, beats, parts⟩
    exact ⟨beatsPerBar, encloses, nonempty, beats, parts⟩
  · rintro ⟨beatsPerBar, encloses, nonempty, beats, parts⟩
    exact ⟨beatsPerBar, encloses, nonempty, beats, parts⟩

/-- A text encloses its bodies only. -/
theorem Encloses.unique {others : List Text} (encloses : Encloses text bodies)
    (other : Encloses text others) : others = bodies := by
  have found := encloses.barsOf?
  rw [other.barsOf?] at found
  exact Option.some.inj found

end Language

section Sound

/-- The chord of a part sounds from the place of the part in its beat up to the next part. -/
theorem chordAt_part {beats : List (List Chord)} (filled : ∀ beat ∈ beats, beat ≠ [])
    {number index : Nat} {beat : List Chord} {chord : Chord}
    (inside : beats[number]? = some beat) (within : beat[index]? = some chord) {instant : Rat}
    (late : number + index / beat.length ≤ instant)
    (early : instant < number + (index + 1) / beat.length) :
    Progression.chordAt (beats.flatMap spread) instant = some chord := by
  obtain ⟨before, after, rfl, rfl⟩ := exists_around inside
  obtain ⟨front, behind, shape, rfl⟩ := exists_around within
  obtain ⟨earlier, one, _⟩ := List.forall_mem_append.1 filled |>.imp_right List.forall_mem_cons.1
  have parted := List.length_pos_iff.2 one
  have parts : sounding beat.length parted beat = sounding beat.length parted front ++
      ⟨chord, .part beat.length parted⟩ :: sounding beat.length parted behind :=
    (congrArg (sounding beat.length parted) shape).trans (sounding_append front (chord :: behind))
  have onset : Progression.total (before.flatMap spread ++ sounding beat.length parted front) =
      before.length + front.length / beat.length := by
    have whole : (beat.length : Rat) ≠ 0 := Nat.cast_ne_zero.2 parted.ne'
    rw [Progression.total_append, total_spread_beats earlier,
      eq_div_of_mul_eq whole (total_sounding front)]
  have placed : (before ++ beat :: after).flatMap spread =
      (before.flatMap spread ++ sounding beat.length parted front) ++
        ⟨chord, .part beat.length parted⟩ ::
          (sounding beat.length parted behind ++ after.flatMap spread) := by
    rw [List.flatMap_append, List.flatMap_cons, spread_eq_sounding parted, parts]
    simp
  rw [placed]
  apply Progression.chordAt_during
  · rw [onset]
    exact late
  · rw [onset, Duration.value_part, add_assoc, ← add_div]
    exact early

/-- What sounds in each part of each beat: the chord of the part, from the place of the part in its
beat up to the next part. -/
def Denotes (bodies : List Text) (progression : Progression) : Prop :=
  ∀ (number : Nat) (beat : Text), (beatTexts bodies)[number]? = some beat →
    ∀ (index : Nat) (part : Text), (beat.splitOn ',')[index]? = some part →
      ∃ chord, Chord.read part = .ok chord ∧ ∀ instant : Rat,
        number + index / (beat.splitOn ',').length ≤ instant →
          instant < number + (index + 1) / (beat.splitOn ',').length →
            progression.chordAt instant = some chord

variable {bodies : List Text} {bars : List (List (List Chord))} {count : Nat}

theorem spells_beatTexts (spells : List.Forall₂ (SpellsBar count) bodies bars) :
    List.Forall₂ SpellsBeat (beatTexts bodies) bars.flatten := by
  induction spells with
  | nil => exact .nil
  | cons spelled _ ih =>
    rw [beatTexts, List.flatMap_cons, List.flatten_cons]
    exact List.rel_append spelled.1 ih

/-- The beats that are spelled sound as the text says. -/
theorem denotes_of_spells (spells : List.Forall₂ (SpellsBar count) bodies bars) :
    Denotes bodies (bars.flatten.flatMap spread) := by
  intro number beat inside index part within
  obtain ⟨chords, placed, spelled⟩ := exists_getElem?_of_forall₂ (spells_beatTexts spells) inside
  obtain ⟨chord, held, found⟩ := exists_getElem?_of_forall₂ spelled within
  rw [Chord.read_trim] at found
  rw [spelled.length_eq]
  exact ⟨chord, found, fun instant => chordAt_part (beat_ne_nil spells) placed held⟩

/-- Merging changes nothing that sounds. -/
theorem Denotes.mergeRuns {progression : Progression} (denotes : Denotes bodies progression) :
    Denotes bodies progression.mergeRuns := by
  intro number beat inside index part within
  simp only [Progression.chordAt_mergeRuns]
  exact denotes number beat inside index part within

end Sound

/-- A text is read exactly when it is well formed and the least common multiple of the numbers of
parts in its beats is allowed. When this multiple alone is too large, it is reported. What is read
repeats no chord, lasts for the beats of the text, and lets each part of a beat sound at its place
and for its share of the beat. -/
theorem grammar_exact (options : Options) (text : Text) :
    ((∃ progression, read options text = .ok progression) ↔
      ∃ bodies, WellFormed options text bodies ∧
        (partCounts bodies).foldl Nat.lcm 1 ≤ options.maxSubdivisions.toNat) ∧
    (∀ bodies, WellFormed options text bodies →
      options.maxSubdivisions.toNat < (partCounts bodies).foldl Nat.lcm 1 →
      read options text =
        .error (.subdivision ((partCounts bodies).foldl Nat.lcm 1) options.maxSubdivisions)) ∧
    ∀ bodies progression, Encloses text bodies → read options text = .ok progression →
      progression.Merged ∧ progression.total = (beatTexts bodies).length ∧
        Denotes bodies progression := by
  refine ⟨⟨?_, ?_⟩, ?_, ?_⟩
  · rintro ⟨progression, found⟩
    obtain ⟨checked, bodies, bars, encloses, nonempty, spells, sparse, _⟩ := read_eq_ok.1 found
    rw [subdivisionOf_eq spells] at sparse
    exact ⟨bodies, wellFormed_iff.2 ⟨checked, encloses, nonempty, bars, spells⟩, sparse⟩
  · rintro ⟨bodies, formed, sparse⟩
    obtain ⟨checked, encloses, nonempty, bars, spells⟩ := wellFormed_iff.1 formed
    rw [← subdivisionOf_eq spells] at sparse
    exact ⟨_, read_eq_ok.2 ⟨checked, bodies, bars, encloses, nonempty, spells, sparse, rfl⟩⟩
  · intro bodies formed dense
    obtain ⟨checked, encloses, nonempty, bars, spells⟩ := wellFormed_iff.1 formed
    rw [← subdivisionOf_eq spells] at dense ⊢
    rw [read, readBeats_eq_ok.2 ⟨checked, bodies, bars, encloses, nonempty, spells, rfl⟩]
    exact if_pos dense
  · intro bodies progression encloses found
    obtain ⟨_, others, bars, other, _, spells, _, rfl⟩ := read_eq_ok.1 found
    obtain rfl := encloses.unique other
    refine ⟨Progression.merged_mergeRuns _, ?_, (denotes_of_spells spells).mergeRuns⟩
    rw [Progression.total_mergeRuns, total_spread_beats (beat_ne_nil spells),
      (spells_beatTexts spells).length_eq]

/-- Two halves stand beside three thirds, and the supertonic is held over the beat. Six slots are
needed, and five are refused. -/
theorem grammar_exact_uneven :
    let options : Options := ⟨2, 6, true⟩
    let text : Text := ['|', ' ', 'I', ',', 'i', 'i', ' ', '/', ' ', 'i', 'i', ',', 'i', 'i', ',',
      'V', ' ', '|']
    let body : Text := [' ', 'I', ',', 'i', 'i', ' ', '/', ' ', 'i', 'i', ',', 'i', 'i', ',', 'V',
      ' ']
    let tonic : TimedChord := ⟨⟨⟨0, 0⟩, .major⟩, .part 2 (by decide)⟩
    let supertonic : TimedChord := ⟨⟨⟨1, 0⟩, .minor⟩, ⟨7 / 6, by decide +kernel⟩⟩
    let dominant : TimedChord := ⟨⟨⟨4, 0⟩, .major⟩, .part 3 (by decide)⟩
    let progression : Progression := [tonic, supertonic, dominant]
    WellFormed options text [body] ∧ read options text = .ok progression ∧
      progression.Merged ∧ progression.total = 2 ∧ Denotes [body] progression ∧
      progression.chordAt (3 / 2) = some supertonic.chord ∧
      WellFormed ⟨2, 5, true⟩ text [body] ∧
      read ⟨2, 5, true⟩ text = .error (.subdivision 6 5) := by
  intro options text body tonic supertonic dominant progression
  have encloses : Encloses text [body] :=
    @Encloses.bar [] body [] [] rfl (by decide) (.outside rfl)
  have found : read options text = .ok progression := by decide +kernel
  obtain ⟨language, _, sounds⟩ := grammar_exact options text
  obtain ⟨merged, total, denotes⟩ := sounds [body] progression encloses found
  obtain ⟨bodies, formed, _⟩ := language.1 ⟨progression, found⟩
  obtain rfl := encloses.unique formed.encloses
  have coarser : WellFormed ⟨2, 5, true⟩ text [body] :=
    ⟨formed.beatsPerBar, encloses, formed.nonempty, formed.beats, formed.parts⟩
  have dense : 5 < (partCounts [body]).foldl Nat.lcm 1 := by decide +kernel
  obtain ⟨chord, spelled, sounding⟩ := denotes 1 [' ', 'i', 'i', ',', 'i', 'i', ',', 'V', ' ']
    (by decide +kernel) 1 ['i', 'i'] (by decide +kernel)
  obtain rfl : supertonic.chord = chord := Except.ok.inj (by rw [← spelled]; decide +kernel)
  have middle := sounding (3 / 2) (by decide +kernel) (by decide +kernel)
  exact ⟨formed, found, merged, total, denotes, middle, coarser,
    (grammar_exact ⟨2, 5, true⟩ text).2.1 [body] coarser dense⟩

end JazzGrammar.Grid
