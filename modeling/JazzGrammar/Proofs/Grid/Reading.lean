/-
Which texts the reader takes for grids, said of the text alone: bars between lines, beats between
slashes and chord symbols between commas.
-/

import JazzGrammar.Grid.Reader
import JazzGrammar.Proofs.Fault
import JazzGrammar.Proofs.Text

namespace JazzGrammar.Grid

/-- A text encloses bodies in pairs of bar lines, with nothing but blanks outside. -/
inductive Encloses : Text → List Text → Prop
  | outside {blanks : Text} (blank : Text.allBlank blanks = true) : Encloses blanks []
  | bar {blanks body rest : Text} {bodies : List Text} (blank : Text.allBlank blanks = true)
      (closed : '|' ∉ body) (behind : Encloses rest bodies) :
      Encloses (blanks ++ '|' :: (body ++ '|' :: rest)) (body :: bodies)

/-- The symbols between the commas of a beat spell its chords. -/
def SpellsBeat (text : Text) (chords : List Chord) : Prop :=
  List.Forall₂ (fun (part : Text) chord => Chord.read part.trim = .ok chord)
    (text.splitOn ',') chords

/-- The texts between the slashes of a bar spell a number of beats. -/
def SpellsBar (count : Nat) (text : Text) (beats : List (List Chord)) : Prop :=
  List.Forall₂ SpellsBeat (text.splitOn '/') beats ∧ beats.length = count

/-- The numbers of symbols in the beats of all bodies. -/
def partCounts (bodies : List Text) : List Nat :=
  bodies.flatMap fun body => (body.splitOn '/').map fun beat => (beat.splitOn ',').length

section Bars

theorem Encloses.barsOf? {text : Text} {bodies : List Text} (encloses : Encloses text bodies) :
    Grid.barsOf? (text.splitOn '|') = some bodies := by
  induction encloses with
  | outside blank =>
    rw [List.splitOn_eq_singleton (Text.notMem_blank (by decide) blank), Grid.barsOf?, if_pos blank]
  | bar blank closed _ ih =>
    rw [List.splitOn_append_cons_self_of_not_mem (Text.notMem_blank (by decide) blank),
      List.splitOn_append_cons_self_of_not_mem closed, Grid.barsOf?, if_pos blank, ih]
    rfl

/-- Only a blank text encloses nothing. -/
theorem Encloses.empty_iff {text : Text} {bodies : List Text} (encloses : Encloses text bodies) :
    bodies = [] ↔ Text.allBlank text = true := by
  cases encloses with
  | outside blank => exact ⟨fun _ => blank, fun _ => rfl⟩
  | bar _ _ _ =>
    have line (blanks rest : Text) : '|' ∈ blanks ++ '|' :: rest := by simp
    constructor
    · intro empty
      contradiction
    · intro blank
      exact absurd (line _ _) (Text.notMem_blank (by decide) blank)

/-- Each body has a bar line on both of its sides. -/
theorem Encloses.count_line {text : Text} {bodies : List Text} (encloses : Encloses text bodies) :
    text.count '|' = 2 * bodies.length := by
  have lineless {blanks : Text} (blank : Text.allBlank blanks = true) : blanks.count '|' = 0 :=
    List.count_eq_zero.2 (Text.notMem_blank (by decide) blank)
  induction encloses with
  | outside blank => rw [lineless blank, List.length_nil]
  | bar blank closed _ ih =>
    rw [List.count_append, List.count_cons_self, List.count_append, List.count_cons_self,
      lineless blank, List.count_eq_zero.2 closed, ih, List.length_cons]
    omega

/-- What is not blank and no bar line stands in a body. -/
theorem Encloses.mem_iff {text : Text} {bodies : List Text} (encloses : Encloses text bodies)
    {char : Char} (solid : Text.isBlank char = false) (other : char ≠ '|') :
    char ∈ text ↔ ∃ body ∈ bodies, char ∈ body := by
  induction encloses with
  | outside blank => simp [Text.notMem_blank solid blank]
  | bar blank _ _ ih => simp [Text.notMem_blank solid blank, other, ih]

/-- A text that encloses bodies starts with a bar line. -/
theorem Encloses.head?_trim {text : Text} {bodies : List Text} (encloses : Encloses text bodies)
    (nonempty : bodies ≠ []) : text.trim.head? = some '|' := by
  cases encloses with
  | outside _ => contradiction
  | bar blank _ _ => exact Text.head?_trim blank (by decide)

/-- Blanks in front of a text enclose nothing more. -/
theorem Encloses.padded {blanks text : Text} {bodies : List Text}
    (blank : Text.allBlank blanks = true) (encloses : Encloses text bodies) :
    Encloses (blanks ++ text) bodies := by
  have joined {other : Text} (also : Text.allBlank other = true) :
      Text.allBlank (blanks ++ other) = true := by
    rw [Text.allBlank, List.all_append, ← Text.allBlank, ← Text.allBlank, blank, also]
    rfl
  cases encloses with
  | outside also => exact .outside (joined also)
  | bar also closed behind =>
    rw [← List.append_assoc]
    exact .bar (joined also) closed behind

/-- One text behind the other encloses the bodies of both. -/
theorem Encloses.append {front back : Text} {frontBodies backBodies : List Text}
    (encloses : Encloses front frontBodies) (behind : Encloses back backBodies) :
    Encloses (front ++ back) (frontBodies ++ backBodies) := by
  induction encloses with
  | outside blank => exact behind.padded blank
  | bar blank closed _ ih =>
    have longer := Encloses.bar blank closed ih
    simpa only [List.append_assoc, List.cons_append] using longer

/-- Of pieces without bar lines every other one becomes a body. -/
theorem encloses_join {pieces bodies : List Text} (found : barsOf? pieces = some bodies)
    (absent : ∀ piece ∈ pieces, '|' ∉ piece) : Encloses (Text.join ['|'] pieces) bodies := by
  fun_induction barsOf? pieces generalizing bodies with
  | case1 => contradiction
  | case2 outside blank =>
    obtain rfl := Option.some.inj found
    rw [Text.join_singleton]
    exact .outside blank
  | case3 => contradiction
  | case4 outside bar rest blank ih =>
    obtain ⟨later, behind, rfl⟩ := Option.map_eq_some_iff.1 found
    obtain ⟨_, closed, others⟩ : '|' ∉ outside ∧ '|' ∉ bar ∧ ∀ piece ∈ rest, '|' ∉ piece := by
      simpa only [List.forall_mem_cons] using absent
    cases rest with
    | nil => contradiction
    | cons next final =>
      rw [Text.join_cons_cons, Text.join_cons_cons]
      simpa using Encloses.bar blank closed (ih behind others)
  | case5 => contradiction

/-- The bars of a text are the bodies that it encloses. -/
theorem bars_eq_ok {text : Text} {bodies : List Text} :
    bars text = .ok bodies ↔ Encloses text bodies := by
  rw [bars]
  constructor
  · intro found
    split at found
    · rename_i pieces shape
      obtain rfl := Except.ok.inj found
      have joined : Text.join ['|'] (text.splitOn '|') = text := List.intercalate_splitOn '|'
      rw [← joined]
      exact encloses_join shape fun piece member => Text.notMem_splitOn member
    · contradiction
  · intro encloses
    rw [encloses.barsOf?]

end Bars

section Beats

/-- A beat is read when its parts spell chords. The checks for blanks only choose the fault, because
blanks spell no chord. -/
theorem readBeat_eq_ok {bar beat : Nat} {text : Text} {chords : List Chord} :
    readBeat bar beat text = .ok chords ↔ SpellsBeat text chords := by
  rw [readBeat]
  dsimp only
  rw [guard_eq_ok, guard_eq_ok, mapM_eq_ok, List.forall₂_map_left_iff, ← SpellsBeat]
  constructor
  · rintro ⟨_, _, spells⟩
    exact spells
  · intro spells
    have visible : ∀ part ∈ text.splitOn ',', Text.trim part ≠ [] := by
      refine ((List.forall₂_and_left _ chords).1 (spells.imp fun part chord read => ⟨?_, read⟩)).1
      intro empty
      rw [empty] at read
      contradiction
    refine ⟨fun blank => ?_, fun empty => ?_, spells⟩
    · rw [List.splitOn_eq_singleton (Text.notMem_blank (by decide) blank)] at visible
      exact visible text List.mem_cons_self (Text.trim_blank blank)
    · simp only [List.any_map, List.any_eq_true, Function.comp_apply, List.isEmpty_iff] at empty
      obtain ⟨part, member, blank⟩ := empty
      exact visible part member blank

theorem readBar_eq_ok {options : Options} {number : Nat} {text : Text}
    {beats : List (List Chord)} :
    readBar options number text = .ok beats ↔ SpellsBar options.beatsPerBar.toNat text beats := by
  rw [readBar]
  dsimp only
  rw [guard_eq_ok, not_not, SpellsBar, and_comm]
  have spelled : (((text.splitOn '/').zipIdx 1).mapM fun entry =>
      readBeat number entry.2 entry.1) = .ok beats ↔
        List.Forall₂ SpellsBeat (text.splitOn '/') beats :=
    mapM_zipIdx_eq_ok (readBeat number) (fun _ _ _ => readBeat_eq_ok) 1
  constructor
  · rintro ⟨found, size⟩
    have spells := spelled.1 found
    exact ⟨spells, spells.length_eq ▸ size⟩
  · rintro ⟨spells, size⟩
    exact ⟨spelled.2 spells, spells.length_eq.trans size⟩

/-- The reader takes the texts that enclose bars of as many beats as its options demand. -/
theorem readBeats_eq_ok {options : Options} {text : Text} {beats : List (List Chord)} :
    readBeats options text = .ok beats ↔ options.check = .ok () ∧
      ∃ bodies bars, Encloses text bodies ∧ bodies ≠ [] ∧
        List.Forall₂ (SpellsBar options.beatsPerBar.toNat) bodies bars ∧ beats = bars.flatten := by
  have spelled (bodies : List Text) (bars : List (List (List Chord))) :
      ((bodies.zipIdx 1).mapM fun entry => readBar options entry.2 entry.1) = .ok bars ↔
        List.Forall₂ (SpellsBar options.beatsPerBar.toNat) bodies bars :=
    mapM_zipIdx_eq_ok (readBar options) (fun _ _ _ => readBar_eq_ok) 1
  rw [readBeats, guard_eq_ok, bind_eq_ok]
  constructor
  · rintro ⟨visible, _, checked, behind⟩
    obtain ⟨bodies, found, behind⟩ := bind_eq_ok.1 behind
    obtain ⟨bars, read, joined⟩ := bind_eq_ok.1 behind
    have encloses := bars_eq_ok.1 found
    exact ⟨checked, bodies, bars, encloses, fun empty => visible (encloses.empty_iff.1 empty),
      (spelled bodies bars).1 read, (Except.ok.inj joined).symm⟩
  · rintro ⟨checked, bodies, bars, encloses, nonempty, spells, rfl⟩
    refine ⟨fun blank => nonempty (encloses.empty_iff.2 blank), (), checked, ?_⟩
    rw [bind_eq_ok]
    refine ⟨bodies, bars_eq_ok.2 encloses, ?_⟩
    rw [bind_eq_ok]
    exact ⟨bars, (spelled bodies bars).2 spells, rfl⟩

/-- Bars that are spelled are read, unless their beats need more slots than are allowed. -/
theorem read_of_spells {options : Options} {text : Text} {bodies : List Text}
    {bars : List (List (List Chord))} (checked : options.check = .ok ())
    (encloses : Encloses text bodies) (nonempty : bodies ≠ [])
    (spells : List.Forall₂ (SpellsBar options.beatsPerBar.toNat) bodies bars) :
    read options text = if subdivisionOf bars.flatten ≤ options.maxSubdivisions.toNat then
        .ok (Progression.mergeRuns (bars.flatten.flatMap spread))
      else .error (.subdivision (subdivisionOf bars.flatten) options.maxSubdivisions) := by
  have found : readBeats options text = .ok bars.flatten :=
    readBeats_eq_ok.2 ⟨checked, bodies, bars, encloses, nonempty, spells, rfl⟩
  rw [read, found]
  by_cases sparse : subdivisionOf bars.flatten ≤ options.maxSubdivisions.toNat
  · simp only [bind, Except.bind, if_neg (Nat.not_lt.2 sparse), if_pos sparse]
    rfl
  · simp only [bind, Except.bind, if_pos (Nat.lt_of_not_le sparse), if_neg sparse]
    rfl

/-- A grid that spells bars sounds like their beats, as long as these need no more slots than are
allowed. -/
theorem read_eq_ok {options : Options} {text : Text} {progression : Progression} :
    read options text = .ok progression ↔ options.check = .ok () ∧
      ∃ bodies bars, Encloses text bodies ∧ bodies ≠ [] ∧
        List.Forall₂ (SpellsBar options.beatsPerBar.toNat) bodies bars ∧
        subdivisionOf bars.flatten ≤ options.maxSubdivisions.toNat ∧
        progression = Progression.mergeRuns (bars.flatten.flatMap spread) := by
  constructor
  · intro accepted
    rw [read, bind_eq_ok] at accepted
    obtain ⟨beats, found, behind⟩ := accepted
    dsimp only at behind
    rw [guard_eq_ok] at behind
    obtain ⟨sparse, merged⟩ := behind
    obtain ⟨checked, bodies, bars, encloses, nonempty, spells, rfl⟩ := readBeats_eq_ok.1 found
    exact ⟨checked, bodies, bars, encloses, nonempty, spells, Nat.le_of_not_lt sparse,
      (Except.ok.inj merged).symm⟩
  · rintro ⟨checked, bodies, bars, encloses, nonempty, spells, sparse, rfl⟩
    rw [read_of_spells checked encloses nonempty spells, if_pos sparse]

/-- The chords of each beat are as many as its symbols. -/
theorem partCounts_eq {count : Nat} {bodies : List Text} {bars : List (List (List Chord))}
    (spells : List.Forall₂ (SpellsBar count) bodies bars) :
    partCounts bodies = bars.flatten.map List.length := by
  induction spells with
  | nil => rfl
  | @cons body bar bodies bars spelled _ ih =>
    have sizes : (body.splitOn '/').map (fun beat => (beat.splitOn ',').length) =
        bar.map List.length := by
      rw [← List.forall₂_eq_eq_eq, List.forall₂_map_left_iff, List.forall₂_map_right_iff]
      exact spelled.1.imp fun _ _ beat => beat.length_eq
    rw [partCounts, List.flatMap_cons, ← partCounts, sizes, ih, List.flatten_cons, List.map_append]

/-- The subdivision of the beats is that of their symbols. -/
theorem subdivisionOf_eq {count : Nat} {bodies : List Text} {bars : List (List (List Chord))}
    (spells : List.Forall₂ (SpellsBar count) bodies bars) :
    subdivisionOf bars.flatten = (partCounts bodies).foldl Nat.lcm 1 := by
  rw [partCounts_eq spells, List.foldl_map, subdivisionOf]

/-- All bars together hold as many beats as their number demands. -/
theorem length_beats {count : Nat} {bodies : List Text} {bars : List (List (List Chord))}
    (spells : List.Forall₂ (SpellsBar count) bodies bars) :
    bars.flatten.length = bodies.length * count := by
  induction spells with
  | nil => rw [List.flatten_nil, List.length_nil, List.length_nil, Nat.zero_mul]
  | cons spelled _ ih =>
    rw [List.flatten_cons, List.length_append, spelled.2, ih, List.length_cons, Nat.succ_mul,
      Nat.add_comm]

/-- No beat of a grid is empty. -/
theorem beat_ne_nil {count : Nat} {bodies : List Text} {bars : List (List (List Chord))}
    (spells : List.Forall₂ (SpellsBar count) bodies bars) : ∀ beat ∈ bars.flatten, beat ≠ [] := by
  have counted := partCounts_eq spells
  intro beat member empty
  have zero : 0 ∈ partCounts bodies := by
    rw [counted]
    exact List.mem_map.2 ⟨beat, member, by rw [empty, List.length_nil]⟩
  obtain ⟨body, _, inside⟩ := List.mem_flatMap.1 zero
  obtain ⟨piece, _, unparted⟩ := List.mem_map.1 inside
  exact List.splitOn_ne_nil ',' piece (List.eq_nil_of_length_eq_zero unparted)

end Beats

end JazzGrammar.Grid
