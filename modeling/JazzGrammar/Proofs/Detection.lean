/-
Choosing the notation by the look of a text. The notations have no text in common, so the choice can
only be right or end in a fault, and this file says when it is right.
-/

import JazzGrammar.Notation
import JazzGrammar.Proofs.Grid.Canonical
import JazzGrammar.Proofs.Grid.Reading
import JazzGrammar.Proofs.Token

namespace JazzGrammar

namespace Grid

variable {options : Options} {text : Text} {progression : Progression}

theorem looksLike_iff : looksLike text = true ↔ '/' ∈ text ∧ 2 ≤ text.count '|' := by
  simp [looksLike]

/-- The first bar of a grid has two lines, and nothing stands in front of it. -/
theorem lines_of_read (found : read options text = .ok progression) :
    text.trim.head? = some '|' ∧ 2 ≤ text.count '|' := by
  obtain ⟨_, bodies, bars, encloses, nonempty, _⟩ := read_eq_ok.1 found
  have bar := List.length_pos_iff.2 nonempty
  have lines := encloses.count_line
  exact ⟨encloses.head?_trim nonempty, by omega⟩

/-- A grid looks like one unless its bars have a single beat, which needs no slash. -/
theorem looksLike_of_read (found : read options text = .ok progression) :
    looksLike text = true ↔ 2 ≤ options.beatsPerBar.toNat := by
  obtain ⟨_, bodies, bars, encloses, nonempty, spells, _⟩ := read_eq_ok.1 found
  have divided {body : Text} (member : body ∈ bodies) :
      '/' ∈ body ↔ 2 ≤ options.beatsPerBar.toNat := by
    obtain ⟨beats, _, spelled, size⟩ := exists_of_mem_forall₂ spells member
    rw [← Text.length_splitOn, spelled.length_eq, size]
  rw [looksLike_iff, encloses.mem_iff (by decide) (by decide)]
  constructor
  · rintro ⟨⟨body, member, slash⟩, _⟩
    exact (divided member).1 slash
  · intro several
    obtain ⟨body, member⟩ := List.exists_mem_of_ne_nil bodies nonempty
    exact ⟨⟨body, member, (divided member).2 several⟩, (lines_of_read found).2⟩

end Grid

namespace Progression

variable {options : Grid.Options} {text : Text} {progression : Progression}

/-- No token shows a bar line. -/
theorem count_line_of_read (found : read text = .ok progression)
    (plain : text.trim.head? ≠ some '[') : text.count '|' = 0 :=
  List.count_eq_zero.2 fun member => absurd (mem_of_read found plain member) (by decide)

/-- The notations have no text in common. A grid starts with a bar line, which neither a token nor
an array does. -/
theorem grid_ne_ok_of_read (found : read text = .ok progression) (grid : Progression) :
    Grid.read options text ≠ .ok grid := by
  intro other
  obtain ⟨head, lines⟩ := Grid.lines_of_read other
  have plain : text.trim.head? ≠ some '[' := by
    rw [head]
    decide
  have lineless := count_line_of_read found plain
  omega

/-- The notations are disjoint, whatever layouts they are read with: a grid starts with a bar line,
and what is read as tokens is an array or shows no bar line at all. -/
theorem notations_disjoint (options others : Grid.Options) (text : Text) :
    (∀ found, readIn .grid options text = .ok found → text.trim.head? = some '|') ∧
    (∀ found, readIn .duration others text = .ok found →
      text.trim.head? = some '[' ∨ '|' ∉ text) ∧
    ∀ found other, readIn .grid options text = .ok found →
      readIn .duration others text ≠ .ok other := by
  refine ⟨fun found grid => ?_, fun found tokens => ?_, fun found other grid tokens => ?_⟩
  · obtain ⟨_, read, _⟩ := map_eq_ok.1 grid
    exact (Grid.lines_of_read read).1
  · obtain ⟨_, read, _⟩ := map_eq_ok.1 tokens
    rw [or_iff_not_imp_left]
    exact fun plain => List.count_eq_zero.1 (count_line_of_read read plain)
  · obtain ⟨progression, read, _⟩ := map_eq_ok.1 grid
    obtain ⟨_, sooner, _⟩ := map_eq_ok.1 tokens
    exact grid_ne_ok_of_read sooner progression read

/-- A bar of two beats is no list of tokens, and a list of two tokens is no grid. -/
theorem notations_disjoint_two_beats :
    let options : Grid.Options := ⟨2, 4, true⟩
    let progression : Progression := [.unit ⟨⟨0, 0⟩, .major⟩, .unit ⟨⟨4, 0⟩, .major⟩]
    let grid : Text := ['|', ' ', 'I', ' ', '/', ' ', 'V', ' ', '|']
    let tokens : Text := ['I', ',', ' ', 'V', '@', '2', '/', '2']
    readIn .grid options grid = .ok (progression, .grid) ∧ grid.trim.head? = some '|' ∧
    (∀ other, readIn .duration options grid ≠ .ok other) ∧
    readIn .duration options tokens = .ok (progression, .duration) ∧
    (tokens.trim.head? = some '[' ∨ '|' ∉ tokens) ∧
    ∀ found, readIn .grid options tokens ≠ .ok found := by
  intro options progression grid tokens
  have bars : readIn .grid options grid = .ok (progression, .grid) := by decide +kernel
  have listed : readIn .duration options tokens = .ok (progression, .duration) := by
    decide +kernel
  obtain ⟨starts, _, gridOnly⟩ := notations_disjoint options options grid
  obtain ⟨_, shows, tokensOnly⟩ := notations_disjoint options options tokens
  exact ⟨bars, starts _ bars, fun other => gridOnly _ other bars, listed, shows _ listed,
    fun found read => tokensOnly found _ read listed⟩

theorem readIn_auto : readIn .auto options text =
    if Grid.looksLike text then readIn .grid options text else readIn .duration options text := by
  by_cases looks : Grid.looksLike text = true <;> simp [readIn, Mode.resolve, looks]

/-- A grid of several beats to the bar is found again. -/
theorem readIn_auto_of_several {found : Progression × Notation}
    (grid : readIn .grid options text = .ok found) (several : 2 ≤ options.beatsPerBar.toNat) :
    readIn .auto options text = .ok found := by
  obtain ⟨progression, read, _⟩ := map_eq_ok.1 grid
  rw [readIn_auto, if_pos ((Grid.looksLike_of_read read).2 several), grid]

/-- A grid of one beat to the bar is taken for tokens, which it does not hold. -/
theorem readIn_auto_of_single {found : Progression × Notation}
    (grid : readIn .grid options text = .ok found) (single : ¬2 ≤ options.beatsPerBar.toNat) :
    ∃ fault, readIn .auto options text = .error fault := by
  obtain ⟨progression, read, _⟩ := map_eq_ok.1 grid
  rw [readIn_auto, if_neg (mt (Grid.looksLike_of_read read).1 single), exists_error_iff]
  intro other tokens
  obtain ⟨_, sooner, _⟩ := map_eq_ok.1 tokens
  exact grid_ne_ok_of_read sooner progression read

/-- An array that looks like a grid is none. -/
theorem readIn_auto_of_looksLike {found : Progression × Notation}
    (tokens : readIn .duration options text = .ok found) (looks : Grid.looksLike text = true) :
    text.trim.head? = some '[' ∧ ∃ fault, readIn .auto options text = .error fault := by
  obtain ⟨progression, read, _⟩ := map_eq_ok.1 tokens
  constructor
  · by_contra plain
    have lines := (Grid.looksLike_iff.1 looks).2
    have lineless := count_line_of_read read plain
    omega
  · rw [readIn_auto, if_pos looks, exists_error_iff]
    intro other grid
    obtain ⟨_, sooner, _⟩ := map_eq_ok.1 grid
    exact grid_ne_ok_of_read read _ sooner

/-- A grid is found unless its bars have a single beat, and tokens are found always. Only an array
may look like a grid, when its strings hold a slash and bar lines, and then it is refused. What was
written as a grid of several beats to the bar is found as the progression that is filled up. -/
theorem readIn_auto_agrees (options : Grid.Options) (text : Text) :
    (∀ found, readIn .grid options text = .ok found →
      if 2 ≤ options.beatsPerBar.toNat then readIn .auto options text = .ok found
      else ∃ fault, readIn .auto options text = .error fault) ∧
    (∀ found, readIn .duration options text = .ok found →
      if '/' ∈ text ∧ 2 ≤ text.count '|' then
        text.trim.head? = some '[' ∧ ∃ fault, readIn .auto options text = .error fault
      else readIn .auto options text = .ok found) ∧
    ∀ progression : Progression, progression ≠ [] → Grid.write options progression = .ok text →
      2 ≤ options.beatsPerBar.toNat →
      ∃ full, Grid.FilledUp options progression full ∧
        readIn .auto options text = .ok (full.mergeRuns, .grid) := by
  refine ⟨fun found grid => ?_, fun found tokens => ?_, ?_⟩
  · split
    · rename_i several
      exact readIn_auto_of_several grid several
    · rename_i single
      exact readIn_auto_of_single grid single
  · split
    · rename_i looks
      exact readIn_auto_of_looksLike tokens (Grid.looksLike_iff.2 looks)
    · rename_i differs
      rw [readIn_auto, if_neg (mt Grid.looksLike_iff.1 differs), tokens]
  · intro progression nonempty written several
    obtain ⟨full, slots, filled, bars, rfl⟩ := Grid.exists_fillsBars nonempty written
    exact ⟨full, filled, readIn_auto_of_several (map_eq_ok.2 ⟨_, bars.read, rfl⟩) several⟩

/-- Two beats in a bar, and a token beside them. -/
theorem readIn_auto_agrees_two_beats :
    let options : Grid.Options := ⟨2, 4, true⟩
    let tonic : Chord := ⟨⟨0, 0⟩, .major⟩
    let dominant : Chord := ⟨⟨4, 0⟩, .major⟩
    let grid : Text := ['|', ' ', 'I', ' ', '/', ' ', 'V', ' ', '|']
    let token : Text := ['I', '@', '1', '/', '2']
    let progression : Progression := [.unit tonic, .unit dominant]
    readIn .grid options grid = .ok (progression, .grid) ∧
    readIn .auto options grid = .ok (progression, .grid) ∧
    readIn .duration options token = .ok ([⟨tonic, .half .one⟩], .duration) ∧
    readIn .auto options token = .ok ([⟨tonic, .half .one⟩], .duration) ∧
    progression ≠ [] ∧ Grid.write options progression = .ok grid ∧
    2 ≤ options.beatsPerBar.toNat ∧
    ∃ full, Grid.FilledUp options progression full ∧
      readIn .auto options grid = .ok (full.mergeRuns, .grid) := by
  intro options tonic dominant grid token progression
  have several : 2 ≤ options.beatsPerBar.toNat := by decide
  have bars : readIn .grid options grid = .ok (progression, .grid) := by decide +kernel
  have tokens : readIn .duration options token = .ok ([⟨tonic, .half .one⟩], .duration) := by
    decide +kernel
  have nonempty : progression ≠ [] := List.cons_ne_nil _ _
  have written : Grid.write options progression = .ok grid := by decide +kernel
  obtain ⟨ofGrid, _, ofWritten⟩ := readIn_auto_agrees options grid
  have ofTokens := (readIn_auto_agrees options token).2.1 _ tokens
  exact ⟨bars, ofGrid _ bars, tokens, ofTokens, nonempty, written, several,
    ofWritten progression nonempty written several⟩

/-- A bar of one beat has no slash, and a key that is ignored can hold a slash between two bar
lines. -/
theorem readIn_auto_refuses :
    let tonic : Progression := [.unit ⟨⟨0, 0⟩, .major⟩]
    let bar : Text := ['|', ' ', 'I', ' ', '|']
    let array : Text := ['[', '\x7b', '"', 'c', 'h', 'o', 'r', 'd', '"', ':', '"', 'I', '"', ',',
      '"', 'x', '"', ':', '"', '|', ' ', '/', ' ', '|', '"', '\x7d', ']']
    readIn .grid ⟨1, 4, true⟩ bar = .ok (tonic, .grid) ∧
      readIn .auto ⟨1, 4, true⟩ bar = .error (.root bar) ∧
      readIn .duration ⟨4, 4, true⟩ array = .ok (tonic, .duration) ∧
      readIn .auto ⟨4, 4, true⟩ array = .error (.grid .textOutsideBars) := by
  decide +kernel

end Progression

end JazzGrammar
