/-
Progressions written as lists of tokens: between commas, with blanks around the tokens and blank
pieces among them, or as an array of strings. Each way of writing is read back exactly, and none is
taken for a grid.
-/

import JazzGrammar.Proofs.Detection
import JazzGrammar.Proofs.Json

namespace JazzGrammar

namespace TimedChord

theorem write_ne_nil (timed : TimedChord) (showUnit : Bool) : timed.write showUnit ≠ [] := by
  rw [write]
  split <;> simp [Chord.write_ne_nil]

/-- Blanks around a token show in a fault, but make no difference to its kind. -/
theorem kind_of_trim {one other : Text} (same : one.trim = other.trim) :
    (read one).mapError Fault.kind = (read other).mapError Fault.kind := by
  rw [read, read, same]
  dsimp only
  by_cases blank : other.trim.isEmpty = true
  · simp only [if_pos blank]
    rfl
  · simp only [if_neg blank]
    cases other.trim.cutLast? '@' with
    | none => rfl
    | some parts =>
      dsimp only
      by_cases missing : parts.1.trim.isEmpty = true
      · simp only [if_pos missing]
        rfl
      · simp only [if_neg missing]

theorem read_of_trim {one other : Text} {timed : TimedChord} (same : one.trim = other.trim)
    (found : read other = .ok timed) : read one = .ok timed := by
  rw [← mapError_eq_ok Fault.kind, kind_of_trim same, found]
  rfl

theorem read_padded (timed : TimedChord) (showUnit : Bool) {before after : Text}
    (beforeBlank : Text.allBlank before = true) (afterBlank : Text.allBlank after = true) :
    read (before ++ timed.write showUnit ++ after) = .ok timed :=
  read_of_trim (Text.trim_append _ beforeBlank afterBlank) (timed.read_write showUnit)

end TimedChord

namespace Progression

/-- The pieces between the commas of a list of tokens. The tokens show a duration of one or leave it
out, blanks stand around each of them, and blank pieces stand anywhere. -/
inductive Spaced : Progression → List Text → Prop
  | done : Spaced [] []
  | blank {progression : Progression} {pieces : List Text} (piece : Text)
      (blank : Text.allBlank piece = true) (rest : Spaced progression pieces) :
      Spaced progression (piece :: pieces)
  | token {progression : Progression} {pieces : List Text} (timed : TimedChord) (showUnit : Bool)
      (before after : Text) (beforeBlank : Text.allBlank before = true)
      (afterBlank : Text.allBlank after = true) (rest : Spaced progression pieces) :
      Spaced (timed :: progression) ((before ++ timed.write showUnit ++ after) :: pieces)

/-- The tokens of a progression, each with a duration of one shown or left out. -/
def Named : Progression → List Text → Prop :=
  List.Forall₂ fun timed token => ∃ showUnit, token = timed.write showUnit

variable {progression : Progression} {pieces tokens : List Text}

/-- The characters of pieces are those of tokens. -/
theorem Spaced.mem_piece (spaced : Spaced progression pieces) {piece : Text}
    (member : piece ∈ pieces) {char : Char} (inside : char ∈ piece) :
    Text.isBlank char = true ∨ char.isDigit = true ∨ char ∈ TimedChord.signs := by
  induction spaced with
  | done => contradiction
  | blank _ blank _ ih =>
    cases List.mem_cons.1 member with
    | inl same => exact .inl (List.all_eq_true.1 blank char (same ▸ inside))
    | inr later => exact ih later
  | token timed showUnit _ _ beforeBlank afterBlank _ ih =>
    cases List.mem_cons.1 member with
    | inl same =>
      exact TimedChord.mem_of_read (timed.read_padded showUnit beforeBlank afterBlank)
        (same ▸ inside)
    | inr later => exact ih later

/-- A text between commas shows no brackets and bar lines. -/
theorem Spaced.mem_join (spaced : Spaced progression pieces) {char : Char}
    (member : char ∈ Text.join [','] pieces) :
    char = ',' ∨ Text.isBlank char = true ∨ char.isDigit = true ∨ char ∈ TimedChord.signs := by
  cases Text.mem_join member with
  | inl comma => exact .inl (List.mem_singleton.1 comma)
  | inr piece =>
    obtain ⟨piece, known, inside⟩ := piece
    exact .inr (spaced.mem_piece known inside)

/-- The pieces that are not blank are read as the progression, whatever blanks stand around them. -/
theorem Spaced.reads (spaced : Spaced progression pieces) {cuts : List Text}
    (same : cuts.map Text.trim = pieces.map Text.trim) :
    List.Forall₂ (fun token timed => TimedChord.read token = .ok timed)
      (cuts.filter (!Text.allBlank ·)) progression := by
  induction spaced generalizing cuts with
  | done =>
    rw [List.map_eq_nil_iff.1 same]
    exact .nil
  | blank piece blank _ ih =>
    obtain ⟨cut, cuts, rfl, first, later⟩ := List.map_eq_cons_iff.1 same
    rw [Text.trim_blank blank, Text.trim_eq_nil] at first
    rw [List.filter_cons_of_neg (by simp [first])]
    exact ih later
  | token timed showUnit before after beforeBlank afterBlank _ ih =>
    obtain ⟨cut, cuts, rfl, first, later⟩ := List.map_eq_cons_iff.1 same
    have token := timed.read_padded showUnit beforeBlank afterBlank
    have shown : Text.allBlank cut ≠ true := by
      intro blank
      rw [Text.trim_padded before after beforeBlank afterBlank (timed.solid_write showUnit),
        Text.trim_blank blank] at first
      exact timed.write_ne_nil showUnit first.symm
    rw [List.filter_cons_of_pos (by simpa using shown)]
    exact .cons (TimedChord.read_of_trim first token) (ih later)

/-- Cutting the trimmed text gives the pieces again, up to blanks around them. -/
theorem Spaced.map_trim_splitOn (spaced : Spaced progression pieces) (nonempty : pieces ≠ []) :
    ((Text.join [','] pieces).trim.splitOn ',').map Text.trim = pieces.map Text.trim := by
  have absent : ∀ piece ∈ pieces, ',' ∉ piece := by
    intro piece member comma
    exact absurd (spaced.mem_piece member comma) (by decide)
  rw [Text.map_trim_splitOn_trim rfl]
  simpa using @Text.map_trim_splitOn_join ',' [] [] pieces nonempty rfl rfl rfl absent

/-- Pieces between commas are read as the progression. -/
theorem Spaced.read (spaced : Spaced progression pieces) :
    read (Text.join [','] pieces) = .ok progression := by
  have plain : (Text.join [','] pieces).trim.head? ≠ some '[' := by
    intro bracket
    have member := Text.mem_of_mem_trim (List.mem_of_head? bracket)
    exact absurd (spaced.mem_join member) (by decide)
  rw [Progression.read, if_neg plain, ofTokens, mapM_eq_ok]
  by_cases nonempty : pieces = []
  · subst nonempty
    cases spaced
    exact .nil
  · exact spaced.reads (spaced.map_trim_splitOn nonempty)

/-- Items that are texts are read as tokens. -/
theorem Named.items (named : Named progression tokens) :
    (tokens.map Json.Value.text).mapM TimedChord.ofJson = .ok progression := by
  rw [mapM_eq_ok, List.forall₂_map_left_iff]
  refine named.flip.imp ?_
  intro token timed shown
  obtain ⟨showUnit, rfl⟩ := shown
  exact timed.read_write showUnit

theorem unmarked_line : Json.Unmarked '|' where
  visible := by decide
  noDigit := by decide
  noEscape := by decide
  noMark := by decide

/-- An array of the tokens is read as the progression, however its strings are written. -/
theorem Named.read (named : Named progression tokens) {text : Text}
    (array : Json.read? text.trim = some (.ofTexts tokens)) : read text = .ok progression := by
  have bracket := (unmarked_line.mem_of_read? array).1
  rw [Json.skipSpace_trim] at bracket
  rw [Progression.read, if_pos bracket, ofJson, array]
  exact named.items

/-- No bar line stands in an array of tokens. -/
theorem Named.line_notMem (named : Named progression tokens) {text : Text}
    (array : Json.read? text.trim = some (.ofTexts tokens)) : '|' ∉ text := by
  intro line
  have inside := (Text.mem_trim line).resolve_left (by decide)
  obtain ⟨token, member, shown⟩ := (unmarked_line.mem_of_read? array).2 inside
  obtain ⟨timed, _, showUnit, rfl⟩ := exists_of_mem_forall₂ named.flip member
  exact absurd (TimedChord.mem_of_read (timed.read_write showUnit) shown) (by decide)

/-- A text without bar lines is read as tokens, also when its notation is chosen by its look. -/
theorem readIn_of_read {mode : Mode} {options : Grid.Options} {text : Text} (asked : mode ≠ .grid)
    (plain : '|' ∉ text) (found : Progression.read text = .ok progression) :
    readIn mode options text = .ok (progression, .duration) := by
  have tokens : readIn .duration options text = .ok (progression, .duration) :=
    map_eq_ok.2 ⟨progression, found, rfl⟩
  cases mode with
  | auto =>
    have looks : ¬Grid.looksLike text = true := by
      rw [Grid.looksLike_iff, List.count_eq_zero.2 plain]
      omega
    rw [readIn_auto, if_neg looks, tokens]
  | duration => exact tokens
  | grid => contradiction

/-- A progression is read back from each way of listing its tokens, whatever the layout is and
whether tokens are asked for or the notation is chosen by the look of the text. The tokens stand
between commas, with blanks around them and blank pieces among them, or they are the strings of an
array, and the array that is written for them is such a one. -/
theorem listed_read_back (progression : Progression) (options : Grid.Options) (mode : Mode)
    (asked : mode ≠ .grid) :
    (∀ pieces, Spaced progression pieces →
      readIn mode options (Text.join [','] pieces) = .ok (progression, .duration)) ∧
    (∀ tokens text, Named progression tokens → Json.read? text.trim = some (.ofTexts tokens) →
      readIn mode options text = .ok (progression, .duration)) ∧
    ∀ tokens before after, Named progression tokens → Text.allBlank before = true →
      Text.allBlank after = true →
      readIn mode options (before ++ (Json.Value.ofTexts tokens).write 0 ++ after) =
        .ok (progression, .duration) := by
  have array : ∀ tokens text, Named progression tokens →
      Json.read? text.trim = some (.ofTexts tokens) →
      readIn mode options text = .ok (progression, .duration) :=
    fun tokens text named array =>
      readIn_of_read asked (named.line_notMem array) (named.read array)
  refine ⟨?_, array, ?_⟩
  · intro pieces spaced
    refine readIn_of_read asked ?_ spaced.read
    intro line
    exact absurd (spaced.mem_join line) (by decide)
  · intro tokens before after named beforeBlank afterBlank
    apply array tokens _ named
    rw [Text.trim_append _ beforeBlank afterBlank, Json.trim_write, Json.read?_write]

/-- Two tokens with a blank piece between them, and the same tokens in an array. -/
theorem listed_read_back_two_tokens :
    let subtonic : TimedChord := ⟨⟨⟨6, -1⟩, .dominantSeventh⟩, .half .one⟩
    let tonic : TimedChord := .unit ⟨⟨0, 0⟩, .minor⟩
    let pieces : List Text := [[' ', 'b', 'V', 'I', 'I', '7', '@', '1', '/', '2'], ['\n'],
      ['I', 'm', '@', '1', '\t']]
    let tokens : List Text := [['b', 'V', 'I', 'I', '7', '@', '1', '/', '2'], ['I', 'm']]
    let array : Text := ['[', '\n', ' ', ' ', '"', 'b', 'V', 'I', 'I', '7', '@', '1', '/', '2', '"',
      ',', '\n', ' ', ' ', '"', 'I', 'm', '"', '\n', ']']
    Mode.auto ≠ .grid ∧ Spaced [subtonic, tonic] pieces ∧
    readIn .auto {} (Text.join [','] pieces) = .ok ([subtonic, tonic], .duration) ∧
    Named [subtonic, tonic] tokens ∧ Json.read? array.trim = some (.ofTexts tokens) ∧
    readIn .auto {} array = .ok ([subtonic, tonic], .duration) ∧
    readIn .auto {} (['\n'] ++ (Json.Value.ofTexts tokens).write 0 ++ [' ']) =
      .ok ([subtonic, tonic], .duration) := by
  intro subtonic tonic pieces tokens array
  have asked : Mode.auto ≠ .grid := by decide
  have shown : pieces = [[' '] ++ subtonic.write false ++ [], ['\n'],
      [] ++ tonic.write true ++ ['\t']] := by decide +kernel
  have spaced : Spaced [subtonic, tonic] pieces := by
    rw [shown]
    exact .token subtonic false [' '] [] rfl rfl
      (.blank ['\n'] rfl (.token tonic true [] ['\t'] rfl rfl .done))
  have named : Named [subtonic, tonic] tokens :=
    .cons ⟨false, by decide +kernel⟩ (.cons ⟨false, by decide +kernel⟩ .nil)
  have written : array = (Json.Value.ofTexts tokens).write 0 := by decide +kernel
  have found : Json.read? array.trim = some (.ofTexts tokens) := by
    rw [written, Json.trim_write, Json.read?_write]
  obtain ⟨ofPieces, ofArray, ofWritten⟩ := listed_read_back [subtonic, tonic] {} .auto asked
  exact ⟨asked, spaced, ofPieces pieces spaced, named, found, ofArray tokens array named found,
    ofWritten tokens _ _ named rfl rfl⟩

end Progression

end JazzGrammar
