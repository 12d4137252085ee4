/-
The texts that are read as timed chords. Reading a written token gives the timed chord back, so that
tokens name timed chords faithfully.
-/

import JazzGrammar.Progression
import JazzGrammar.Proofs.Fault
import JazzGrammar.Proofs.Literal
import JazzGrammar.Proofs.Symbol.Grammar

namespace JazzGrammar

namespace TimedChord

theorem solid_write (timed : TimedChord) (showUnit : Bool) : Text.Solid (timed.write showUnit) := by
  rw [write]
  split
  · exact timed.chord.solid_write
  · exact timed.chord.solid_write.append (.cons (by decide) timed.duration.solid_write)

/-- A symbol without an at sign is a token of one beat. -/
theorem read_symbol {symbol : Text} (single : '@' ∉ symbol) :
    read symbol = (Chord.read symbol).map unit := by
  have absent : '@' ∉ symbol.trim := fun inside => single (Text.mem_of_mem_trim inside)
  rw [read, Text.cutLast?_none absent]
  dsimp only
  split
  · rename_i blank
    have refused : Chord.read symbol = .error (.token .empty) := if_pos blank
    rw [refused]
    rfl
  · rw [Chord.read_trim]
    cases Chord.read symbol <;> rfl

theorem at_notMem_symbol {symbol : Text} {chord : Chord} (spelled : Chord.read symbol = .ok chord) :
    '@' ∉ symbol :=
  fun inside => absurd (Chord.mem_of_read spelled inside) (by decide)

theorem at_notMem_literal {literal : Text} {duration : Duration}
    (written : Duration.read literal = .ok duration) : '@' ∉ literal :=
  fun inside => absurd (Duration.mem_of_read written inside) (by decide)

/-- A token is cut at its last at sign, whatever stands in front of it. -/
theorem read_at_last {symbol literal : Text} {timed : TimedChord} (last : '@' ∉ literal) :
    read (symbol ++ '@' :: literal) = .ok timed ↔
      Chord.read symbol = .ok timed.chord ∧ Duration.read literal = .ok timed.duration := by
  have trimmed := Text.trim_append_cons symbol literal (rfl : Text.isBlank '@' = false)
  have absent : '@' ∉ literal.trimEnd := fun inside => last (Text.mem_of_mem_trimEnd inside)
  have spelled : Chord.read symbol.trimStart = Chord.read symbol := by
    rw [← Chord.read_trim, Text.trim_trimStart, Chord.read_trim]
  have written : Duration.read literal.trimEnd = Duration.read literal := by
    rw [← Duration.read_trim, Text.trim_trimEnd, Duration.read_trim]
  rw [read, trimmed, Text.cutLast?_append absent]
  dsimp only
  rw [guard_eq_ok, guard_eq_ok, spelled, written, Text.trim_trimStart]
  constructor
  · rintro ⟨_, _, found⟩
    obtain ⟨chord, one, found⟩ := bind_eq_ok.1 found
    obtain ⟨duration, other, found⟩ := bind_eq_ok.1 found
    obtain rfl := Except.ok.inj found
    exact ⟨one, other⟩
  · rintro ⟨one, other⟩
    have missing := Chord.allBlank_of_read one
    refine ⟨by simp, by rwa [List.isEmpty_iff, Text.trim_eq_nil, Bool.not_eq_true], ?_⟩
    rw [one, other]
    rfl

/-- A chord and a duration on both sides of an at sign are read each by itself. Of several at signs
the last one leaves another in the symbol, and there is no such chord. -/
theorem read_at_eq_ok {symbol literal : Text} {timed : TimedChord} :
    read (symbol ++ '@' :: literal) = .ok timed ↔
      Chord.read symbol = .ok timed.chord ∧ Duration.read literal = .ok timed.duration := by
  by_cases second : '@' ∈ literal
  · obtain ⟨before, after, rfl, last⟩ := Text.exists_last second
    have whole : symbol ++ '@' :: (before ++ '@' :: after) =
        (symbol ++ '@' :: before) ++ '@' :: after := by simp
    rw [whole, read_at_last last]
    refine iff_of_false ?_ ?_
    · intro found
      exact at_notMem_symbol found.1 (by simp)
    · intro found
      exact at_notMem_literal found.2 second
  · exact read_at_last second

/-- The texts that are read: a chord and a duration on both sides of an at sign, or a chord alone. -/
theorem read_eq_ok {token : Text} {timed : TimedChord} : read token = .ok timed ↔
    (∃ symbol literal, token = symbol ++ '@' :: literal ∧
      Chord.read symbol = .ok timed.chord ∧ Duration.read literal = .ok timed.duration) ∨
    Chord.read token = .ok timed.chord ∧ timed.duration = .one := by
  constructor
  · intro found
    by_cases present : '@' ∈ token
    · obtain ⟨symbol, literal, rfl, last⟩ := Text.exists_last present
      exact .inl ⟨symbol, literal, rfl, (read_at_last last).1 found⟩
    · rw [read_symbol present] at found
      obtain ⟨chord, spelled, rfl⟩ := map_eq_ok.1 found
      exact .inr ⟨spelled, rfl⟩
  · rintro (⟨symbol, literal, rfl, parts⟩ | ⟨spelled, single⟩)
    · exact read_at_eq_ok.2 parts
    · rw [read_symbol (at_notMem_symbol spelled), map_eq_ok]
      exact ⟨timed.chord, spelled, by rw [unit, ← single]⟩

theorem read_write (timed : TimedChord) (showUnit : Bool) :
    read (timed.write showUnit) = .ok timed := by
  rw [read_eq_ok, write]
  split
  · rename_i unitShown
    simp only [Bool.and_eq_true, decide_eq_true_eq] at unitShown
    exact .inr ⟨timed.chord.read_write, Duration.ext unitShown.1⟩
  · exact .inl ⟨_, _, rfl, timed.chord.read_write, timed.duration.read_write⟩

theorem read_token (timed : TimedChord) : read timed.token = .ok timed :=
  timed.read_write false

/-- The characters of tokens beside digits and blanks. -/
def signs : Text :=
  '@' :: (Chord.letters ++ Duration.signs)

/-- The characters of a text that is read as a timed chord. -/
theorem mem_of_read {token : Text} {timed : TimedChord} (found : read token = .ok timed)
    {char : Char} (member : char ∈ token) :
    Text.isBlank char = true ∨ char.isDigit = true ∨ char ∈ signs := by
  have letters : Chord.letters ⊆ signs := by decide
  have literals : Duration.signs ⊆ signs := by decide
  rcases read_eq_ok.1 found with ⟨symbol, literal, rfl, spelled, written⟩ | ⟨spelled, _⟩
  · rcases List.mem_append.1 member with front | behind
    · exact (Chord.mem_of_read spelled front).imp_right fun letter => .inr (letters letter)
    · rcases List.mem_cons.1 behind with rfl | inside
      · exact .inr (.inr (by decide))
      · refine (Duration.mem_of_read written inside).imp_right fun visible => ?_
        exact visible.imp_right fun sign => literals sign
  · exact (Chord.mem_of_read spelled member).imp_right fun letter => .inr (letters letter)

end TimedChord

namespace Progression

/-- Tokens are read back as the progression that they were written for. -/
theorem ofTokens_tokens (progression : Progression) :
    ofTokens progression.tokens = .ok progression :=
  mapM_written fun timed _ => timed.read_token

/-- The characters of a text that is read as tokens. -/
theorem mem_of_read {text : Text} {progression : Progression} (found : read text = .ok progression)
    (plain : text.trim.head? ≠ some '[') {char : Char} (member : char ∈ text) :
    Text.isBlank char = true ∨ char.isDigit = true ∨ char = ',' ∨ char ∈ TimedChord.signs := by
  rcases Text.mem_trim member with blank | inside
  · exact .inl blank
  · rw [read, if_neg plain, ofTokens] at found
    rcases Text.exists_mem_splitOn inside with comma | ⟨piece, cut, within⟩
    · exact .inr (.inr (.inl comma))
    · by_cases blank : Text.allBlank piece = true
      · exact .inl (List.all_eq_true.1 blank char within)
      · have kept : piece ∈ (text.trim.splitOn ',').filter (!Text.allBlank ·) :=
          List.mem_filter.2 ⟨cut, by simpa using blank⟩
        obtain ⟨timed, _, token⟩ := exists_of_mem_forall₂ (mapM_eq_ok.1 found) kept
        exact (TimedChord.mem_of_read token within).imp_right fun visible => visible.imp_right .inr

/-- Different progressions have different tokens. -/
theorem tokens_injective {left right : Progression} (same : left.tokens = right.tokens) :
    left = right := by
  have read := ofTokens_tokens left
  rw [same, ofTokens_tokens right] at read
  exact (Except.ok.inj read).symm

/-- A token is a faithful name, with a duration of one shown or left out: it is read back as the one
timed chord that has it, and the tokens of a progression as the one progression that has them. -/
theorem tokens_faithful :
    (∀ (timed : TimedChord) (showUnit : Bool), TimedChord.read (timed.write showUnit) = .ok timed) ∧
    (∀ (one other : TimedChord) (oneUnit otherUnit : Bool),
      one.write oneUnit = other.write otherUnit → one = other) ∧
    (∀ progression : Progression, ofTokens progression.tokens = .ok progression) ∧
    ∀ one other : Progression, one.tokens = other.tokens ↔ one = other := by
  refine ⟨TimedChord.read_write, ?_, ofTokens_tokens, ?_⟩
  · intro one other oneUnit otherUnit same
    have read := one.read_write oneUnit
    rw [same, other.read_write otherUnit] at read
    exact (Except.ok.inj read).symm
  · intro one other
    constructor
    · exact tokens_injective
    · rintro rfl
      rfl

/-- Three flats on a leading tone, a diminished seventh of three half beats, and its enharmonic
neighbour with one beat fewer. -/
theorem tokens_faithful_flats :
    let half := Duration.half .one
    let flat : TimedChord := ⟨⟨⟨6, -3⟩, .diminishedSeventh⟩, .add .one half⟩
    let neighbour : TimedChord := ⟨⟨⟨5, -1⟩, .diminishedSeventh⟩, half⟩
    flat.token = ['b', 'b', 'b', 'V', 'I', 'I', '°', '7', '@', '3', '/', '2'] ∧
      TimedChord.read flat.token = .ok flat ∧ flat.token ≠ neighbour.write true := by
  intro half flat neighbour
  have differ : flat ≠ neighbour := by decide +kernel
  refine ⟨by decide +kernel, tokens_faithful.1 flat false, fun same => differ ?_⟩
  exact tokens_faithful.2.1 flat neighbour false true same

end Progression

end JazzGrammar
