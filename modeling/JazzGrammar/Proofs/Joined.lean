/-
Lists of tokens that are joined by one more comma: the joined text is read as the one progression
behind the other, and is at fault like the first of them that is at fault.
-/

import JazzGrammar.Proofs.Listed
import JazzGrammar.Session

namespace JazzGrammar

namespace Progression

/-- The pieces between commas that are not blank. -/
def pieces (text : Text) : List Text :=
  (text.trim.splitOn ',').filter (!Text.allBlank ·)

/-- Blanks around tokens make no difference to the outcome up to the kind of a fault. -/
theorem kind_of_map_trim {cuts others : List Text}
    (same : cuts.map Text.trim = others.map Text.trim) :
    (ofTokens cuts).mapError Fault.kind = (ofTokens others).mapError Fault.kind := by
  induction cuts generalizing others with
  | nil =>
    rw [List.map_nil, eq_comm, List.map_eq_nil_iff] at same
    rw [same]
  | cons cut cuts ih =>
    rw [List.map_cons, eq_comm, List.map_eq_cons_iff] at same
    obtain ⟨other, rest, rfl, first, later⟩ := same
    have behind := ih later.symm
    simp only [ofTokens, List.mapM_cons, mapError_bind] at behind ⊢
    rw [TimedChord.kind_of_trim first.symm, behind]

theorem map_trim_filter (cuts : List Text) :
    (cuts.filter (!Text.allBlank ·)).map Text.trim =
      (cuts.map Text.trim).filter (!List.isEmpty ·) := by
  rw [List.filter_map]
  congr 1
  refine List.filter_congr fun cut _ => ?_
  rw [Function.comp_apply, Bool.not_inj_iff, Bool.eq_iff_iff, List.isEmpty_iff, Text.trim_eq_nil]

/-- The comma between two texts ends a piece, so that no piece reaches into both of them. -/
theorem map_trim_pieces_append (left right : Text) :
    (pieces (left ++ ',' :: right)).map Text.trim =
      (pieces left ++ pieces right).map Text.trim := by
  simp only [pieces, List.map_append, map_trim_filter, Text.map_trim_splitOn_trim (rfl :
    Text.isBlank ',' = false), List.splitOn_append_cons_self, List.filter_append]

section Plain

variable {mode : Mode} {options : Grid.Options} {left right text : Text} {progression : Progression}

/-- What is no array is a list of tokens. -/
theorem read_plain (plain : text.trim.head? ≠ some '[') : read text = ofTokens (pieces text) := by
  rw [read, if_neg plain, pieces]

/-- A joined text starts like the first of its two, or with the comma. -/
theorem head?_trim_joined (plain : left.trim.head? ≠ some '[') (right : Text) :
    (left ++ ',' :: right).trim.head? ≠ some '[' := by
  intro bracket
  obtain ⟨before, after, beforeBlank, afterBlank, whole⟩ := Text.exists_trim left
  cases shape : left.trim with
  | nil =>
    rw [Text.head?_trim (Text.trim_eq_nil.1 shape) (by decide)] at bracket
    contradiction
  | cons first rest =>
    rw [shape, List.head?_cons] at plain
    have visible := @Text.isBlank_of_head?_trim left first (by rw [shape, List.head?_cons])
    rw [whole, shape, List.append_assoc, List.append_assoc, List.cons_append,
      Text.head?_trim beforeBlank visible] at bracket
    exact plain bracket

theorem mapError_read_joined (leftPlain : left.trim.head? ≠ some '[')
    (rightPlain : right.trim.head? ≠ some '[') :
    (read (left ++ ',' :: right)).mapError Fault.kind = do
      let before ← (read left).mapError Fault.kind
      let after ← (read right).mapError Fault.kind
      return before ++ after := by
  rw [read_plain (head?_trim_joined leftPlain right), read_plain leftPlain, read_plain rightPlain,
    kind_of_map_trim (map_trim_pieces_append left right)]
  simp only [ofTokens, List.mapM_append, mapError_bind]
  rfl

theorem read_joined_eq_ok (leftPlain : left.trim.head? ≠ some '[')
    (rightPlain : right.trim.head? ≠ some '[') :
    read (left ++ ',' :: right) = .ok progression ↔
      ∃ before, read left = .ok before ∧
        ∃ after, read right = .ok after ∧ before ++ after = progression := by
  rw [← mapError_eq_ok Fault.kind, mapError_read_joined leftPlain rightPlain, bind_eq_ok]
  simp only [bind_eq_ok, mapError_eq_ok, pure, Except.pure, Except.ok.injEq]

/-- A text that is no array is heard as tokens when these are read from it. -/
theorem readIn_eq_ok (asked : mode ≠ .grid) (plain : text.trim.head? ≠ some '[') :
    readIn mode options text = .ok (progression, .duration) ↔ read text = .ok progression := by
  constructor
  · intro heard
    rw [readIn] at heard
    split at heard
    · obtain ⟨_, _, other⟩ := map_eq_ok.1 heard
      simp at other
    · obtain ⟨found, tokens, same⟩ := map_eq_ok.1 heard
      exact (Prod.mk.inj same).1 ▸ tokens
  · intro tokens
    exact readIn_of_read asked (List.count_eq_zero.1 (count_line_of_read tokens plain)) tokens

end Plain

end Progression

namespace Session

variable {session next : Session} {mode : Mode} {text : Text} {resolved : Notation}

/-- A command that hears a text succeeds with what it makes of the progression. -/
theorem hear_eq_ok {options : Grid.Options} (change : Progression → Session) :
    (do let (progression, resolved) ← Progression.readIn mode options text
        return (change progression, Reply.parsed resolved)) = .ok (next, .parsed resolved) ↔
      ∃ progression, Progression.readIn mode options text = .ok (progression, resolved) ∧
        next = change progression := by
  rw [bind_eq_ok]
  constructor
  · rintro ⟨⟨progression, _⟩, heard, same⟩
    obtain ⟨rfl, parsed⟩ := Prod.mk.inj (Except.ok.inj same)
    obtain rfl := Reply.parsed.inj parsed
    exact ⟨progression, heard, rfl⟩
  · rintro ⟨progression, heard, rfl⟩
    exact ⟨_, heard, rfl⟩

theorem load_eq_ok : session.run (.load mode text) = .ok (next, .parsed resolved) ↔
    ∃ progression, Progression.readIn mode session.options text = .ok (progression, resolved) ∧
      next = ⟨progression, session.options⟩ :=
  hear_eq_ok fun progression => ⟨progression, session.options⟩

theorem append_eq_ok : session.run (.append mode text) = .ok (next, .parsed resolved) ↔
    ∃ more, Progression.readIn mode session.options text = .ok (more, resolved) ∧
      next = ⟨session.progression ++ more, session.options⟩ :=
  hear_eq_ok fun more => ⟨session.progression ++ more, session.options⟩

end Session

namespace Progression

/-- Reading lists of tokens takes commas to concatenation: of two texts that are joined by a comma
the progressions are read one behind the other, and if there is a fault, its kind is that of the
first text or else that of the second one. So a session that loads one text and appends the other
holds what it would hold if it loaded the joined text. -/
theorem read_joined (left right : Text) (leftPlain : left.trim.head? ≠ some '[')
    (rightPlain : right.trim.head? ≠ some '[') :
    ((read (left ++ ',' :: right)).mapError Fault.kind = do
      let before ← (read left).mapError Fault.kind
      let after ← (read right).mapError Fault.kind
      return before ++ after) ∧
    ∀ (session next : Session) (mode : Mode), mode ≠ .grid →
      (session.run (.load mode (left ++ ',' :: right)) = .ok (next, .parsed .duration) ↔
        ∃ middle, session.run (.load mode left) = .ok (middle, .parsed .duration) ∧
          middle.run (.append mode right) = .ok (next, .parsed .duration)) := by
  refine ⟨mapError_read_joined leftPlain rightPlain, ?_⟩
  intro session next mode asked
  simp only [Session.load_eq_ok, Session.append_eq_ok]
  have joinedPlain := head?_trim_joined leftPlain right
  constructor
  · rintro ⟨progression, heard, rfl⟩
    rw [readIn_eq_ok asked joinedPlain, read_joined_eq_ok leftPlain rightPlain] at heard
    obtain ⟨before, first, after, second, rfl⟩ := heard
    exact ⟨_, ⟨before, (readIn_eq_ok asked leftPlain).2 first, rfl⟩, after,
      (readIn_eq_ok asked rightPlain).2 second, rfl⟩
  · rintro ⟨_, ⟨before, first, rfl⟩, after, second, rfl⟩
    rw [readIn_eq_ok asked leftPlain] at first
    rw [readIn_eq_ok asked rightPlain] at second
    refine ⟨before ++ after, ?_, rfl⟩
    rw [readIn_eq_ok asked joinedPlain, read_joined_eq_ok leftPlain rightPlain]
    exact ⟨before, first, after, second, rfl⟩

/-- Two texts with blanks and a blank piece at their join, and a third one that lacks the chord of
its only token. -/
theorem read_joined_blanks :
    let tonic : TimedChord := ⟨⟨⟨0, 0⟩, .major⟩, .half .one⟩
    let dominant : TimedChord := .unit ⟨⟨4, 0⟩, .dominantSeventh⟩
    let left : Text := [' ', 'I', '@', '1', '/', '2', '\t', ',', ' ']
    let right : Text := ['\n', 'V', '7']
    let broken : Text := [' ', '@', '2', ' ']
    left.trim.head? ≠ some '[' ∧ right.trim.head? ≠ some '[' ∧ broken.trim.head? ≠ some '[' ∧
    read (left ++ ',' :: right) = .ok [tonic, dominant] ∧
    Session.empty.run (.load .auto (left ++ ',' :: right)) =
      .ok (⟨[tonic, dominant], {}⟩, .parsed .duration) ∧
    read broken = .error (.token (.chordMissing ['@', '2'])) ∧
    read (broken ++ ',' :: right) = .error (.token (.chordMissing ['@', '2', ' '])) ∧
    (read (broken ++ ',' :: right)).mapError Fault.kind = .error .token := by
  intro tonic dominant left right broken
  have leftPlain : left.trim.head? ≠ some '[' := by decide
  have rightPlain : right.trim.head? ≠ some '[' := by decide
  have brokenPlain : broken.trim.head? ≠ some '[' := by decide
  have first : read left = .ok [tonic] := by decide +kernel
  have second : read right = .ok [dominant] := by decide +kernel
  have fault : read broken = .error (.token (.chordMissing ['@', '2'])) := by decide +kernel
  obtain ⟨joined, sessions⟩ := read_joined left right leftPlain rightPlain
  have failed := (read_joined broken right brokenPlain rightPlain).1
  rw [first, second] at joined
  rw [fault] at failed
  refine ⟨leftPlain, rightPlain, brokenPlain, (mapError_eq_ok Fault.kind).1 joined, ?_, fault,
    by decide +kernel, failed⟩
  refine (sessions .empty _ .auto (by decide)).2 ⟨⟨[tonic], {}⟩, ?_, ?_⟩
  · exact Session.load_eq_ok.2 ⟨_, (readIn_eq_ok (by decide) leftPlain).2 first, rfl⟩
  · exact Session.append_eq_ok.2 ⟨_, (readIn_eq_ok (by decide) rightPlain).2 second, rfl⟩

end Progression

end JazzGrammar
