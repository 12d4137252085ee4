/-
Items of JSON progressions: an object with a chord and a duration of its own stands for the token
that joins the two, and a number for its decimal text.
-/

import JazzGrammar.Proofs.Binary64.Shortest
import JazzGrammar.Proofs.Json.Number
import JazzGrammar.Proofs.Token

namespace JazzGrammar

namespace Duration

/-- A number is a duration like its decimal text. -/
theorem ofJson_number (number : Json.Number) :
    ofJson (.number number) = ofJson (.text number.write) := by
  cases number with
  | whole value => exact (read_of_denotes (denotes_writeSigned value)).symm
  | rounded value => rfl

/-- The decimal text of a number is a literal, and a positive one when the number is positive. -/
theorem exists_denotes_number {number : Json.Number} (finite : number.Finite) :
    ∃ shown, Denotes number.write.trim shown ∧ (0 < shown ↔ 0 < number.value) := by
  cases number with
  | whole value => exact ⟨value, denotes_writeSigned value, Iff.rfl⟩
  | rounded value => exact Binary64.Finite.exists_denotes finite

/-- The numbers that are durations are the positive ones. -/
theorem exists_ofJson_number {number : Json.Number} (finite : number.Finite) :
    (∃ duration, ofJson (.number number) = .ok duration) ↔ 0 < number.value := by
  obtain ⟨shown, denotes, sign⟩ := exists_denotes_number finite
  have read : ofJson (.number number) = ofRat shown := by
    rw [ofJson_number]
    exact read_of_denotes denotes
  rw [read, ← sign]
  constructor
  · rintro ⟨duration, found⟩
    rw [← ofRat_eq_ok.1 found]
    exact duration.positive
  · intro positive
    exact ⟨⟨shown, positive⟩, ofRat_eq_ok.2 rfl⟩

end Duration

namespace TimedChord

/-- The key of the chord. -/
def chordKey : Text := ['c', 'h', 'o', 'r', 'd']

/-- The key of the duration. -/
def durationKey : Text := ['d', 'u', 'r', 'a', 't', 'i', 'o', 'n']

/-- The short key of the duration, which counts when the long one is absent. -/
def shortKey : Text := ['d', 'u', 'r']

/-- The duration among the members of an object. -/
inductive Lasts (members : List (Text × Json.Value)) : Option Json.Value → Prop
  | long {value : Json.Value} (own : Json.member? durationKey members = some value) :
      Lasts members (some value)
  | short {value : Json.Value} (own : Json.member? durationKey members = none)
      (other : Json.member? shortKey members = some value) : Lasts members (some value)
  | absent (own : Json.member? durationKey members = none)
      (other : Json.member? shortKey members = none) : Lasts members none

/-- The members of an object that is an item: a chord that is a text, and a duration or none. -/
structure Item (members : List (Text × Json.Value)) (symbol : Text)
    (duration? : Option Json.Value) : Prop where
  chord : Json.member? chordKey members = some (.text symbol)
  lasts : Lasts members duration?

section Items

variable {members : List (Text × Json.Value)} {symbol : Text} {value : Json.Value}

theorem Lasts.or_eq {duration? : Option Json.Value} (lasts : Lasts members duration?) :
    (Json.member? durationKey members).or (Json.member? shortKey members) = duration? := by
  cases lasts with
  | long own => rw [own, Option.some_or]
  | short own other => rw [own, other, Option.none_or]
  | absent own other => rw [own, other, Option.none_or]

/-- The duration of an item is read before its chord. -/
theorem Item.ofJson_timed (item : Item members symbol (some value)) :
    ofJson (.object members) = do
      let duration ← Duration.ofJson value
      let chord ← Chord.read symbol
      return ⟨chord, duration⟩ := by
  have chord := item.chord
  have lasts := item.lasts.or_eq
  unfold chordKey at chord
  unfold durationKey shortKey at lasts
  simp only [ofJson, chord, lasts]

/-- An item without a duration is the token of its chord. -/
theorem Item.ofJson_plain (item : Item members symbol none) :
    ofJson (.object members) = ofJson (.text symbol) := by
  have chord := item.chord
  have lasts := item.lasts.or_eq
  unfold chordKey at chord
  unfold durationKey shortKey at lasts
  simp only [ofJson, chord, lasts]
  split
  · rfl
  · rename_i single
    exact (read_symbol (by simpa using single)).symm

/-- The number of an item is one of the numbers of its object. -/
theorem Item.finite {number : Json.Number} (item : Item members symbol (some (.number number)))
    (finite : Json.Value.Finite (.object members)) : number.Finite := by
  have own : Json.Value.Finite (.number number) := by
    cases item.lasts with
    | long own => exact finite.member? own
    | short _ other => exact finite.member? other
  cases own with
  | number finite => exact finite

theorem Item.ofJson_eq_ok (item : Item members symbol (some value)) {timed : TimedChord} :
    ofJson (.object members) = .ok timed ↔
      Chord.read symbol = .ok timed.chord ∧ Duration.ofJson value = .ok timed.duration := by
  rw [item.ofJson_timed]
  constructor
  · intro found
    obtain ⟨duration, lasts, found⟩ := bind_eq_ok.1 found
    obtain ⟨chord, spelled, found⟩ := bind_eq_ok.1 found
    obtain rfl := Except.ok.inj found
    exact ⟨spelled, lasts⟩
  · rintro ⟨spelled, lasts⟩
    rw [spelled, lasts]
    rfl

end Items

/-- The forms of an item agree. An object with a chord alone has the outcome of the token that its
chord is, fault included. An object with the text of a duration is accepted with the same result as
the token that joins the two by an at sign. A number has the outcome of its decimal text, so of the
numbers that are read from JSON text the positive ones are accepted and no others. -/
theorem items_agree :
    (∀ members symbol, Item members symbol none →
      ofJson (.object members) = ofJson (.text symbol)) ∧
    (∀ members symbol literal timed, Item members symbol (some (.text literal)) →
      (ofJson (.object members) = .ok timed ↔
        ofJson (.text (symbol ++ '@' :: literal)) = .ok timed)) ∧
    (∀ members others symbol number, Item members symbol (some (.number number)) →
      Item others symbol (some (.text number.write)) →
      ofJson (.object members) = ofJson (.object others)) ∧
    (∀ members symbol number chord, Item members symbol (some (.number number)) →
      Chord.read symbol = .ok chord → Json.Value.Finite (.object members) →
      ((∃ timed, ofJson (.object members) = .ok timed) ↔ 0 < number.value)) ∧
    ∀ text items, Json.read? text = some (.array items) → ∀ item ∈ items, item.Finite := by
  refine ⟨fun _ _ item => item.ofJson_plain, ?_, ?_, ?_, ?_⟩
  · intro members symbol literal timed item
    rw [item.ofJson_eq_ok]
    exact read_at_eq_ok.symm
  · intro members others symbol number item other
    rw [item.ofJson_timed, other.ofJson_timed, Duration.ofJson_number]
  · intro members symbol number chord item spelled finite
    rw [← Duration.exists_ofJson_number (item.finite finite)]
    constructor
    · rintro ⟨timed, found⟩
      exact ⟨timed.duration, (item.ofJson_eq_ok.1 found).2⟩
    · rintro ⟨duration, lasts⟩
      exact ⟨⟨chord, duration⟩, item.ofJson_eq_ok.2 ⟨spelled, lasts⟩⟩
  · intro text items found
    exact (Json.finite_of_read? found).items

/-- A symbol between blanks, a long key that wins over the short one, a tenth of a beat, which is
also read from a text, and no beat. -/
theorem items_agree_tenth :
    let tenth : Json.Number := .rounded ⟨false, 7205759403792794, -56⟩
    let plain := [(chordKey, .text [' ', 'i', 'i', ' '])]
    let both := [(shortKey, .text ['9']), (durationKey, .text ['1', '/', '2', ' ']),
      (chordKey, .text ['\t', 'I'])]
    let shown := [(chordKey, .text ['V']), (durationKey, .text ['0', '.', '1'])]
    let numbered := [(chordKey, .text ['V']), (shortKey, .number tenth)]
    let zero := [(chordKey, .text ['V']), (durationKey, .number (.whole 0))]
    let text : Text := ['[', '\x7b', '"', 'c', 'h', 'o', 'r', 'd', '"', ':', '"', 'V', '"', ',',
      '"', 'd', 'u', 'r', '"', ':', '0', '.', '1', '\x7d', ']']
    ofJson (.object plain) = .ok (unit ⟨⟨1, 0⟩, .minor⟩) ∧
      ofJson (.object both) = .ok ⟨⟨⟨0, 0⟩, .major⟩, .half .one⟩ ∧
      ofJson (.object numbered) = ofJson (.object shown) ∧
      (∃ timed, ofJson (.object numbered) = .ok timed) ∧
      (¬∃ timed, ofJson (.object zero) = .ok timed) ∧
      ∃ items, Json.read? text = some (.array items) ∧ ∀ item ∈ items, item.Finite := by
  intro tenth plain both shown numbered zero text
  obtain ⟨alone, joined, decimal, positive, finite⟩ := items_agree
  have spelled : Chord.read ['V'] = .ok ⟨⟨4, 0⟩, .major⟩ := by decide +kernel
  have short : Item numbered ['V'] (some (.number tenth)) := ⟨rfl, .short rfl rfl⟩
  have long : Item zero ['V'] (some (.number (.whole 0))) := ⟨rfl, .long rfl⟩
  have symbol : Json.Value.Finite (.text ['V']) := .text _
  refine ⟨?_, ?_, ?_, ?_, ?_, ?_⟩
  · rw [alone plain [' ', 'i', 'i', ' '] ⟨rfl, .absent rfl rfl⟩]
    decide +kernel
  · refine (joined both ['\t', 'I'] ['1', '/', '2', ' '] _ ⟨rfl, .long rfl⟩).2 ?_
    decide +kernel
  · have written : tenth.write = ['0', '.', '1'] := by decide +kernel
    exact decimal numbered shown ['V'] tenth short (written ▸ ⟨rfl, .long rfl⟩)
  · have own : tenth.Finite := ⟨by decide, by decide, by decide⟩
    have each : Json.Value.Finite (.object numbered) :=
      .object (List.forall_mem_cons.2 ⟨symbol, List.forall_mem_singleton.2 (.number own)⟩)
    exact (positive numbered ['V'] tenth _ short spelled each).2 (by decide +kernel)
  · have own : (Json.Number.whole 0).Finite := trivial
    have each : Json.Value.Finite (.object zero) :=
      .object (List.forall_mem_cons.2 ⟨symbol, List.forall_mem_singleton.2 (.number own)⟩)
    intro found
    exact absurd ((positive zero ['V'] (.whole 0) _ long spelled each).1 found) (by decide)
  · have read : Progression.ofJson text = .ok [⟨⟨⟨4, 0⟩, .major⟩, .part 10 (by decide)⟩] := by
      decide +kernel
    rw [Progression.ofJson] at read
    split at read
    · rename_i items parsed
      exact ⟨items, parsed, finite text items parsed⟩
    · contradiction

end TimedChord

end JazzGrammar
