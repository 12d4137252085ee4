/-
The numbers in JSON values: whatever is read from a text, each of its numbers keeps to its format.
-/

import JazzGrammar.Json.Reader
import JazzGrammar.Proofs.Binary64

namespace JazzGrammar

namespace Json

variable {number : Number} {text rest : Text}

/-- A number of either form keeps to its format. -/
def Number.Finite : Number → Prop
  | .whole _ => True
  | .rounded value => value.Finite

/-- The exact value of a number. -/
def Number.value : Number → Rat
  | .whole value => value
  | .rounded value => value.value

/-- Each operation of a significand with its power of ten ends with a number of the format. -/
theorem finite_of_scale? {significand : Nat} {power : Int} {scaled : Binary64}
    (found : scale? significand power = some scaled) : scaled.Finite := by
  rw [scale?] at found
  obtain ⟨start, first, found⟩ := Option.bind_eq_some_iff.1 found
  split at found
  · split at found
    · obtain rfl := Option.some.inj found
      exact Binary64.finite_of_ofQuotient? first
    · contradiction
  · split at found
    · obtain ⟨_, _, found⟩ := Option.bind_eq_some_iff.1 found
      exact Binary64.finite_of_ofQuotient? found
    · split at found
      · obtain ⟨_, _, found⟩ := Option.bind_eq_some_iff.1 found
        exact Binary64.finite_of_ofQuotient? found
      · split at found
        · obtain ⟨_, _, found⟩ := Option.bind_eq_some_iff.1 found
          obtain ⟨_, _, found⟩ := Option.bind_eq_some_iff.1 found
          obtain ⟨_, _, found⟩ := Option.bind_eq_some_iff.1 found
          exact Binary64.finite_of_ofQuotient? found
        · exact Binary64.finite_of_ofQuotient? found

/-- The sign of a literal is no part of the format. -/
theorem finite_of_literal {literal : Literal} (found : literal.value? = some number) :
    number.Finite := by
  unfold Literal.value? at found
  dsimp only at found
  split at found
  · obtain rfl := Option.some.inj found
    exact trivial
  · obtain ⟨magnitude, scaled, rfl⟩ := Option.map_eq_some_iff.1 found
    have finite := finite_of_scale? scaled
    exact ⟨finite.significand, finite.least, finite.greatest⟩

/-- Every number that is read from a JSON text keeps to its format. -/
theorem finite_of_readNumber? (found : readNumber? text = some (number, rest)) :
    number.Finite := by
  unfold readNumber? at found
  dsimp only at found
  obtain ⟨_, _, found⟩ := Option.bind_eq_some_iff.1 found
  obtain ⟨_, _, found⟩ := Option.bind_eq_some_iff.1 found
  obtain ⟨_, _, found⟩ := Option.bind_eq_some_iff.1 found
  obtain ⟨_, valued, found⟩ := Option.bind_eq_some_iff.1 found
  obtain ⟨rfl, _⟩ := Prod.mk.inj (Option.some.inj found)
  exact finite_of_literal valued

/-- A value all of whose numbers keep to their format. -/
inductive Value.Finite : Value → Prop
  | null : Finite .null
  | boolean (value : Bool) : Finite (.boolean value)
  | number {number : Number} (finite : number.Finite) : Finite (.number number)
  | text (text : Text) : Finite (.text text)
  | array {items : List Value} (finite : ∀ item ∈ items, Finite item) : Finite (.array items)
  | object {members : List (Text × Value)} (finite : ∀ member ∈ members, Finite member.2) :
      Finite (.object members)

/-- What is read with an amount of fuel has finite numbers only. -/
structure ReadsFinite (fuel : Nat) : Prop where
  value : ∀ {depth : Nat} {text rest : Text} {value : Value},
    readValue? fuel depth text = some (value, rest) → value.Finite
  items : ∀ {depth : Nat} {text rest : Text} {items : List Value},
    readItems? fuel depth text = some (items, rest) → ∀ item ∈ items, item.Finite
  members : ∀ {depth : Nat} {text rest : Text} {members : List (Text × Value)},
    readMembers? fuel depth text = some (members, rest) → ∀ member ∈ members, member.2.Finite

section Inner

variable {fuel depth : Nat} (inner : ReadsFinite fuel)

include inner

/-- A number stands at the end of its value, an item or a member inside of it. -/
theorem ReadsFinite.readValue? {value : Value}
    (found : Json.readValue? (fuel + 1) depth text = some (value, rest)) : value.Finite := by
  rw [Json.readValue?] at found
  split at found
  · obtain ⟨rfl, _⟩ := Prod.mk.inj (Option.some.inj found)
    exact .null
  · obtain ⟨rfl, _⟩ := Prod.mk.inj (Option.some.inj found)
    exact .boolean true
  · obtain ⟨rfl, _⟩ := Prod.mk.inj (Option.some.inj found)
    exact .boolean false
  · obtain ⟨⟨chars, _⟩, _, joined⟩ := Option.map_eq_some_iff.1 found
    obtain ⟨rfl, _⟩ := Prod.mk.inj joined
    exact .text chars
  · split at found
    · contradiction
    · split at found
      · obtain ⟨rfl, _⟩ := Prod.mk.inj (Option.some.inj found)
        exact .array nofun
      · obtain ⟨⟨items, _⟩, read, joined⟩ := Option.map_eq_some_iff.1 found
        obtain ⟨rfl, _⟩ := Prod.mk.inj joined
        exact .array (inner.items read)
  · split at found
    · contradiction
    · split at found
      · obtain ⟨rfl, _⟩ := Prod.mk.inj (Option.some.inj found)
        exact .object nofun
      · obtain ⟨⟨members, _⟩, read, joined⟩ := Option.map_eq_some_iff.1 found
        obtain ⟨rfl, _⟩ := Prod.mk.inj joined
        exact .object (inner.members read)
  · obtain ⟨⟨number, _⟩, read, joined⟩ := Option.map_eq_some_iff.1 found
    obtain ⟨rfl, _⟩ := Prod.mk.inj joined
    exact .number (finite_of_readNumber? read)

theorem ReadsFinite.readItems? {items : List Value}
    (found : Json.readItems? (fuel + 1) depth text = some (items, rest)) :
    ∀ item ∈ items, item.Finite := by
  rw [Json.readItems?] at found
  obtain ⟨⟨first, _⟩, read, found⟩ := Option.bind_eq_some_iff.1 found
  dsimp only at found
  split at found
  · obtain ⟨⟨others, _⟩, later, joined⟩ := Option.bind_eq_some_iff.1 found
    obtain ⟨rfl, _⟩ := Prod.mk.inj (Option.some.inj joined)
    exact List.forall_mem_cons.2 ⟨inner.value read, inner.items later⟩
  · obtain ⟨rfl, _⟩ := Prod.mk.inj (Option.some.inj found)
    exact List.forall_mem_singleton.2 (inner.value read)
  · contradiction

theorem ReadsFinite.readMembers? {members : List (Text × Value)}
    (found : Json.readMembers? (fuel + 1) depth text = some (members, rest)) :
    ∀ member ∈ members, member.2.Finite := by
  rw [Json.readMembers?] at found
  split at found
  · obtain ⟨⟨key, _⟩, _, found⟩ := Option.bind_eq_some_iff.1 found
    dsimp only at found
    split at found
    · obtain ⟨⟨first, _⟩, read, found⟩ := Option.bind_eq_some_iff.1 found
      dsimp only at found
      split at found
      · obtain ⟨⟨others, _⟩, later, joined⟩ := Option.bind_eq_some_iff.1 found
        obtain ⟨rfl, _⟩ := Prod.mk.inj (Option.some.inj joined)
        exact List.forall_mem_cons.2 ⟨inner.value read, inner.members later⟩
      · obtain ⟨rfl, _⟩ := Prod.mk.inj (Option.some.inj found)
        exact List.forall_mem_singleton.2 (inner.value read)
      · contradiction
    · contradiction
  · contradiction

end Inner

theorem readsFinite (fuel : Nat) : ReadsFinite fuel := by
  induction fuel with
  | zero =>
    constructor
    · simp [readValue?]
    · simp [readItems?]
    · simp [readMembers?]
  | succ fuel ih => exact ⟨ih.readValue?, ih.readItems?, ih.readMembers?⟩

/-- Every number in a value that is read from a whole text keeps to its format. -/
theorem finite_of_read? {value : Value} (found : read? text = some value) : value.Finite := by
  obtain ⟨⟨own, behind⟩, read, closed⟩ := Option.bind_eq_some_iff.1 found
  obtain ⟨_, same⟩ : (skipSpace behind).isEmpty = true ∧ own = value := by simpa using closed
  exact same ▸ (readsFinite _).value read

theorem Value.Finite.items {items : List Value} (finite : Value.Finite (.array items)) :
    ∀ item ∈ items, item.Finite := by
  cases finite with
  | array each => exact each

/-- A member that counts is one of the members. -/
theorem Value.Finite.member? {members : List (Text × Value)} {key : Text} {value : Value}
    (finite : Value.Finite (.object members)) (found : member? key members = some value) :
    value.Finite := by
  cases finite with
  | object each =>
    obtain ⟨before, after, turned, _⟩ := List.lookup_eq_some_iff.1 found
    have inside : (key, value) ∈ members.reverse := by simp [turned]
    exact each _ (List.mem_reverse.1 inside)

end Json

end JazzGrammar
