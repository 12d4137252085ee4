/-
Computations that end without a fault, and the kinds of faults of the others.
-/

import JazzGrammar.Fault
import Mathlib.Data.List.Forall2
import Mathlib.Tactic.Cases

namespace JazzGrammar

/-- The kinds of faults: which part of the input is to blame, or that the machine stopped. -/
inductive Fault.Kind where
  | root
  | chord
  | duration
  | token
  | grid
  | subdivision
  | alignment
  | argument
  | progression
  | settings
  | stopped
deriving DecidableEq

def Fault.kind : Fault → Fault.Kind
  | .root _ => .root
  | .chord => .chord
  | .duration _ => .duration
  | .token _ => .token
  | .grid _ => .grid
  | .subdivision _ _ => .subdivision
  | .alignment _ _ => .alignment
  | .argument _ => .argument
  | .progression _ => .progression
  | .settings _ => .settings
  | .stopped _ => .stopped

section Sequence

variable {α β ε : Type}

/-- A sequence succeeds when both of its parts do. -/
theorem bind_eq_ok {first : Except ε α} {next : α → Except ε β} {result : β} :
    first >>= next = .ok result ↔ ∃ value, first = .ok value ∧ next value = .ok result := by
  cases first <;> simp [bind, Except.bind]

theorem map_eq_ok {first : Except ε α} {change : α → β} {result : β} :
    first.map change = .ok result ↔ ∃ value, first = .ok value ∧ change value = result := by
  cases first <;> simp [Except.map]

theorem map_eq_error {first : Except ε α} {change : α → β} {fault : ε} :
    first.map change = .error fault ↔ first = .error fault := by
  cases first <;> simp [Except.map]

theorem mapError_eq_ok {δ : Type} (change : ε → δ) {first : Except ε α} {result : α} :
    first.mapError change = .ok result ↔ first = .ok result := by
  cases first <;> simp [Except.mapError]

/-- Changing its faults leaves the order of a sequence as it is. -/
theorem mapError_bind {δ : Type} (change : ε → δ) (first : Except ε α) (next : α → Except ε β) :
    (first >>= next).mapError change =
      first.mapError change >>= fun value => (next value).mapError change := by
  cases first <;> rfl

/-- A computation that goes on without fail succeeds when its first part does. -/
theorem exists_bind_iff {first : Except ε α} {goOn : α → Except ε β}
    (total : ∀ value, ∃ result, goOn value = .ok result) :
    (∃ result, first >>= goOn = .ok result) ↔ ∃ value, first = .ok value := by
  constructor
  · intro succeeds
    obtain ⟨result, done⟩ := succeeds
    obtain ⟨value, found, _⟩ := bind_eq_ok.1 done
    exact ⟨value, found⟩
  · intro succeeds
    obtain ⟨value, found⟩ := succeeds
    obtain ⟨result, done⟩ := total value
    exact ⟨result, bind_eq_ok.2 ⟨value, found, done⟩⟩

/-- A computation that has no result has a fault. -/
theorem exists_error_iff {first : Except ε α} :
    (∃ fault, first = .error fault) ↔ ∀ value, first ≠ .ok value := by
  cases first <;> simp

/-- A check that faults lets only those inputs pass that it does not hold of. -/
theorem guard_eq_ok {condition : Prop} [Decidable condition] {fault : ε}
    {unreached : α → Except ε β} {next : Except ε β} {result : β} :
    (if condition then throw fault >>= unreached else next) = .ok result ↔
      ¬condition ∧ next = .ok result := by
  by_cases holds : condition <;>
    simp [holds, bind, Except.bind, throw, throwThe, MonadExceptOf.throw]

/-- A sequence has the fault of its first part, or else that of its second. -/
theorem bind_eq_error {first : Except ε α} {next : α → Except ε β} {fault : ε} :
    first >>= next = .error fault ↔
      first = .error fault ∨ ∃ value, first = .ok value ∧ next value = .error fault := by
  cases first <;> simp [bind, Except.bind]

/-- A check has its own fault, or else that of what follows. -/
theorem guard_eq_error {condition : Prop} [Decidable condition] {raised fault : ε}
    {unreached : α → Except ε β} {next : Except ε β} :
    (if condition then throw raised >>= unreached else next) = .error fault ↔
      (condition ∧ raised = fault) ∨ (¬condition ∧ next = .error fault) := by
  by_cases holds : condition <;>
    simp [holds, bind, Except.bind, throw, throwThe, MonadExceptOf.throw]

/-- A reader that takes back each written value takes back a list of them. -/
theorem mapM_written {write : α → β} {read : β → Except ε α} {values : List α}
    (back : ∀ value ∈ values, read (write value) = .ok value) :
    (values.map write).mapM read = .ok values := by
  induction values with
  | nil => rfl
  | cons first rest ih =>
    obtain ⟨one, others⟩ := List.forall_mem_cons.1 back
    rw [List.map_cons, List.mapM_cons, one, ih others]
    rfl

/-- The same with the number of each value at hand. -/
theorem mapM_zipIdx_written {write : α → β} {read : Nat → β → Except ε α}
    {values : List α} (back : ∀ value ∈ values, ∀ number, read number (write value) = .ok value)
    (start : Nat) :
    (((values.map write).zipIdx start).mapM fun entry => read entry.2 entry.1) = .ok values := by
  induction values generalizing start with
  | nil => rfl
  | cons first rest ih =>
    obtain ⟨one, others⟩ := List.forall_mem_cons.1 back
    rw [List.map_cons, List.zipIdx_cons, List.mapM_cons, one, ih others]
    rfl

/-- A list is read when all of its members are. -/
theorem mapM_eq_ok {read : α → Except ε β} {values : List α} {results : List β} :
    values.mapM read = .ok results ↔
      List.Forall₂ (fun value result => read value = .ok result) values results := by
  induction values generalizing results with
  | nil =>
    rw [List.mapM_nil, List.forall₂_nil_left_iff]
    exact ⟨fun same => (Except.ok.inj same).symm, fun empty => empty ▸ rfl⟩
  | cons first rest ih =>
    rw [List.mapM_cons, bind_eq_ok, List.forall₂_cons_left_iff]
    constructor
    · rintro ⟨result, one, behind⟩
      obtain ⟨others, found, joined⟩ := bind_eq_ok.1 behind
      exact ⟨result, others, one, ih.1 found, (Except.ok.inj joined).symm⟩
    · rintro ⟨result, others, one, found, rfl⟩
      exact ⟨result, one, bind_eq_ok.2 ⟨others, ih.2 found, rfl⟩⟩

/-- The same for a reader that knows the number of each member, when its results do not depend on
the number. -/
theorem mapM_zipIdx_eq_ok {Reads : α → β → Prop} {values : List α} {results : List β}
    (read : Nat → α → Except ε β)
    (spec : ∀ number value result, read number value = .ok result ↔ Reads value result)
    (start : Nat) :
    ((values.zipIdx start).mapM fun entry => read entry.2 entry.1) = .ok results ↔
      List.Forall₂ Reads values results := by
  simp only [mapM_eq_ok, spec]
  conv_rhs => rw [← List.zipIdx_map_fst start values, List.forall₂_map_left_iff]

/-- Each member of a list has its partner in the other one. -/
theorem exists_of_mem_forall₂ {Related : α → β → Prop} {values : List α} {results : List β}
    (paired : List.Forall₂ Related values results) {value : α} (member : value ∈ values) :
    ∃ result ∈ results, Related value result := by
  induction paired with
  | nil => contradiction
  | cons one _ ih =>
    rcases List.mem_cons.1 member with rfl | later
    · exact ⟨_, List.mem_cons_self, one⟩
    · obtain ⟨result, inside, related⟩ := ih later
      exact ⟨result, List.mem_cons_of_mem _ inside, related⟩

/-- The partner of a member stands at the same place. -/
theorem exists_getElem?_of_forall₂ {Related : α → β → Prop} {values : List α} {results : List β}
    (paired : List.Forall₂ Related values results) {index : Nat} {value : α}
    (found : values[index]? = some value) :
    ∃ result, results[index]? = some result ∧ Related value result := by
  induction paired generalizing index with
  | nil => contradiction
  | cons one _ ih =>
    cases index with
    | zero =>
      obtain rfl := Option.some.inj found
      exact ⟨_, rfl, one⟩
    | succ index => exact ih found

/-- Partners for all members make up a list of partners. -/
theorem exists_forall₂_iff {Related : α → β → Prop} {values : List α} :
    (∃ results, List.Forall₂ Related values results) ↔
      ∀ value ∈ values, ∃ result, Related value result := by
  constructor
  · rintro ⟨results, paired⟩ value member
    obtain ⟨result, _, related⟩ := exists_of_mem_forall₂ paired member
    exact ⟨result, related⟩
  · intro each
    induction values with
    | nil => exact ⟨[], .nil⟩
    | cons first rest ih =>
      obtain ⟨⟨result, one⟩, others⟩ := List.forall_mem_cons.1 each
      obtain ⟨results, paired⟩ := ih others
      exact ⟨result :: results, .cons one paired⟩

end Sequence

end JazzGrammar
