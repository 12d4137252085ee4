/-
Runs and pieces of a list give the list back, and both follow a renaming of its members.
-/

import JazzGrammar.Run
import Mathlib.Logic.Function.Basic
import Mathlib.Tactic.Cases

namespace JazzGrammar.Run

variable {α β : Type}

theorem expand_cons (run : Run α) (runs : List (Run α)) :
    expand (run :: runs) = List.replicate run.count run.value ++ expand runs := by
  rw [expand, List.flatMap_cons]
  rfl

theorem map_expand (f : α → β) (runs : List (Run α)) :
    (expand runs).map f = expand (runs.map fun run => ⟨f run.value, run.count⟩) := by
  induction runs with
  | nil => rfl
  | cons run rest ih =>
    rw [expand_cons, List.map_append, ih, List.map_replicate, List.map_cons, expand_cons]

section Longest

variable [DecidableEq α]

/-- One more value at the front prolongs the first run or opens a new one. -/
theorem ofList_cons (first : α) (rest : List α) :
    (∃ next later, ofList rest = next :: later ∧ first = next.value ∧
      ofList (first :: rest) = ⟨first, next.count + 1⟩ :: later) ∨
        ofList (first :: rest) = ⟨first, 1⟩ :: ofList rest := by
  rw [ofList]
  cases shape : ofList rest with
  | nil => exact .inr rfl
  | cons next later =>
    by_cases same : first = next.value
    · exact .inl ⟨next, later, rfl, same, if_pos same⟩
    · exact .inr (if_neg same)

theorem expand_ofList (values : List α) : expand (ofList values) = values := by
  induction values with
  | nil => rfl
  | cons first rest ih =>
    rcases ofList_cons first rest with ⟨next, later, shape, same, longer⟩ | opened
    · rw [shape, expand_cons, ← same] at ih
      rw [longer, expand_cons, List.replicate_succ, List.cons_append, ih]
    · rw [opened, expand_cons, ih]
      rfl

/-- The runs of a renamed list are the renamed runs, when different values keep different names. -/
theorem ofList_map [DecidableEq β] {f : α → β} (injective : f.Injective) (values : List α) :
    ofList (values.map f) = (ofList values).map fun run => ⟨f run.value, run.count⟩ := by
  induction values with
  | nil => rfl
  | cons first rest ih =>
    rw [List.map_cons, ofList, ofList, ih]
    cases ofList rest with
    | nil => rfl
    | cons next later =>
      simp only [List.map_cons, injective.eq_iff]
      split <;> rfl

end Longest

theorem step_dvd {runs : List (Run α)} {run : Run α} (member : run ∈ runs) :
    step runs ∣ run.count := by
  induction runs with
  | nil => contradiction
  | cons first rest ih =>
    rcases List.mem_cons.1 member with rfl | inside
    · exact Nat.gcd_dvd_left _ _
    · exact Nat.dvd_trans (Nat.gcd_dvd_right _ _) (ih inside)

theorem step_map (f : α → β) (runs : List (Run α)) :
    step (runs.map fun run => ⟨f run.value, run.count⟩) = step runs := by
  rw [step, step, List.foldr_map]

/-- A divisor of all counts can be taken out of the runs and put back. -/
theorem expand_divided {divisor : Nat} {runs : List (Run α)}
    (divides : ∀ run ∈ runs, divisor ∣ run.count) :
    (expand (runs.map fun run => ⟨run.value, run.count / divisor⟩)).flatMap
      (List.replicate divisor) = expand runs := by
  induction runs with
  | nil => rfl
  | cons run rest ih =>
    obtain ⟨divided, remaining⟩ := List.forall_mem_cons.1 divides
    rw [List.map_cons, expand_cons, expand_cons, List.flatMap_append, ih remaining,
      List.flatMap_replicate, List.flatten_replicate_replicate, Nat.div_mul_cancel divided]

theorem compact_map [DecidableEq α] [DecidableEq β] {f : α → β} (injective : f.Injective)
    (values : List α) : compact (values.map f) = (compact values).map f := by
  simp only [compact, ofList_map injective, step_map, map_expand, List.map_map]
  rfl

section Chunks

theorem chunks_nil (size : Nat) : chunks size ([] : List α) = [] := by
  rw [chunks]

theorem chunks_cons (size : Nat) (first : α) (rest : List α) :
    chunks size (first :: rest) =
      (first :: rest.take (size - 1)) :: chunks size (rest.drop (size - 1)) := by
  rw [chunks]

theorem flatten_chunks (size : Nat) (values : List α) : (chunks size values).flatten = values := by
  fun_induction chunks size values with
  | case1 => rfl
  | case2 first rest ih =>
    rw [List.flatten_cons, ih, List.cons_append, List.take_append_drop]

theorem ne_nil_of_mem_chunks {size : Nat} {values piece : List α}
    (member : piece ∈ chunks size values) : piece ≠ [] := by
  fun_induction chunks size values with
  | case1 => contradiction
  | case2 first rest ih =>
    rcases List.mem_cons.1 member with rfl | inside
    · exact List.cons_ne_nil _ _
    · exact ih inside

theorem chunks_map (f : α → β) (size : Nat) (values : List α) :
    chunks size (values.map f) = (chunks size values).map (List.map f) := by
  fun_induction chunks size values with
  | case1 => rw [List.map_nil, chunks_nil, List.map_nil]
  | case2 first rest ih =>
    rw [List.map_cons, chunks_cons, ← List.map_take, ← List.map_drop, ih, List.map_cons,
      List.map_cons]

/-- There are as many pieces as are needed. -/
theorem length_chunks {size : Nat} (positive : 0 < size) (values : List α) :
    (chunks size values).length = (values.length + (size - 1)) / size := by
  fun_induction chunks size values with
  | case1 =>
    rw [List.length_nil, List.length_nil, Nat.zero_add,
      Nat.div_eq_of_lt (Nat.sub_one_lt_of_lt positive)]
  | case2 first rest ih =>
    rw [List.length_cons, ih, List.length_drop, List.length_cons, ← Nat.add_div_right _ positive]
    rcases Nat.le_total (size - 1) rest.length with enough | few
    · congr 1
      omega
    · rw [Nat.sub_eq_zero_of_le few, Nat.div_eq_of_lt_le (k := 1) (by omega) (by omega),
        Nat.div_eq_of_lt_le (k := 1) (by omega) (by omega)]

/-- Behind the first of a whole number of pieces a whole number of them is left. -/
theorem dvd_behind_first {size : Nat} {rest : List α} (divides : size ∣ rest.length + 1) :
    0 < size ∧ size - 1 ≤ rest.length ∧ size ∣ (rest.drop (size - 1)).length := by
  have bound := Nat.le_of_dvd (Nat.succ_pos _) divides
  have positive := Nat.pos_of_dvd_of_pos divides (Nat.succ_pos _)
  refine ⟨positive, by omega, ?_⟩
  rw [List.length_drop, show rest.length - (size - 1) = rest.length + 1 - size by omega]
  exact Nat.dvd_sub divides (Nat.dvd_refl size)

/-- A whole number of pieces has no shorter one. -/
theorem length_of_mem_chunks {size : Nat} {values piece : List α} (divides : size ∣ values.length)
    (member : piece ∈ chunks size values) : piece.length = size := by
  fun_induction chunks size values with
  | case1 => contradiction
  | case2 first rest ih =>
    obtain ⟨positive, enough, behind⟩ := dvd_behind_first divides
    rcases List.mem_cons.1 member with rfl | inside
    · rw [List.length_cons, List.length_take_of_le enough]
      omega
    · exact ih behind inside

/-- Pieces are cut apart where a whole number of them ends. -/
theorem chunks_append {size : Nat} {left : List α} (divides : size ∣ left.length)
    (right : List α) : chunks size (left ++ right) = chunks size left ++ chunks size right := by
  fun_induction chunks size left with
  | case1 => rfl
  | case2 first rest ih =>
    obtain ⟨_, enough, behind⟩ := dvd_behind_first divides
    rw [List.cons_append, chunks_cons, List.take_append_of_le_length enough,
      List.drop_append_of_le_length enough, ih behind, List.cons_append]

end Chunks

end JazzGrammar.Run
