/-
When every member of a list is repeated equally often, its runs grow by that factor, its pieces hold
as many more members, and its compacted form stays the same.
-/

import JazzGrammar.Proofs.Run

namespace JazzGrammar.Run

variable {α : Type}

/-- Every member is repeated a number of times. -/
def stretch (factor : Nat) (values : List α) : List α :=
  values.flatMap (List.replicate factor)

@[simp]
theorem stretch_nil (factor : Nat) : stretch factor ([] : List α) = [] := rfl

theorem stretch_cons (factor : Nat) (first : α) (rest : List α) :
    stretch factor (first :: rest) = List.replicate factor first ++ stretch factor rest :=
  List.flatMap_cons

theorem length_stretch (factor : Nat) (values : List α) :
    (stretch factor values).length = values.length * factor := by
  rw [stretch, List.length_flatMap]
  simp only [List.length_replicate, List.map_const', List.sum_replicate_nat]

/-- The runs with their counts multiplied. -/
def multiply (factor : Nat) (runs : List (Run α)) : List (Run α) :=
  runs.map fun run => ⟨run.value, factor * run.count⟩

theorem multiply_cons (factor : Nat) (run : Run α) (runs : List (Run α)) :
    multiply factor (run :: runs) = ⟨run.value, factor * run.count⟩ :: multiply factor runs := rfl

theorem step_multiply (factor : Nat) (runs : List (Run α)) :
    step (multiply factor runs) = factor * step runs := by
  induction runs with
  | nil => rfl
  | cons run rest ih =>
    rw [multiply_cons, step, List.foldr_cons, ← step, ih, Nat.gcd_mul_left]
    rfl

section Longest

variable [DecidableEq α]

/-- A run in front of others joins the first of them when both hold the same value. -/
def push (run : Run α) : List (Run α) → List (Run α)
  | [] => [run]
  | next :: later =>
    if run.value = next.value then ⟨run.value, run.count + next.count⟩ :: later
    else run :: next :: later

theorem ofList_cons_push (first : α) (rest : List α) :
    ofList (first :: rest) = push ⟨first, 1⟩ (ofList rest) := by
  rw [ofList]
  cases ofList rest with
  | nil => rfl
  | cons next later => rw [push, Nat.add_comm]

/-- Two runs of one value are one. -/
theorem push_push (value : α) (first second : Nat) (runs : List (Run α)) :
    push ⟨value, first⟩ (push ⟨value, second⟩ runs) = push ⟨value, first + second⟩ runs := by
  cases runs with
  | nil => exact if_pos rfl
  | cons next later =>
    by_cases same : value = next.value
    · rw [push, if_pos same, push, if_pos rfl, push, if_pos same, Nat.add_assoc]
    · rw [push, if_neg same, push, if_pos rfl, push, if_neg same]

theorem ofList_replicate_append (count : Nat) (value : α) (rest : List α) :
    ofList (List.replicate (count + 1) value ++ rest) = push ⟨value, count + 1⟩ (ofList rest) := by
  induction count with
  | zero => exact ofList_cons_push value rest
  | succ count ih =>
    rw [List.replicate_succ, List.cons_append, ofList_cons_push, ih, push_push, Nat.add_comm 1]

theorem multiply_push (factor : Nat) (run : Run α) (runs : List (Run α)) :
    multiply factor (push run runs) =
      push ⟨run.value, factor * run.count⟩ (multiply factor runs) := by
  cases runs with
  | nil => rfl
  | cons next later =>
    rw [multiply_cons]
    by_cases same : run.value = next.value
    · rw [push, if_pos same, multiply_cons, push, if_pos same, Nat.mul_add]
    · rw [push, if_neg same, multiply_cons, multiply_cons, push, if_neg same]

/-- The longest runs grow by the factor. -/
theorem ofList_stretch {factor : Nat} (positive : 0 < factor) (values : List α) :
    ofList (stretch factor values) = multiply factor (ofList values) := by
  obtain ⟨fewer, rfl⟩ := Nat.exists_eq_add_one_of_ne_zero (Nat.ne_of_gt positive)
  induction values with
  | nil => rfl
  | cons first rest ih =>
    rw [stretch_cons, ofList_replicate_append, ih, ofList_cons_push, multiply_push, Nat.mul_one]

/-- Compaction undoes the repetition. -/
theorem compact_stretch {factor : Nat} (positive : 0 < factor) (values : List α) :
    compact (stretch factor values) = compact values := by
  simp only [compact, ofList_stretch positive, step_multiply]
  rw [multiply, List.map_map]
  congr 2
  funext run
  simp only [Function.comp_apply, Nat.mul_div_mul_left _ _ positive]

end Longest

section Chunks

variable {factor size : Nat}

theorem take_stretch (factor count : Nat) (values : List α) :
    (stretch factor values).take (count * factor) = stretch factor (values.take count) := by
  induction values generalizing count with
  | nil => rw [List.take_nil, stretch_nil, List.take_nil]
  | cons first rest ih =>
    cases count with
    | zero => rw [Nat.zero_mul, List.take_zero, List.take_zero, stretch_nil]
    | succ count =>
      have behind : (List.replicate factor first ++ stretch factor rest).take
          ((List.replicate factor first).length + count * factor) =
          List.replicate factor first ++ (stretch factor rest).take (count * factor) :=
        List.take_length_add_append _
      rw [List.length_replicate] at behind
      rw [List.take_succ_cons, stretch_cons, stretch_cons, Nat.succ_mul, Nat.add_comm, ← ih, behind]

theorem drop_stretch (factor count : Nat) (values : List α) :
    (stretch factor values).drop (count * factor) = stretch factor (values.drop count) := by
  have whole : stretch factor values =
      stretch factor (values.take count) ++ stretch factor (values.drop count) := by
    rw [stretch, stretch, stretch, ← List.flatMap_append, List.take_append_drop]
  have halves := List.take_append_drop (count * factor) (stretch factor values)
  rw [take_stretch] at halves
  exact List.append_cancel_left (halves.trans whole)

/-- The pieces of a list that is not empty. -/
theorem chunks_of_ne_nil (positive : 0 < size) {values : List α} (nonempty : values ≠ []) :
    chunks size values = values.take size :: chunks size (values.drop size) := by
  obtain ⟨first, rest, rfl⟩ := List.exists_cons_of_ne_nil nonempty
  obtain ⟨fewer, rfl⟩ := Nat.exists_eq_add_one_of_ne_zero (Nat.ne_of_gt positive)
  rw [chunks_cons, Nat.add_sub_cancel, List.take_succ_cons, List.drop_succ_cons]

/-- Pieces that hold more members by the factor are the repeated pieces. -/
theorem chunks_stretch (factorPositive : 0 < factor) (sizePositive : 0 < size) (values : List α) :
    chunks (size * factor) (stretch factor values) = (chunks size values).map (stretch factor) := by
  fun_induction chunks size values with
  | case1 => rw [stretch_nil, chunks_nil, List.map_nil]
  | case2 first rest ih =>
    have filled : stretch factor (first :: rest) ≠ [] := by
      rw [← List.length_pos_iff, length_stretch]
      exact Nat.mul_pos (Nat.succ_pos _) factorPositive
    obtain ⟨fewer, rfl⟩ := Nat.exists_eq_add_one_of_ne_zero (Nat.ne_of_gt sizePositive)
    rw [chunks_of_ne_nil (Nat.mul_pos sizePositive factorPositive) filled, take_stretch,
      drop_stretch, List.take_succ_cons, List.drop_succ_cons, List.map_cons]
    rw [Nat.add_sub_cancel] at ih ⊢
    rw [ih]

end Chunks

end JazzGrammar.Run
