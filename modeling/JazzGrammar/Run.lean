/-
Runs of equal neighbours in a list.
-/

namespace JazzGrammar

/-- A value repeated a number of times. -/
structure Run (α : Type) where
  value : α
  count : Nat
deriving DecidableEq

namespace Run

variable {α : Type}

/-- The runs written out. -/
def expand (runs : List (Run α)) : List α :=
  runs.flatMap fun run => List.replicate run.count run.value

/-- The longest runs of a list. -/
def ofList [DecidableEq α] : List α → List (Run α)
  | [] => []
  | first :: rest =>
    match ofList rest with
    | [] => [⟨first, 1⟩]
    | next :: later =>
      if first = next.value then ⟨first, next.count + 1⟩ :: later
      else ⟨first, 1⟩ :: next :: later

/-- The greatest number that divides all counts, zero for no runs. -/
def step (runs : List (Run α)) : Nat :=
  runs.foldr (fun run divisor => Nat.gcd run.count divisor) 0

/-- The shortest list that gives the values back when each of its members is repeated equally
often. -/
def compact [DecidableEq α] (values : List α) : List α :=
  let runs := ofList values
  let divisor := step runs
  expand (runs.map fun run => ⟨run.value, run.count / divisor⟩)

/-- The list in pieces of a size; the last one may be shorter. A size of zero counts as one. -/
def chunks (size : Nat) : List α → List (List α)
  | [] => []
  | first :: rest => (first :: rest.take (size - 1)) :: chunks size (rest.drop (size - 1))
termination_by values => values.length
decreasing_by simp only [List.length_drop, List.length_cons]; omega

end Run

end JazzGrammar
