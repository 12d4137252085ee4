/-
Reports in lines are printed to their end unless the machine has no room for a grid in them.
-/

import JazzGrammar.Proofs.Grid.Limit
import JazzGrammar.Proofs.Printed
import JazzGrammar.Report

namespace JazzGrammar.Report

variable {layout : Option Grid.Options} {fault : Fault}

/-- The lines of a grid end with a fault only when the writing of the grid stops. -/
theorem grid_eq_error {shown : Progression}
    (failed : (grid layout shown.tokens).result = .error fault) :
    ∃ options ∈ layout, ∃ cause, fault = .stopped cause ∧
      Grid.write options shown = .error (.stopped cause) := by
  cases layout with
  | none => contradiction
  | some options =>
    have read : Progression.ofTokens shown.tokens >>= Grid.write options =
        Grid.write options shown := by
      rw [Progression.ofTokens_tokens]
      rfl
    rw [grid, read] at failed
    split at failed
    · obtain ⟨_, _, ended⟩ := Printed.exists_of_forM_eq_error failed
      cases ended
    · rename_i cause stopped
      exact ⟨options, rfl, cause, (Except.error.inj failed).symm, stopped⟩
    · cases failed

/-- A report on steps ends with a fault only in the grid of one of their results. -/
theorem exists_of_steps_eq_error {listed : List Step}
    (failed : (steps layout listed).result = .error fault) :
    ∃ step ∈ listed, (grid layout step.result.tokens).result = .error fault := by
  rw [steps] at failed
  have ended : (((listed.zipIdx 1).forM fun entry => step layout entry.2 entry.1) :
      Printed Unit).result = .error fault := by
    split at failed <;> exact failed
  obtain ⟨step, member, _, ended⟩ := Printed.exists_of_forM_zipIdx_eq_error ended
  exact ⟨step, member, ended⟩

/-- A level ends with a fault only in the grid of one of its progressions. -/
theorem exists_of_level_eq_error {number : Nat} {sequences : List (List Text)}
    (failed : (level layout number sequences).result = .error fault) :
    ∃ tokens ∈ sequences, (grid layout tokens).result = .error fault := by
  rw [level] at failed
  have ended : (((sequences.zipIdx 1).forM fun entry => sequence layout entry.2 entry.1) :
      Printed Unit).result = .error fault := by
    split at failed <;> split at failed <;> exact failed
  obtain ⟨tokens, member, _, ended⟩ := Printed.exists_of_forM_zipIdx_eq_error ended
  exact ⟨tokens, member, ended⟩

/-- The same for a report on an exploration. -/
theorem exists_of_levels_eq_error {depth : Int} {listed : List (List (List Text))}
    (failed : (levels layout depth listed).result = .error fault) :
    ∃ tokens ∈ listed.flatten, (grid layout tokens).result = .error fault := by
  rw [levels] at failed
  obtain ⟨sequences, inside, _, ended⟩ := Printed.exists_of_forM_zipIdx_eq_error failed
  obtain ⟨tokens, member, ended⟩ := exists_of_level_eq_error ended
  exact ⟨tokens, List.mem_flatten.2 ⟨sequences, inside, member⟩, ended⟩

end JazzGrammar.Report
