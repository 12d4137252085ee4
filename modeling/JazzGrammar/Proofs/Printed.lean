/-
How computations end that print lines: a sequence ends with a fault when one of its parts does.
-/

import JazzGrammar.Printed
import JazzGrammar.Proofs.Fault

namespace JazzGrammar.Printed

variable {α β : Type}

/-- What a sequence prints does not change how it ends. -/
@[simp]
theorem result_bind (first : Printed α) (next : α → Printed β) :
    (first >>= next).result = first.result >>= fun value => (next value).result := by
  change (first.andThen next).result = _
  rw [andThen]
  cases first.result <;> rfl

/-- A computation that prints nothing gives its value to what follows. -/
@[simp]
theorem silent_ok_bind (value : α) (next : α → Printed β) :
    silent (.ok value) >>= next = next value := rfl

/-- A fault of a computation that prints nothing is all that there is. -/
@[simp]
theorem silent_error_bind (fault : Fault) (next : α → Printed β) :
    silent (.error fault) >>= next = silent (.error fault) := rfl

/-- A loop ends with the fault of one of its turns. -/
theorem exists_of_forM_eq_error {entries : List α} {print : α → Printed Unit} {fault : Fault}
    (failed : (entries.forM print).result = .error fault) :
    ∃ entry ∈ entries, (print entry).result = .error fault := by
  induction entries with
  | nil => contradiction
  | cons first rest ih =>
    change (print first >>= fun _ => rest.forM print).result = _ at failed
    rw [result_bind, bind_eq_error] at failed
    obtain early | ⟨_, _, late⟩ := failed
    · exact ⟨first, List.mem_cons_self, early⟩
    · obtain ⟨entry, member, ended⟩ := ih late
      exact ⟨entry, List.mem_cons_of_mem _ member, ended⟩

/-- The same for a loop over entries with their numbers. -/
theorem exists_of_forM_zipIdx_eq_error {entries : List α} {start : Nat}
    {print : α × Nat → Printed Unit} {fault : Fault}
    (failed : ((entries.zipIdx start).forM print).result = .error fault) :
    ∃ entry ∈ entries, ∃ number, (print (entry, number)).result = .error fault := by
  obtain ⟨⟨entry, number⟩, listed, ended⟩ := exists_of_forM_eq_error failed
  exact ⟨entry, List.fst_mem_of_mem_zipIdx listed, number, ended⟩

end JazzGrammar.Printed
