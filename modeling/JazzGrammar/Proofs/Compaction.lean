/-
A list is given back by its compacted form, and by no shorter list whose members are all repeated
equally often. A beat is therefore written with as few symbols as its slots allow.
-/

import JazzGrammar.Grid.Printer
import JazzGrammar.Proofs.Refinement
import JazzGrammar.Proofs.Text

namespace JazzGrammar

namespace Run

variable {α : Type} {members values : List α}

/-- The members give the values back: their number divides the number of the values, and each of
them stands in order for as many values as the quotient says. -/
structure Restores (members values : List α) : Prop where
  divides : members.length ∣ values.length
  repeated : stretch (values.length / members.length) members = values

instance [DecidableEq α] : Decidable (Restores members values) :=
  decidable_of_iff (members.length ∣ values.length ∧
      stretch (values.length / members.length) members = values)
    ⟨fun both => ⟨both.1, both.2⟩, fun restores => ⟨restores.divides, restores.repeated⟩⟩

theorem restores_stretch (factor : Nat) (members : List α) :
    Restores members (stretch factor members) := by
  have size := length_stretch factor members
  refine ⟨⟨factor, size⟩, ?_⟩
  cases members with
  | nil => rfl
  | cons first rest =>
    rw [size, Nat.mul_div_cancel_left _ (List.length_pos_iff.2 (List.cons_ne_nil first rest))]

namespace Restores

theorem exists_factor (restores : Restores members values) (nonempty : values ≠ []) :
    ∃ factor, 0 < factor ∧ stretch factor members = values := by
  have filled : 0 < values.length := List.length_pos_iff.2 nonempty
  have positive : 0 < members.length := Nat.pos_of_dvd_of_pos restores.divides filled
  exact ⟨_, Nat.div_pos (Nat.le_of_dvd filled restores.divides) positive, restores.repeated⟩

theorem ne_nil (restores : Restores members values) (nonempty : values ≠ []) : members ≠ [] := by
  obtain ⟨factor, _, restored⟩ := restores.exists_factor nonempty
  rintro rfl
  exact nonempty restored.symm

theorem length_le (restores : Restores members values) (nonempty : values ≠ []) :
    members.length ≤ values.length :=
  Nat.le_of_dvd (List.length_pos_iff.2 nonempty) restores.divides

/-- Only the values themselves are repeated. -/
theorem subset (restores : Restores members values) (nonempty : values ≠ []) :
    members ⊆ values := by
  obtain ⟨factor, positive, rfl⟩ := restores.exists_factor nonempty
  intro member inside
  exact List.mem_flatMap.2 ⟨member, inside, List.mem_replicate.2 ⟨positive.ne', rfl⟩⟩

end Restores

section Compact

variable [DecidableEq α]

/-- Each member of the compacted list is repeated by the greatest number that divides all runs. -/
theorem stretch_compact (values : List α) :
    stretch (step (ofList values)) (compact values) = values := by
  have divides : ∀ run ∈ ofList values, step (ofList values) ∣ run.count :=
    fun run member => step_dvd member
  exact (expand_divided divides).trans (expand_ofList values)

/-- Compaction is lossless. -/
theorem restores_compact (values : List α) : Restores (compact values) values := by
  have restores := restores_stretch (step (ofList values)) (compact values)
  rwa [stretch_compact] at restores

/-- Whatever gives the values back has the same compacted form, which gives it back in turn. -/
theorem Restores.compacted (restores : Restores members values) (nonempty : values ≠ []) :
    Restores (compact values) members := by
  obtain ⟨factor, positive, rfl⟩ := restores.exists_factor nonempty
  rw [compact_stretch positive]
  exact restores_compact members

end Compact

end Run

namespace Grid

/-- The symbols between the commas of a beat are those of its compacted slots. -/
theorem splitOn_writeBeat {slots : List Text} (nonempty : slots ≠ [])
    (plain : ∀ slot ∈ slots, ',' ∉ slot) : (writeBeat slots).splitOn ',' = Run.compact slots := by
  have restores := Run.restores_compact slots
  have apart : ∀ part ∈ Run.compact slots, ',' ∉ part :=
    fun part member => plain part (restores.subset nonempty member)
  exact List.splitOn_intercalate ',' apart (restores.ne_nil nonempty)

/-- The symbols of a beat give its slots back when they are repeated equally often. No smaller
number of symbols does, since they also give back all others that do. -/
theorem beat_shortest {slots : List Text} (nonempty : slots ≠ [])
    (plain : ∀ slot ∈ slots, ',' ∉ slot) :
    let parts := (writeBeat slots).splitOn ','
    Run.Restores parts slots ∧ ∀ others, Run.Restores others slots →
      parts.length ≤ others.length ∧ Run.Restores parts others := by
  intro parts
  have written : parts = Run.compact slots := splitOn_writeBeat nonempty plain
  rw [written]
  refine ⟨Run.restores_compact slots, ?_⟩
  intro others restores
  have within := restores.compacted nonempty
  exact ⟨within.length_le (restores.ne_nil nonempty), within⟩

/-- Runs of four, eight and four slots, the last one of the same chord as the first. Four symbols
are written, and the eight that also give the slots back come from them. -/
theorem beat_shortest_uneven :
    let tonic : Text := ['I']
    let dominant : Text := ['V', '7']
    let slots := List.replicate 4 tonic ++ List.replicate 8 dominant ++ List.replicate 4 tonic
    let parts := [tonic, dominant, dominant, tonic]
    let others := [tonic, tonic, dominant, dominant, dominant, dominant, tonic, tonic]
    slots ≠ [] ∧ (∀ slot ∈ slots, ',' ∉ slot) ∧ (writeBeat slots).splitOn ',' = parts ∧
      Run.Restores others slots ∧ Run.Restores parts slots ∧
      parts.length ≤ others.length ∧ Run.Restores parts others := by
  intro tonic dominant slots parts others
  have nonempty : slots ≠ [] := by decide
  have plain : ∀ slot ∈ slots, ',' ∉ slot := by decide
  have written : (writeBeat slots).splitOn ',' = parts := by decide +kernel
  have finer : Run.Restores others slots := by decide
  obtain ⟨lossless, least⟩ := beat_shortest nonempty plain
  rw [written] at lossless least
  exact ⟨nonempty, plain, written, finer, lossless, least others finer⟩

end Grid

end JazzGrammar
