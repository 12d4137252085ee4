/-
Spellings stay bounded: a derivation keeps roots or shifts them, and a shift spells the root that it
comes to with the least accidental.
-/

import JazzGrammar.Proofs.Interval
import JazzGrammar.Proofs.Rewriting

namespace JazzGrammar

namespace Quality

/-- The flags of a quality are admitted and give it back. -/
theorem ofFlags?_flags (quality : Quality) :
    ofFlags? quality.isMinor quality.hasSeventh quality.isDiminished = .ok quality := by
  cases quality <;> rfl

/-- Of the flags that are admitted a diminished seventh stands alone. -/
theorem exclusive_of_ofFlags? {minor seventh : Bool} {quality : Quality}
    (admitted : ofFlags? minor seventh true = .ok quality) : minor = false ∧ seventh = false := by
  rw [ofFlags?, if_pos rfl] at admitted
  split at admitted
  · contradiction
  · rename_i alone
    simpa using alone

end Quality

namespace Progression

/-- A spelling is taken over from a chord of the progression, or it has the least accidental of its
pitch class. -/
def Spells (progression : Progression) (root : Root) : Prop :=
  (∃ origin ∈ progression, origin.chord.root = root) ∨ root.Normal

variable {rule : Rule} {rules : List Rule} {before after : Progression}

/-- One step writes no root that is neither kept nor shifted. -/
theorem Rewrites.spells (step : Rewrites rule before after) :
    ∀ timed ∈ after, before.Spells timed.chord.root := by
  obtain ⟨left, span, replacement, right, rfl, rfl, admits⟩ := rewrites_iff.1 step
  intro timed member
  simp only [List.mem_append] at member
  rcases member with (early | inside) | late
  · exact .inl ⟨timed, by simp [early], rfl⟩
  · obtain ⟨origin, found, same | ⟨degrees, semitones, same⟩⟩ := admits.exists_origin timed inside
    · exact .inl ⟨origin, by simp [found], same.symm⟩
    · exact .inr (same ▸ Root.normal_shift _ _ _)
  · exact .inl ⟨timed, by simp [late], rfl⟩

/-- A derivation writes no root that is neither kept from its start nor shifted. -/
theorem Derives.spells (run : Derives rules before after) :
    ∀ timed ∈ after, before.Spells timed.chord.root := by
  induction run with
  | done progression => exact fun timed member => .inl ⟨timed, member, rfl⟩
  | step first rest ih =>
    intro timed member
    rcases ih timed member with ⟨origin, found, same⟩ | normal
    · rw [← same]
      exact first.spells origin found
    · exact .inr normal

/-- However long a derivation is, it leaves no chord that is not well formed: each has a degree of
the scale and flags that go together, and each root is one of the start or has an accidental between
-5 and 6. -/
theorem spellings_bounded (run : Derives rules before after) :
    ∀ timed ∈ after, timed.chord.root.degree.val < 7 ∧
      (timed.chord.isDiminished = true →
        timed.chord.isMinor = false ∧ timed.chord.quality.hasSeventh = false) ∧
      ((∃ origin ∈ before, origin.chord.root = timed.chord.root) ∨
        -6 < timed.chord.root.accidental ∧ timed.chord.root.accidental ≤ 6) := by
  intro timed member
  refine ⟨timed.chord.root.degree.isLt, fun diminished => ?_, run.spells timed member⟩
  have admitted := timed.chord.quality.ofFlags?_flags
  rw [show timed.chord.quality.isDiminished = true from diminished] at admitted
  exact Quality.exclusive_of_ofFlags? admitted

/-- Eight sharps are kept on the chord that has them. Its dominant and the substitute of that
dominant are spelled with flats. -/
theorem spellings_bounded_sharps :
    let sharp : TimedChord := .unit ⟨⟨4, 8⟩, .dominantSeventh⟩
    let substitute : TimedChord := .unit ⟨⟨5, -5⟩, .dominantSeventh⟩
    let before : Progression := [.unit ⟨⟨0, 9⟩, .major⟩, sharp]
    let after : Progression := [substitute, sharp]
    Derives [.dominantOfSeventh, .tritoneSubstitution] before after ∧
      ((∃ origin ∈ before, origin.chord.root = ⟨4, 8⟩) ∨ -6 < (8 : Int) ∧ (8 : Int) ≤ 6) ∧
      ((∃ origin ∈ before, origin.chord.root = ⟨5, -5⟩) ∨ -6 < (-5 : Int) ∧ (-5 : Int) ≤ 6) := by
  intro sharp substitute before after
  have dominant : sharp.chord.root.dominant = ⟨1, -4⟩ := by decide
  have supertonic : sharp.chord.root.flatSupertonic = ⟨5, -5⟩ := by decide
  have replaced := Rule.Admits.dominantOfSeventh (.unit ⟨⟨0, 9⟩, .major⟩) sharp .dominantSeventh
    rfl rfl (.inl rfl)
  rw [dominant] at replaced
  have substituted := Rule.Admits.tritoneSubstitution (.unit ⟨⟨1, -4⟩, .dominantSeventh⟩) sharp
    rfl rfl dominant.symm
  rw [supertonic] at substituted
  have run : Derives [.dominantOfSeventh, .tritoneSubstitution] before after :=
    .step (.of_admits replaced [] []) (.step (.of_admits substituted [] []) (.done _))
  refine ⟨run, ?_, ?_⟩
  · exact (spellings_bounded run sharp (by simp [after])).2.2
  · exact (spellings_bounded run substitute (by simp [after])).2.2

end Progression

end JazzGrammar
