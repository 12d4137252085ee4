/-
The rewritings that the rules make, and derivations by any number of them.
-/

import JazzGrammar.Proofs.Listing

namespace JazzGrammar

namespace Progression

/-- One step by a rule, whose result is read back from its tokens. -/
def Rewrites (rule : Rule) (before after : Progression) : Prop :=
  ∃ step ∈ before.steps, step.rule = rule ∧ ofTokens step.result.tokens = .ok after

/-- A rule rewrites one span by its table and keeps the chords around it. -/
theorem rewrites_iff {rule : Rule} {before after : Progression} :
    Rewrites rule before after ↔ ∃ left span replacement right,
      before = left ++ span ++ right ∧ after = left ++ replacement ++ right ∧
        rule.Admits span replacement := by
  constructor
  · rintro ⟨step, member, rfl, read⟩
    obtain ⟨shape, admits⟩ := mem_steps_iff.1 member
    rw [ofTokens_tokens] at read
    exact ⟨_, _, _, _, shape, (Except.ok.inj read).symm, admits⟩
  · rintro ⟨left, span, replacement, right, rfl, rfl, admits⟩
    exact ⟨⟨rule, left, span, replacement, right⟩, mem_steps_iff.2 ⟨rfl, admits⟩, rfl,
      ofTokens_tokens _⟩

/-- What the table admits may be done between any chords. -/
theorem Rewrites.of_admits {rule : Rule} {span replacement : Progression}
    (admits : rule.Admits span replacement) (left right : Progression) :
    Rewrites rule (left ++ span ++ right) (left ++ replacement ++ right) :=
  rewrites_iff.2 ⟨left, span, replacement, right, rfl, rfl, admits⟩

/-- A derivation applies the rules of a list one after the other. -/
inductive Derives : List Rule → Progression → Progression → Prop
  | done (progression : Progression) : Derives [] progression progression
  | step {rule : Rule} {rules : List Rule} {before middle after : Progression}
      (first : Rewrites rule before middle) (rest : Derives rules middle after) :
      Derives (rule :: rules) before after

/-- A derivation may be cut in front of its last step. -/
theorem derives_concat_iff {rules : List Rule} {rule : Rule} {before after : Progression} :
    Derives (rules ++ [rule]) before after ↔
      ∃ middle, Derives rules before middle ∧ Rewrites rule middle after := by
  constructor
  · intro run
    induction rules generalizing before with
    | nil =>
      cases run with
      | step first rest =>
        cases rest
        exact ⟨before, .done before, first⟩
    | cons other rules ih =>
      cases run with
      | step first rest =>
        obtain ⟨middle, front, last⟩ := ih rest
        exact ⟨middle, .step first front, last⟩
  · rintro ⟨middle, front, last⟩
    induction front with
    | done progression => exact .step last (.done after)
    | step first rest ih => exact .step first (ih last)

/-- When the table adds one chord of a kind for some rules and none for the others, a derivation
adds as many as it uses these rules. -/
theorem Derives.countP (kind : TimedChord → Bool) (adds : Rule → Bool)
    (table : ∀ {rule span replacement}, Rule.Admits rule span replacement →
      replacement.countP kind = span.countP kind + if adds rule then 1 else 0)
    {rules : List Rule} {before after : Progression} (run : Derives rules before after) :
    after.countP kind = before.countP kind + rules.countP adds := by
  induction run with
  | done progression => simp
  | step first rest ih =>
    obtain ⟨left, span, replacement, right, rfl, rfl, admits⟩ := rewrites_iff.1 first
    rw [ih, List.countP_cons]
    simp only [List.countP_append, table admits]
    omega

end Progression

end JazzGrammar
