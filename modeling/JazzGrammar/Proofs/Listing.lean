/-
The list of all steps: nothing is lost when duplicates are erased, because no two steps agree.
-/

import JazzGrammar.Proofs.Lists
import JazzGrammar.Proofs.RuleTable
import JazzGrammar.Proofs.Token

namespace JazzGrammar

namespace Step

/-- What identifies a step in a list: its rule, its place and the tokens of its result. -/
def key (step : Step) : Rule × Nat × Nat × List Text :=
  (step.rule, step.start, step.stop, step.result.tokens)

/-- Steps of the same key are duplicates of each other. -/
theorem sameKey_iff {one other : Step} : sameKey one other = true ↔ one.key = other.key := by
  simp [sameKey, key, and_assoc]

/-- A step is determined by its progression, its place and its result. -/
theorem eq_of_result {rule : Rule} {progression : Progression} {one other : Step}
    (oneMember : one ∈ rule.steps progression) (otherMember : other ∈ rule.steps progression)
    (starts : one.start = other.start) (results : one.result = other.result) : one = other := by
  obtain ⟨oneRule, left, span, replacement, right⟩ := one
  obtain ⟨otherRule, otherLeft, otherSpan, otherReplacement, otherRight⟩ := other
  obtain ⟨rfl, shape, admits⟩ := Rule.mem_steps.1 oneMember
  obtain ⟨rfl, otherShape, otherAdmits⟩ := Rule.mem_steps.1 otherMember
  have widths : span.length = otherSpan.length := by
    rw [admits.length_span, otherAdmits.length_span]
  rw [shape] at otherShape
  simp only [List.append_assoc] at otherShape
  obtain ⟨rfl, behind⟩ := List.append_inj otherShape starts
  obtain ⟨rfl, rfl⟩ := List.append_inj behind widths
  have replacements : replacement = otherReplacement := by simpa [result] using results
  rw [replacements]

/-- Steps of different rules, places or results count as different. -/
theorem sameKey_eq_false {rule : Rule} {progression : Progression} {one other : Step}
    (oneMember : one ∈ rule.steps progression) (otherMember : other ∈ rule.steps progression)
    (differ : one ≠ other) : sameKey one other = false := by
  rw [← Bool.not_eq_true]
  intro key
  simp only [sameKey, Bool.and_eq_true, beq_iff_eq] at key
  exact differ (eq_of_result oneMember otherMember key.1.1.2
    (Progression.tokens_injective key.2))

end Step

namespace Progression

/-- No step is listed twice, whichever rules are looked at. -/
theorem steps_distinct (progression : Progression) :
    (Rule.all.flatMap fun rule => rule.steps progression).Pairwise
      fun first later => Step.sameKey later first = false := by
  rw [List.pairwise_flatMap]
  constructor
  · intro rule _
    refine (rule.steps_ordered progression).imp_of_mem fun one other precedes => ?_
    exact Step.sameKey_eq_false other one fun same => precedes.extent_ne (same ▸ rfl)
  · have rules : Rule.all.Pairwise (· ≠ ·) := by decide
    refine rules.imp fun differ one oneMember other otherMember => ?_
    have labels : other.rule ≠ one.rule := by
      rw [(Rule.mem_steps.1 oneMember).1, (Rule.mem_steps.1 otherMember).1]
      exact differ.symm
    simp [Step.sameKey, labels]

/-- The steps are those of the rules in their order. -/
theorem steps_eq (progression : Progression) :
    progression.steps = Rule.all.flatMap fun rule => rule.steps progression :=
  eraseDupsBy_eq_self progression.steps_distinct

/-- The listed steps are steps of their rules. -/
theorem mem_steps {progression : Progression} {step : Step} (member : step ∈ progression.steps) :
    step ∈ step.rule.steps progression := by
  rw [steps_eq] at member
  obtain ⟨rule, _, found⟩ := List.mem_flatMap.1 member
  rwa [(Rule.mem_steps.1 found).1]

/-- The steps cut the progression in three and replace the middle by the table. -/
theorem mem_steps_iff {progression : Progression} {step : Step} :
    step ∈ progression.steps ↔ progression = step.left ++ step.span ++ step.right ∧
      step.rule.Admits step.span step.replacement := by
  constructor
  · intro member
    exact (Rule.mem_steps.1 (mem_steps member)).2
  · intro cut
    have every : step.rule ∈ Rule.all := by cases step.rule <;> decide
    rw [steps_eq]
    exact List.mem_flatMap.2 ⟨step.rule, every, Rule.mem_steps.2 ⟨rfl, cut⟩⟩

/-- The steps are ordered by their rules, and those of one rule by their places and variants. -/
theorem steps_ordered (progression : Progression) :
    (Rule.all.flatMap fun rule => rule.steps progression).Pairwise fun one later =>
      Rule.all.idxOf one.rule < Rule.all.idxOf later.rule ∨
        one.rule = later.rule ∧ one.Precedes later := by
  rw [List.pairwise_flatMap]
  constructor
  · intro rule _
    refine (rule.steps_ordered progression).imp_of_mem fun one later precedes => .inr ⟨?_, precedes⟩
    rw [(Rule.mem_steps.1 one).1, (Rule.mem_steps.1 later).1]
  · have rules : Rule.all.Pairwise fun one later =>
        Rule.all.idxOf one < Rule.all.idxOf later := by decide
    refine rules.imp fun before one oneMember later laterMember => .inl ?_
    rw [(Rule.mem_steps.1 oneMember).1, (Rule.mem_steps.1 laterMember).1]
    exact before

/-- Every step of every rule is listed, rule by rule. The keys of all steps differ, so that nothing
is erased, and the list is ordered by rule, then by place, and at one place by variant. -/
theorem every_step_listed (progression : Progression) :
    let every := Rule.split.steps progression ++ Rule.splitSubdominant.steps progression ++
      Rule.dominantOfSeventh.steps progression ++ Rule.dominantOfMinorSeventh.steps progression ++
      Rule.tritoneSubstitution.steps progression ++ Rule.diatonicAscent.steps progression ++
      Rule.diminishedPassing.steps progression
    progression.steps = every ∧ (every.map Step.key).Nodup ∧
      every.Pairwise fun one later => Rule.all.idxOf one.rule < Rule.all.idxOf later.rule ∨
        one.rule = later.rule ∧ one.Precedes later := by
  intro every
  have whole : (Rule.all.flatMap fun rule => rule.steps progression) = every := by
    simp [every, Rule.all]
  rw [← whole, List.Nodup, List.pairwise_map]
  refine ⟨progression.steps_eq, ?_, progression.steps_ordered⟩
  refine progression.steps_distinct.imp fun {one later} distinct same => ?_
  rw [Step.sameKey_iff.2 same.symm] at distinct
  contradiction

end Progression

end JazzGrammar
