/-
Dead ends of the exploration. A chain of splits is the shortest way to what it reaches, so every
level finds something new until no chord is left that a rule can take.
-/

import JazzGrammar.Proofs.Diminished
import JazzGrammar.Proofs.Exploration
import JazzGrammar.Proofs.Termination

namespace JazzGrammar

namespace Progression

variable {rules : List Rule} {progression after : Progression} {count : Nat}

/-- What a chain of so many steps reaches is derived by as many rules. -/
theorem reaches_iff_derives : Reaches progression.tokens count after.tokens ↔
    ∃ rules, rules.length = count ∧ Derives rules progression after := by
  induction count generalizing after with
  | zero =>
    constructor
    · intro reaches
      obtain rfl := tokens_injective reaches
      exact ⟨[], rfl, .done _⟩
    · rintro ⟨rules, empty, run⟩
      obtain rfl := List.length_eq_zero_iff.1 empty
      cases run
      exact rfl
  | succ count ih =>
    rw [reaches_succ]
    constructor
    · rintro ⟨middle, sooner, step, member, rfl⟩
      obtain ⟨rules, rfl, run⟩ := ih.1 sooner
      refine ⟨rules ++ [step.rule], List.length_append, derives_concat_iff.2 ⟨middle, run, ?_⟩⟩
      exact ⟨step, member, rfl, ofTokens_tokens _⟩
    · rintro ⟨rules, length, run⟩
      obtain rfl | ⟨front, rule, rfl⟩ := List.eq_nil_or_concat' rules
      · contradiction
      · obtain ⟨middle, sooner, step, member, _, read⟩ := derives_concat_iff.1 run
        rw [ofTokens_tokens] at read
        rw [List.length_append] at length
        exact ⟨middle, ih.2 ⟨front, Nat.succ.inj length, sooner⟩, step, member, Except.ok.inj read⟩

/-- A step needs a chord that is not diminished. -/
theorem Rewrites.exists_undiminished {rule : Rule} (step : Rewrites rule progression after) :
    ∃ timed ∈ progression, timed.chord.isDiminished = false := by
  obtain ⟨left, span, replacement, right, rfl, _, admits⟩ := rewrites_iff.1 step
  obtain ⟨timed, member, undiminished⟩ := admits.exists_undiminished
  exact ⟨timed, by simp [member], undiminished⟩

/-- A chord that is not diminished can be split any number of times. -/
theorem exists_splits (sounding : ∃ timed ∈ progression, timed.chord.isDiminished = false)
    (count : Nat) : ∃ after, Derives (List.replicate count .split) progression after := by
  induction count generalizing progression with
  | zero => exact ⟨progression, .done progression⟩
  | succ count ih =>
    obtain ⟨middle, first, remains⟩ := exists_split (.inl rfl) sounding
    obtain ⟨after, rest⟩ := ih remains
    exact ⟨after, .step first rest⟩

/-- Splits are the shortest way to what they reach, because no rule adds more than one chord. The
added chords count the splits, which are all rules of one derivation and at most all of another. -/
theorem Derives.atDistance (run : Derives rules progression after)
    (splits : ∀ rule ∈ rules, rule.IsSplit) :
    AtDistance progression.tokens rules.length after.tokens := by
  refine ⟨reaches_iff_derives.2 ⟨rules, rfl, run⟩, fun fewer less sooner => ?_⟩
  obtain ⟨others, rfl, other⟩ := reaches_iff_derives.1 sooner
  have every : (rules.countP fun rule => decide rule.IsSplit) = rules.length :=
    List.countP_eq_length.2 fun rule member => decide_eq_true (splits rule member)
  have length := run.length
  have bound := List.countP_le_length (l := others) (p := fun rule => decide rule.IsSplit)
  have same := other.length
  omega

/-- Something lies at every distance when a chord is not diminished, and otherwise at distance zero
only. -/
theorem exists_atDistance_iff : (∃ tokens, AtDistance progression.tokens count tokens) ↔
    count = 0 ∨ ∃ timed ∈ progression, timed.chord.isDiminished = false := by
  constructor
  · rintro ⟨tokens, reaches, _⟩
    obtain ⟨after, rfl⟩ := reaches.canonical
    obtain ⟨rules, rfl, run⟩ := reaches_iff_derives.1 reaches
    cases run with
    | done => exact .inl rfl
    | step first rest => exact .inr first.exists_undiminished
  · rintro (rfl | sounding)
    · exact ⟨progression.tokens, rfl, fun fewer less => absurd less (Nat.not_lt_zero fewer)⟩
    · obtain ⟨after, run⟩ := exists_splits sounding count
      have distance := run.atDistance fun rule member => .inl (List.eq_of_mem_replicate member)
      rw [List.length_replicate] at distance
      exact ⟨after.tokens, distance⟩

/-- The dead ends are exactly the progressions of diminished sevenths. From these every level behind
the first is empty, and from any other progression no level is, however deep it lies. -/
theorem level_empty_iff (progression : Progression) (depth : Nat) :
    ∃ levels, progression.explore depth = .ok levels ∧ levels.length = depth + 1 ∧
      ∀ index level, levels[index]? = some level →
        (level = [] ↔
          1 ≤ index ∧ ∀ timed ∈ progression, timed.chord.isDiminished = true) := by
  obtain ⟨levels, found, length, holds⟩ := progression.exists_levels depth
  refine ⟨levels, found, length, fun index level entry => ?_⟩
  have filled : (∃ tokens, tokens ∈ level) ↔
      index = 0 ∨ ∃ timed ∈ progression, timed.chord.isDiminished = false := by
    rw [← exists_atDistance_iff]
    exact exists_congr (holds index level entry)
  rw [List.eq_nil_iff_forall_not_mem, ← not_exists, filled, not_or, Nat.one_le_iff_ne_zero]
  simp only [not_exists, not_and, Bool.not_eq_false]

end Progression

end JazzGrammar
