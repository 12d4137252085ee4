/-
Derivations have no cycles, and only the rules that split a chord can be applied forever.
-/

import JazzGrammar.Proofs.Interval
import JazzGrammar.Proofs.Rewriting
import Mathlib.Data.Prod.Lex
import Mathlib.Order.WellFounded

namespace JazzGrammar

namespace Rule

/-- A rule that splits adds one chord, and any other rule keeps their number. -/
theorem Admits.length {rule : Rule} {span replacement : Progression}
    (admits : rule.Admits span replacement) :
    replacement.length = span.length + if rule.IsSplit then 1 else 0 := by
  cases admits <;> rfl

end Rule

namespace Progression

/-- Whether a tritone substitution applies to a chord in front of another one. -/
def substitutable (first target : TimedChord) : Bool :=
  first.chord.quality == .dominantSeventh && !target.chord.isDiminished &&
    first.chord.root == target.chord.root.dominant

/-- The substitutable chords as binary digits. A substitution clears its own digit and can set the
next lower one only, which belongs to the chord on its left. -/
def pending : Progression → Nat
  | first :: target :: rest => (substitutable first target).toNat + 2 * pending (target :: rest)
  | _ => 0

/-- The number of plain chords. -/
def plains (progression : Progression) : Nat :=
  progression.countP (·.chord.isPlain)

/-- The number of major chords without seventh. -/
def majors (progression : Progression) : Nat :=
  progression.countP (·.chord.quality == .major)

/-- What the rules without split use up: plain chords, then major chords, then substitutions. -/
def weight (progression : Progression) : Nat ×ₗ Nat ×ₗ Nat :=
  toLex (progression.plains, toLex (progression.majors, progression.pending))

theorem plains_append (left right : Progression) :
    plains (left ++ right) = plains left + plains right :=
  List.countP_append

theorem majors_append (left right : Progression) :
    majors (left ++ right) = majors left + majors right :=
  List.countP_append

theorem plains_cons (timed : TimedChord) (rest : Progression) :
    plains (timed :: rest) = timed.chord.isPlain.toNat + plains rest := by
  rw [plains, List.countP_cons, Nat.add_comm]
  cases timed.chord.isPlain <;> rfl

theorem majors_cons (timed : TimedChord) (rest : Progression) :
    majors (timed :: rest) = (timed.chord.quality == .major).toNat + majors rest := by
  rw [majors, List.countP_cons, Nat.add_comm]
  cases timed.chord.quality == .major <;> rfl

theorem weight_lt_iff {lower higher : Progression} : weight lower < weight higher ↔
    plains lower < plains higher ∨ plains lower = plains higher ∧
      (majors lower < majors higher ∨
        majors lower = majors higher ∧ pending lower < pending higher) := by
  simp only [weight, Prod.Lex.toLex_lt_toLex]

/-- A lower value behind a chord outweighs the digit of that chord. -/
theorem pending_cons_lt (timed : TimedChord) {lower higher : Progression} (nonempty : lower ≠ [])
    (less : pending lower < pending higher) :
    pending (timed :: lower) < pending (timed :: higher) := by
  obtain ⟨first, rest, rfl⟩ := List.exists_cons_of_ne_nil nonempty
  cases higher with
  | nil => exact absurd less (Nat.not_lt_zero _)
  | cons next later =>
    have digit := Bool.toNat_le (substitutable timed first)
    simp only [pending]
    omega

/-- A substitution lowers the pending value. -/
theorem pending_substitute (left right : Progression) {first target : TimedChord}
    (quality : Quality) (allowed : substitutable first target = true) :
    pending (left ++ [⟨⟨target.chord.root.flatSupertonic, quality⟩, first.duration⟩, target] ++
      right) < pending (left ++ [first, target] ++ right) := by
  induction left with
  | nil =>
    have closed : substitutable ⟨⟨target.chord.root.flatSupertonic, quality⟩, first.duration⟩
        target = false := by
      simp [substitutable, Root.flatSupertonic_ne_dominant]
    simp only [List.nil_append, List.cons_append, pending, allowed, closed, Bool.toNat_true,
      Bool.toNat_false]
    omega
  | cons timed rest ih => exact pending_cons_lt timed (by simp) ih

/-- Every rule without split lowers the weight. Three of them spend a plain chord, the ascent spends
major ones among the plain, and only the substitution keeps both numbers and spends a digit. -/
theorem Rewrites.weight_lt {rule : Rule} {before after : Progression}
    (step : Rewrites rule before after) (whole : ¬rule.IsSplit) : after.weight < before.weight := by
  obtain ⟨left, span, replacement, right, rfl, rfl, admits⟩ := rewrites_iff.1 step
  simp only [weight_lt_iff, plains_append, majors_append]
  cases admits with
  | split timed => exact absurd (.inl rfl) whole
  | splitSubdominant timed => exact absurd (.inr rfl) whole
  | dominantOfSeventh first target quality plain seventh variant =>
    have spent : Chord.isPlain ⟨target.chord.root.dominant, quality⟩ = false := by
      rcases variant with rfl | rfl <;> rfl
    left
    simp only [plains_cons, plain, spent, Bool.toNat_true, Bool.toNat_false]
    omega
  | dominantOfMinorSeventh first target plain seventh =>
    have spent : Chord.isPlain ⟨target.chord.root.dominant, .dominantSeventh⟩ = false := rfl
    left
    simp only [plains_cons, plain, spent, Bool.toNat_true, Bool.toNat_false]
    omega
  | tritoneSubstitution first target seventh undiminished dominant =>
    have before : first.chord.isPlain = false := by rw [Chord.isPlain, seventh]; rfl
    have after : Chord.isPlain ⟨target.chord.root.flatSupertonic,
        .ofFlags target.chord.isMinor true⟩ = false := by
      cases target.chord.isMinor <;> rfl
    have major : (Quality.ofFlags target.chord.isMinor true == .major) = false := by
      cases target.chord.isMinor <;> rfl
    have applies : substitutable first target = true := by
      simp [substitutable, seventh, undiminished, dominant]
    right
    refine ⟨?_, .inr ⟨?_, pending_substitute left right _ applies⟩⟩
    · simp only [plains_cons, before, after]
    · simp only [majors_cons, seventh, major]
      rfl
  | diatonicAscent chord first second third major =>
    have plain : chord.isPlain = true := by rw [Chord.isPlain, major]; rfl
    have supertonic : Chord.isPlain ⟨chord.root.supertonic, .minor⟩ = true := rfl
    have mediant : Chord.isPlain ⟨chord.root.mediant, .minor⟩ = true := rfl
    have minor : (Quality.minor == .major) = false := rfl
    right
    refine ⟨?_, .inl ?_⟩
    · simp only [plains_cons, plain, supertonic, mediant]
    · simp only [majors_cons, major, minor, beq_self_eq_true, Bool.toNat_true, Bool.toNat_false]
      omega
  | diminishedPassing chord first second target plain passing =>
    have spent : Chord.isPlain ⟨chord.root.sharpened, .diminishedSeventh⟩ = false := rfl
    left
    simp only [plains_cons, plain, spent, Bool.toNat_true, Bool.toNat_false]
    omega

/-- A derivation adds one chord for each split. -/
theorem Derives.length {rules : List Rule} {before after : Progression}
    (run : Derives rules before after) :
    after.length = before.length + rules.countP fun rule => decide rule.IsSplit := by
  have lengths := run.countP (fun _ => true) (fun rule => decide rule.IsSplit) fun admits => by
    simpa only [List.countP_true, decide_eq_true_eq] using admits.length
  simpa only [List.countP_true] using lengths

/-- A derivation without splits does not raise the weight. -/
theorem Derives.weight_le {rules : List Rule} {before after : Progression}
    (run : Derives rules before after) (whole : ∀ rule ∈ rules, ¬rule.IsSplit) :
    after.weight ≤ before.weight := by
  induction run with
  | done progression => exact le_rfl
  | step first rest ih =>
    rw [List.forall_mem_cons] at whole
    exact (ih whole.2).trans (first.weight_lt whole.1).le

/-- No derivation of one step or more leads back to its start. -/
theorem Derives.acyclic {rules : List Rule} {progression : Progression}
    (run : Derives rules progression progression) : rules = [] := by
  have unsplit : (rules.countP fun rule => decide rule.IsSplit) = 0 := by
    have length := run.length
    omega
  have whole : ∀ rule ∈ rules, ¬rule.IsSplit := by
    simpa only [List.countP_eq_zero, decide_eq_true_eq] using unsplit
  cases run with
  | done => rfl
  | step first rest =>
    rw [List.forall_mem_cons] at whole
    exact absurd (first.weight_lt whole.1) (rest.weight_le whole.2).not_gt

/-- The steps by the rules without split. -/
def RewritesWhole (before after : Progression) : Prop :=
  ∃ rule, ¬rule.IsSplit ∧ Rewrites rule before after

theorem wellFounded_rewritesWhole :
    WellFounded fun after before : Progression => RewritesWhole before after := by
  refine Subrelation.wf ?_ (InvImage.wf weight wellFounded_lt)
  rintro after before ⟨rule, whole, step⟩
  exact step.weight_lt whole

/-- A rule that splits leaves a chord that it can split again. -/
theorem exists_split {rule : Rule} (split : rule.IsSplit) {before : Progression}
    (sounding : ∃ timed ∈ before, timed.chord.isDiminished = false) :
    ∃ after, Rewrites rule before after ∧
      ∃ timed ∈ after, timed.chord.isDiminished = false := by
  obtain ⟨timed, member, undiminished⟩ := sounding
  obtain ⟨left, right, rfl⟩ := List.append_of_mem member
  rw [List.append_cons]
  rcases split with rfl | rfl
  · exact ⟨_, .of_admits (.split timed undiminished) left right,
      ⟨timed.chord, timed.duration.half⟩, by simp, undiminished⟩
  · exact ⟨_, .of_admits (.splitSubdominant timed undiminished) left right,
      ⟨timed.chord, timed.duration.half⟩, by simp, undiminished⟩

/-- Either rule that splits can be applied forever. -/
theorem exists_endless_split {rule : Rule} (split : rule.IsSplit) {progression : Progression}
    (sounding : ∃ timed ∈ progression, timed.chord.isDiminished = false) :
    ∃ run : Nat → Progression, run 0 = progression ∧
      ∀ index, Rewrites rule (run index) (run (index + 1)) := by
  let Sounding := {before : Progression // ∃ timed ∈ before, timed.chord.isDiminished = false}
  have next (before : Sounding) : ∃ after : Sounding, Rewrites rule before.val after.val := by
    obtain ⟨after, step, remains⟩ := exists_split split before.property
    exact ⟨⟨after, remains⟩, step⟩
  choose advance steps using next
  refine ⟨fun index => (advance^[index] ⟨progression, sounding⟩).val, rfl, fun index => ?_⟩
  simp only [Function.iterate_succ_apply']
  exact steps _

/-- No derivation of one step or more returns to its start, and the rules without split end after
finitely many steps. Only the two rules that split run forever, from every progression with a chord
that is not diminished. -/
theorem acyclic_and_only_splits_endless :
    (∀ progression rules, Derives rules progression progression → rules = []) ∧
    (WellFounded fun after before : Progression => RewritesWhole before after) ∧
    (¬∃ run : Nat → Progression, ∀ index, RewritesWhole (run index) (run (index + 1))) ∧
    ∀ rule : Rule, rule.IsSplit → ∀ progression : Progression,
      (∃ timed ∈ progression, timed.chord.isDiminished = false) →
        ∃ run : Nat → Progression, run 0 = progression ∧
          ∀ index, Rewrites rule (run index) (run (index + 1)) := by
  refine ⟨fun progression rules run => run.acyclic, wellFounded_rewritesWhole, ?_, ?_⟩
  · rintro ⟨run, steps⟩
    exact (wellFounded_iff_isEmpty_descending_chain.1 wellFounded_rewritesWhole).false
      ⟨run, steps⟩
  · exact fun rule split progression sounding => exists_endless_split split sounding

/-- A secondary dominant cannot be taken back: no rules lead to the plain chord that it replaced. -/
theorem acyclic_and_only_splits_endless_secondary_dominant :
    let tonic : TimedChord := .unit ⟨⟨0, 0⟩, .major⟩
    let dominant : TimedChord := .unit ⟨⟨4, 0⟩, .dominantSeventh⟩
    let secondary : TimedChord := ⟨⟨dominant.chord.root.dominant, .dominantSeventh⟩, .one⟩
    Rewrites .dominantOfSeventh [tonic, dominant] [secondary, dominant] ∧
      ¬∃ rules, Derives rules [secondary, dominant] [tonic, dominant] := by
  intro tonic dominant secondary
  have step : Rewrites .dominantOfSeventh [tonic, dominant] [secondary, dominant] :=
    rewrites_iff.2 ⟨[], [tonic, dominant], _, [], rfl, rfl,
      .dominantOfSeventh tonic dominant _ rfl rfl (.inl rfl)⟩
  refine ⟨step, ?_⟩
  rintro ⟨rules, back⟩
  have empty := acyclic_and_only_splits_endless.1 _ _ (.step step back)
  exact absurd empty (List.cons_ne_nil _ _)

end Progression

end JazzGrammar
