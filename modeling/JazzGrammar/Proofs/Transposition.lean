/-
Transposition: what can be done with a progression does not depend on where its tonic lies, as far
as words hold the sums with which its roots are moved.
-/

import JazzGrammar.Proofs.Fault
import JazzGrammar.Proofs.Interval
import JazzGrammar.Proofs.Symmetry
import JazzGrammar.Root.Shift

namespace JazzGrammar

namespace Root

/-- A sum that is not too small fits a word unless it is too great. -/
theorem addWords_of_le {first second : Int} (least : -2147483648 ≤ first + second) :
    addWords first second =
      if first + second ≤ 2147483647 then .ok (first + second)
      else .error (.stopped .overflow) := by
  simp only [addWords, least, true_and]

/-- Words hold the degree and the pitch class to which a root is moved. -/
def Movable (degreeSteps semitoneSteps : Int32) (root : Root) : Prop :=
  root.degree + degreeSteps.toInt ≤ 2147483647 ∧ root.semitone + semitoneSteps.toInt ≤ 2147483647

instance (degreeSteps semitoneSteps : Int32) (root : Root) :
    Decidable (root.Movable degreeSteps semitoneSteps) :=
  inferInstanceAs (Decidable (_ ∧ _))

theorem natural_bounds (degree : Fin 7) : 0 ≤ natural degree ∧ natural degree ≤ 11 := by
  revert degree
  decide

/-- A checked shift of a normal root is the shift, or stops where a word does not hold a sum. -/
theorem Normal.checkedShift_eq {root : Root} (normal : root.Normal)
    (degreeSteps semitoneSteps : Int32) :
    root.checkedShift degreeSteps semitoneSteps =
      if root.Movable degreeSteps semitoneSteps then
        .ok (root.shift degreeSteps.toInt semitoneSteps.toInt)
      else .error (.stopped .overflow) := by
  have degreeWord := degreeSteps.le_toInt
  have semitoneWord := semitoneSteps.le_toInt
  obtain ⟨low, high⟩ := natural_bounds root.degree
  obtain ⟨least, greatest⟩ := normal
  have pitch : addWords (natural root.degree) root.accidental =
      .ok (natural root.degree + root.accidental) := by
    rw [addWords_of_le (by omega), if_pos (by omega)]
  rw [checkedShift, addWords_of_le (by omega), pitch]
  by_cases degrees : root.degree + degreeSteps.toInt ≤ 2147483647
  · simp only [if_pos degrees, bind, Except.bind]
    rw [addWords_of_le (by omega)]
    by_cases semitones :
        (natural root.degree + root.accidental) % 12 + semitoneSteps.toInt ≤ 2147483647
    · rw [if_pos semitones, if_pos ⟨degrees, semitones⟩]
      rfl
    · rw [if_neg semitones, if_neg fun movable => semitones movable.2]
  · rw [if_neg degrees, if_neg fun movable => degrees movable.1]
    rfl

/-- The words that move every root. -/
theorem movable_of_le {degreeSteps semitoneSteps : Int32}
    (degrees : degreeSteps.toInt ≤ 2147483641) (semitones : semitoneSteps.toInt ≤ 2147483636)
    (root : Root) : root.Movable degreeSteps semitoneSteps := by
  have degree := root.degree.isLt
  rw [Movable, semitone]
  omega

end Root

/-- Shifts keep intervals. They tell roots apart that are spelled with the least accidental. -/
def Symmetry.transposition (degreeSteps semitoneSteps : Int) : Symmetry where
  root root := root.shift degreeSteps semitoneSteps
  duration := id
  Covers := Root.Normal
  covers_shift := Root.normal_shift
  root_shift origin _ _ := origin.shift_comm _ _ _ _
  root_injective oneNormal otherNormal same := oneNormal.shift_injective otherNormal same
  duration_half _ := rfl
  duration_injective := Function.injective_id

namespace Progression

/-- Moving every root by the same degrees and semitones. -/
def transpose (degreeSteps semitoneSteps : Int) (progression : Progression) : Progression :=
  progression.map fun timed =>
    ⟨⟨timed.chord.root.shift degreeSteps semitoneSteps, timed.chord.quality⟩, timed.duration⟩

/-- The same with checked shifts. -/
def checkedTranspose (degreeSteps semitoneSteps : Int32) (progression : Progression) :
    Except Fault Progression :=
  progression.mapM fun timed => do
    let root ← timed.chord.root.checkedShift degreeSteps semitoneSteps
    return ⟨⟨root, timed.chord.quality⟩, timed.duration⟩

/-- All roots of a progression are movable. -/
def Movable (degreeSteps semitoneSteps : Int32) (progression : Progression) : Prop :=
  ∀ timed ∈ progression, timed.chord.root.Movable degreeSteps semitoneSteps

instance (degreeSteps semitoneSteps : Int32) (progression : Progression) :
    Decidable (progression.Movable degreeSteps semitoneSteps) :=
  inferInstanceAs (Decidable (∀ timed ∈ progression, _))

theorem movable_cons {degreeSteps semitoneSteps : Int32} {timed : TimedChord}
    {rest : Progression} : Movable degreeSteps semitoneSteps (timed :: rest) ↔
      timed.chord.root.Movable degreeSteps semitoneSteps ∧
        Movable degreeSteps semitoneSteps rest :=
  List.forall_mem_cons

theorem movable_of_le {degreeSteps semitoneSteps : Int32}
    (degrees : degreeSteps.toInt ≤ 2147483641) (semitones : semitoneSteps.toInt ≤ 2147483636)
    (progression : Progression) : progression.Movable degreeSteps semitoneSteps :=
  fun timed _ => timed.chord.root.movable_of_le degrees semitones

/-- Normal roots are transposed by their shifts, or the program stops at one that is not movable. -/
theorem checkedTranspose_eq {progression : Progression}
    (normal : ∀ timed ∈ progression, timed.chord.root.Normal) (degreeSteps semitoneSteps : Int32) :
    progression.checkedTranspose degreeSteps semitoneSteps =
      if progression.Movable degreeSteps semitoneSteps then
        .ok (progression.transpose degreeSteps.toInt semitoneSteps.toInt)
      else .error (.stopped .overflow) := by
  induction progression with
  | nil => rfl
  | cons timed rest ih =>
    obtain ⟨one, others⟩ := List.forall_mem_cons.1 normal
    have later := ih others
    rw [checkedTranspose] at later ⊢
    rw [List.mapM_cons, later, one.checkedShift_eq]
    by_cases movable : timed.chord.root.Movable degreeSteps semitoneSteps
    · by_cases remaining : Movable degreeSteps semitoneSteps rest
      · rw [if_pos movable, if_pos remaining, if_pos (movable_cons.2 ⟨movable, remaining⟩)]
        rfl
      · rw [if_pos movable, if_neg remaining,
          if_neg fun all => remaining (movable_cons.1 all).2]
        rfl
    · rw [if_neg movable, if_neg fun all => movable (movable_cons.1 all).1]
      rfl

/-- The transposed progression is what the checked shifts give as far as words hold their sums, and
else they stop. -/
def Transposes (degreeSteps semitoneSteps : Int32) (before after : Progression) : Prop :=
  before.transpose degreeSteps.toInt semitoneSteps.toInt = after ∧
    before.checkedTranspose degreeSteps semitoneSteps =
      if before.Movable degreeSteps semitoneSteps then .ok after else .error (.stopped .overflow)

theorem transposes_image {degreeSteps semitoneSteps : Int32} (before : Progression)
    (normal :
      (Symmetry.transposition degreeSteps.toInt semitoneSteps.toInt).CoversAll before) :
    Transposes degreeSteps semitoneSteps before
      ((Symmetry.transposition degreeSteps.toInt semitoneSteps.toInt).image before) :=
  ⟨rfl, checkedTranspose_eq normal degreeSteps semitoneSteps⟩

/-- Transposition commutes with rewriting. A transposed progression has the same steps in the same
order, with the chords before, in the replacement and in the result transposed, and on every level
of an exploration it reaches what the progression reaches, transposed. The program transposes a
progression like this, or it stops where a word does not hold the degree or the pitch class to which
a root is moved. With at most 2147483641 degrees and 2147483636 semitones it never stops. -/
theorem steps_transposed (progression : Progression) (degreeSteps semitoneSteps : Int32)
    (normal : ∀ timed ∈ progression,
      -6 < timed.chord.root.accidental ∧ timed.chord.root.accidental ≤ 6) :
    let transposed := Transposes degreeSteps semitoneSteps
    ∃ other, transposed progression other ∧
      List.Forall₂ (Step.Corresponds transposed) progression.steps other.steps ∧
      (∀ depth : Nat, ∃ levels others, progression.explore depth = .ok levels ∧
        other.explore depth = .ok others ∧
        List.Forall₂ (Exploration.Corresponds transposed) levels others) ∧
      (degreeSteps.toInt ≤ 2147483641 → semitoneSteps.toInt ≤ 2147483636 →
        ∀ before after, transposed before after →
          before.checkedTranspose degreeSteps semitoneSteps = .ok after) := by
  intro transposed
  refine ⟨_, transposes_image progression normal,
    Symmetry.steps_correspond transposes_image normal,
    Symmetry.explore_correspond transposes_image normal, ?_⟩
  intro degrees semitones before after moved
  rw [moved.2, if_pos (movable_of_le degrees semitones before)]

/-- Half a step up the greatest accidental becomes the least one, and a tritone substitution is
found in both keys. -/
theorem steps_transposed_wrapped :
    let progression : Progression :=
      [.unit ⟨⟨4, 6⟩, .dominantSeventh⟩, .unit ⟨⟨0, 6⟩, .minorSeventh⟩]
    let higher : Progression :=
      [.unit ⟨⟨4, -5⟩, .dominantSeventh⟩, .unit ⟨⟨0, -5⟩, .minorSeventh⟩]
    (∀ timed ∈ progression,
      -6 < timed.chord.root.accidental ∧ timed.chord.root.accidental ≤ 6) ∧
    progression.checkedTranspose 0 1 = .ok higher ∧
    List.Forall₂ (Step.Corresponds (Transposes 0 1)) progression.steps higher.steps ∧
    ∃ step ∈ progression.steps, step.rule = .tritoneSubstitution := by
  intro progression higher
  have normal : ∀ timed ∈ progression,
      -6 < timed.chord.root.accidental ∧ timed.chord.root.accidental ≤ 6 := by decide
  have moved : progression.checkedTranspose 0 1 = .ok higher := by decide +kernel
  obtain ⟨other, transposed, steps, _, never⟩ := steps_transposed progression 0 1 normal
  obtain rfl := Except.ok.inj
    (moved.symm.trans (never (by decide) (by decide) progression other transposed))
  refine ⟨normal, moved, steps, ?_⟩
  exact ⟨⟨.tritoneSubstitution, [], progression, _, []⟩, mem_steps_iff.2 ⟨rfl,
    .tritoneSubstitution _ _ rfl rfl (by decide)⟩, rfl⟩

/-- The greatest word moves a dominant past the words. -/
theorem transposed_dominant_stops :
    let progression : Progression := [.unit ⟨⟨4, 0⟩, .major⟩]
    (∀ timed ∈ progression,
      -6 < timed.chord.root.accidental ∧ timed.chord.root.accidental ≤ 6) ∧
    progression.checkedTranspose 2147483647 0 = .error (.stopped .overflow) ∧
    progression.transpose 2147483647 0 = [.unit ⟨⟨5, -2⟩, .major⟩] := by
  decide +kernel

end Progression

end JazzGrammar
