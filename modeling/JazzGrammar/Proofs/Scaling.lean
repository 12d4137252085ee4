/-
Scaling time: what can be done with a progression does not depend on how long its beats are.
-/

import JazzGrammar.Proofs.Symmetry
import Mathlib.Algebra.Order.Field.Rat

namespace JazzGrammar

/-- Multiplication by a positive factor keeps halves. -/
def Symmetry.scaling (factor : Rat) (positive : 0 < factor) : Symmetry where
  root := id
  duration held := ⟨held.value * factor, mul_pos held.positive positive⟩
  Covers _ := True
  covers_shift _ _ _ := trivial
  root_shift _ _ _ := rfl
  root_injective _ _ := id
  duration_half held := Duration.ext (div_mul_eq_mul_div held.value 2 factor)
  duration_injective := by
    intro one other same
    exact Duration.ext (mul_right_cancel₀ positive.ne' (congrArg Duration.value same))

namespace Progression

/-- Scaling by a positive factor does not fail. -/
theorem scale_eq_image (progression : Progression) {factor : Rat} (positive : 0 < factor) :
    progression.scale factor = .ok ((Symmetry.scaling factor positive).image progression) := by
  rw [scale, mapM_eq_ok, Symmetry.image, List.forall₂_map_right_iff, List.forall₂_same]
  intro timed _
  have held : 0 < timed.duration.value * factor := mul_pos timed.duration.positive positive
  simp only [TimedChord.scale, Duration.scale, Duration.ofRat, dif_pos held]
  rfl

/-- Scaling commutes with rewriting. A scaled progression has the same steps in the same order, with
the chords before, in the replacement and in the result scaled, and on every level of an exploration
it reaches what the progression reaches, scaled. -/
theorem steps_scaled (progression : Progression) (factor : Rat) (positive : 0 < factor) :
    let scaled : Progression → Progression → Prop :=
      fun before after => before.scale factor = .ok after
    ∃ other, scaled progression other ∧
      List.Forall₂ (Step.Corresponds scaled) progression.steps other.steps ∧
      ∀ depth : Nat, ∃ levels others, progression.explore depth = .ok levels ∧
        other.explore depth = .ok others ∧
        List.Forall₂ (Exploration.Corresponds scaled) levels others := by
  intro scaled
  have covered : (Symmetry.scaling factor positive).CoversAll progression := fun _ _ => trivial
  have relates (before : Progression) (_ : (Symmetry.scaling factor positive).CoversAll before) :
      scaled before ((Symmetry.scaling factor positive).image before) :=
    before.scale_eq_image positive
  exact ⟨_, progression.scale_eq_image positive, Symmetry.steps_correspond relates covered,
    Symmetry.explore_correspond relates covered⟩

/-- Two thirds of a tonic of three halves are one beat. Its token loses the duration, and the
secondary dominant in front of the dominant is found for both. -/
theorem steps_scaled_thirds :
    let tonic : Chord := ⟨⟨0, 0⟩, .major⟩
    let dominant : Chord := ⟨⟨4, 0⟩, .dominantSeventh⟩
    let half := Duration.half .one
    let progression : Progression := [⟨tonic, half.add .one⟩, ⟨dominant, half⟩]
    let shorter : Progression := [.unit tonic, ⟨dominant, .part 3 (Nat.succ_pos 2)⟩]
    (0 : Rat) < 2 / 3 ∧ progression.scale (2 / 3) = .ok shorter ∧
    progression.tokens = [['I', '@', '3', '/', '2'], ['V', '7', '@', '1', '/', '2']] ∧
    shorter.tokens = [['I'], ['V', '7', '@', '1', '/', '3']] ∧
    List.Forall₂ (Step.Corresponds fun before after => before.scale (2 / 3) = .ok after)
      progression.steps shorter.steps ∧
    ∃ step ∈ progression.steps, step.rule = .dominantOfSeventh := by
  intro tonic dominant half progression shorter
  have positive : (0 : Rat) < 2 / 3 := by decide +kernel
  have scaled : progression.scale (2 / 3) = .ok shorter := by decide +kernel
  obtain ⟨_, found, steps, _⟩ := steps_scaled progression (2 / 3) positive
  obtain rfl := Except.ok.inj (found.symm.trans scaled)
  refine ⟨positive, scaled, by decide +kernel, by decide +kernel, steps, ?_⟩
  exact ⟨⟨.dominantOfSeventh, [], progression, _, []⟩, mem_steps_iff.2 ⟨rfl,
    .dominantOfSeventh _ _ .dominantSeventh rfl rfl (.inl rfl)⟩, rfl⟩

end Progression

end JazzGrammar
