/-
The density of grids: a split doubles the common subdivision of a progression at most, and no other
rule changes it.
-/

import JazzGrammar.Proofs.Grid.Limit
import JazzGrammar.Proofs.Time

namespace JazzGrammar

/-- Halving takes a factor of two from the numerator or gives one to the denominator. -/
theorem Duration.den_half_dvd (duration : Duration) :
    duration.half.value.den ∣ 2 * duration.value.den := by
  have product := Rat.mul_den_dvd duration.value 2⁻¹
  rwa [Rat.inv_ofNat_den, Nat.mul_comm, ← div_eq_mul_inv] at product

namespace Progression

variable {rule : Rule} {rules : List Rule} {before after : Progression} {perBeat finer : Nat}

theorem Aligned.mono (aligned : before.Aligned perBeat) (divides : perBeat ∣ finer) :
    before.Aligned finer := by
  intro timed member
  exact (aligned timed member).trans divides

/-- One step needs twice as many slots a beat when it splits, and otherwise no more. -/
theorem Rewrites.aligned (step : Rewrites rule before after) (aligned : before.Aligned perBeat) :
    after.Aligned ((if rule.IsSplit then 2 else 1) * perBeat) := by
  by_cases split : rule.IsSplit
  · rw [if_pos split]
    obtain ⟨left, span, replacement, right, rfl, rfl, admits⟩ := rewrites_iff.1 step
    obtain ⟨timed, first, second, rfl, rfl, firstHalf, secondHalf⟩ := admits.halves split
    have whole : timed.duration.value.den ∣ perBeat := aligned timed (by simp)
    have half : timed.duration.half.value.den ∣ 2 * perBeat :=
      timed.duration.den_half_dvd.trans (Nat.mul_dvd_mul_left 2 whole)
    have others := aligned.mono (Nat.dvd_mul_left perBeat 2)
    intro held member
    simp only [List.mem_append, List.mem_cons, List.not_mem_nil, or_false] at member
    rcases member with (early | rfl | rfl) | late
    · exact others held (by simp [early])
    · rwa [firstHalf]
    · rwa [secondHalf]
    · exact others held (by simp [late])
  · rw [if_neg split, Nat.one_mul, aligned_iff, step.durations split, ← aligned_iff]
    exact aligned

/-- A derivation doubles the slots of a beat with each split. -/
theorem Derives.aligned (run : Derives rules before after) (aligned : before.Aligned perBeat) :
    after.Aligned (2 ^ (rules.countP fun rule => decide rule.IsSplit) * perBeat) := by
  induction run generalizing perBeat with
  | done progression => simpa using aligned
  | @step rule rules before middle after first rest ih =>
    have later := ih (first.aligned aligned)
    rw [List.countP_cons]
    by_cases split : rule.IsSplit
    · simpa only [split, if_true, decide_true, Nat.pow_succ, Nat.mul_assoc] using later
    · simpa only [split, if_false, decide_false, Bool.false_eq_true, Nat.one_mul,
        Nat.add_zero] using later

end Progression

namespace Grid

/-- A subdivision is reported only when it is not allowed. -/
theorem write_ne_subdivision {options : Options} {progression : Progression}
    (sparse : Duration.commonSubdivision progression.durations ≤ options.maxSubdivisions.toNat)
    (required : Nat) (limit : UInt64) :
    write options progression ≠ .error (.subdivision required limit) := by
  intro failed
  have nonempty : progression ≠ [] := by
    rintro rfl
    contradiction
  obtain unchecked | ⟨_, ⟨dense, _⟩ | ⟨_, laid | ⟨runs, _, ⟨_, stopped⟩ | ⟨_, filled⟩⟩⟩⟩ :=
    (write_eq_error nonempty).1 failed
  · cases check_eq_error unchecked
  · exact absurd sparse (Nat.not_le.2 dense)
  · obtain other | ⟨_, _, other⟩ := runs_eq_error laid <;> contradiction
  · contradiction
  · obtain ⟨_, ⟨_, other⟩ | ⟨_, _, other⟩⟩ := fillBar_eq_error.1 filled <;> contradiction

/-- The density of a grid grows by a factor of two with each split at most, whatever other rules are
applied. Options that allow this growth allow the subdivision of what is derived. -/
theorem density_bounded {rules : List Rule} {before after : Progression}
    (run : Progression.Derives rules before after) :
    let splits := rules.countP fun rule => decide rule.IsSplit
    Duration.commonSubdivision after.durations ∣
        2 ^ splits * Duration.commonSubdivision before.durations ∧
      ∀ options : Options,
        2 ^ splits * Duration.commonSubdivision before.durations ≤ options.maxSubdivisions.toNat →
          ∀ required limit, write options after ≠ .error (.subdivision required limit) := by
  intro splits
  have divides : Duration.commonSubdivision after.durations ∣
      2 ^ splits * Duration.commonSubdivision before.durations :=
    Progression.aligned_iff.1 (run.aligned (aligned_commonSubdivision before))
  refine ⟨divides, fun options room => write_ne_subdivision ?_⟩
  have positive : 0 < 2 ^ splits * Duration.commonSubdivision before.durations :=
    Nat.mul_pos (Nat.two_pow_pos splits) (Duration.commonSubdivision_positive before.durations)
  exact (Nat.le_of_dvd positive divides).trans room

/-- Three beats are split, and half of them is split again as a secondary dominant. Two splits need
four slots a beat here, which the options allow by default. -/
theorem density_bounded_quarters :
    let options : Options := {}
    let tonic : Chord := ⟨⟨0, 0⟩, .major⟩
    let dominant : TimedChord := .unit ⟨⟨4, 0⟩, .dominantSeventh⟩
    let secondary : Chord := ⟨⟨1, 0⟩, .dominantSeventh⟩
    let held : Duration := ⟨3, by decide +kernel⟩
    let before : Progression := [⟨tonic, held⟩, dominant]
    let after : Progression := [⟨tonic, held.half⟩, ⟨secondary, held.half.half⟩,
      ⟨⟨⟨4, 0⟩, .major⟩, held.half.half⟩, dominant]
    Progression.Derives [.split, .dominantOfSeventh, .splitSubdominant] before after ∧
      Duration.commonSubdivision after.durations = 4 ∧
      Duration.commonSubdivision after.durations ∣
        2 ^ 2 * Duration.commonSubdivision before.durations ∧
      2 ^ 2 * Duration.commonSubdivision before.durations ≤ options.maxSubdivisions.toNat ∧
      ∀ required limit, write options after ≠ .error (.subdivision required limit) := by
  intro options tonic dominant secondary held before after
  have root : dominant.chord.root.dominant = ⟨1, 0⟩ := by decide
  have subdominant : secondary.root.subdominant = ⟨4, 0⟩ := by decide
  have first := Rule.Admits.split ⟨tonic, held⟩ rfl
  have second := Rule.Admits.dominantOfSeventh ⟨tonic, held.half⟩ dominant .dominantSeventh
    rfl rfl (.inl rfl)
  have third := Rule.Admits.splitSubdominant ⟨secondary, held.half⟩ rfl
  rw [root] at second
  rw [subdominant] at third
  have run : Progression.Derives [.split, .dominantOfSeventh, .splitSubdominant] before after :=
    .step (.of_admits first [] [dominant])
      (.step (.of_admits second [⟨tonic, held.half⟩] [])
        (.step (.of_admits third [⟨tonic, held.half⟩] [dominant]) (.done _)))
  obtain ⟨divides, allowed⟩ := density_bounded run
  have room : 2 ^ 2 * Duration.commonSubdivision before.durations ≤
      options.maxSubdivisions.toNat := by decide +kernel
  exact ⟨run, by decide +kernel, divides, room, allowed options room⟩

end Grid

end JazzGrammar
