/-
Shifting roots: shifts add up, they take nothing from a root whose accidental is the least one of
its pitch class, and each degree and pitch class has one such root, which every shift there finds.
-/

import JazzGrammar.Root

namespace JazzGrammar.Root

/-- The accidental is the one with which a shift spells the pitch class on this degree. -/
def Normal (root : Root) : Prop :=
  -6 < root.accidental ∧ root.accidental ≤ 6

instance (root : Root) : Decidable root.Normal :=
  inferInstanceAs (Decidable (_ ∧ _))

theorem foldAccidental_bounds (difference : Int) :
    -6 < foldAccidental difference ∧ foldAccidental difference ≤ 6 := by
  unfold foldAccidental
  dsimp only
  split <;> omega

theorem foldAccidental_emod (difference : Int) :
    foldAccidental difference % 12 = difference % 12 := by
  unfold foldAccidental
  dsimp only
  split <;> omega

theorem coe_stepDegree (degree : Fin 7) (steps : Int) :
    (stepDegree degree steps : Int) = (degree + steps) % 7 := by
  simp only [stepDegree]
  omega

theorem stepDegree_stepDegree (degree : Fin 7) (first second : Int) :
    stepDegree (stepDegree degree first) second = stepDegree degree (first + second) := by
  apply Fin.ext
  simp only [stepDegree]
  omega

@[simp]
theorem stepDegree_zero (degree : Fin 7) : stepDegree degree 0 = degree := by
  apply Fin.ext
  simp only [stepDegree]
  omega

@[simp]
theorem degree_shift (root : Root) (degrees semitones : Int) :
    (root.shift degrees semitones).degree = stepDegree root.degree degrees := rfl

theorem semitone_shift (root : Root) (degrees semitones : Int) :
    (root.shift degrees semitones).semitone = (root.semitone + semitones) % 12 := by
  have folded := foldAccidental_emod
    ((root.semitone + semitones) % 12 - natural (stepDegree root.degree degrees))
  rw [semitone, degree_shift]
  change (natural _ + foldAccidental _) % 12 = _
  omega

theorem normal_shift (root : Root) (degrees semitones : Int) :
    (root.shift degrees semitones).Normal :=
  foldAccidental_bounds _

/-- A normal root is known by its degree and its pitch class. -/
theorem Normal.eq_of_semitone {one other : Root} (oneNormal : one.Normal)
    (otherNormal : other.Normal) (degrees : one.degree = other.degree)
    (semitones : one.semitone = other.semitone) : one = other := by
  obtain ⟨degree, accidental⟩ := one
  obtain ⟨otherDegree, otherAccidental⟩ := other
  obtain rfl := degrees
  simp only [Normal, semitone, mk.injEq, true_and] at *
  omega

/-- A shift finds the one normal root of its degree and pitch class. -/
theorem shift_eq_iff {root other : Root} {degrees semitones : Int} :
    root.shift degrees semitones = other ↔ other.Normal ∧
      other.degree = stepDegree root.degree degrees ∧
        other.semitone = (root.semitone + semitones) % 12 := by
  constructor
  · intro same
    rw [← same]
    exact ⟨normal_shift root degrees semitones, rfl, semitone_shift root degrees semitones⟩
  · intro found
    obtain ⟨normal, degree, semitone⟩ := found
    apply Normal.eq_of_semitone (normal_shift root degrees semitones) normal
    · rw [degree_shift, degree]
    · rw [semitone_shift, semitone]

/-- One shift after another is a shift by both. -/
theorem shift_shift (root : Root) (degrees semitones moreDegrees moreSemitones : Int) :
    (root.shift degrees semitones).shift moreDegrees moreSemitones =
      root.shift (degrees + moreDegrees) (semitones + moreSemitones) := by
  apply Normal.eq_of_semitone (normal_shift _ _ _) (normal_shift _ _ _)
  · exact stepDegree_stepDegree _ _ _
  · rw [semitone_shift, semitone_shift, semitone_shift]
    omega

theorem shift_comm (root : Root) (degrees semitones otherDegrees otherSemitones : Int) :
    (root.shift degrees semitones).shift otherDegrees otherSemitones =
      (root.shift otherDegrees otherSemitones).shift degrees semitones := by
  rw [shift_shift, shift_shift, Int.add_comm degrees, Int.add_comm semitones]

theorem semitone_emod (root : Root) : root.semitone % 12 = root.semitone := by
  unfold semitone
  omega

/-- Shifted by nothing, exactly the normal roots stay. -/
theorem shift_zero_eq_self_iff {root : Root} : root.shift 0 0 = root ↔ root.Normal := by
  rw [shift_eq_iff, stepDegree_zero, Int.add_zero, semitone_emod]
  simp only [and_self, and_true]

theorem Normal.shift_zero {root : Root} (normal : root.Normal) : root.shift 0 0 = root :=
  shift_zero_eq_self_iff.2 normal

/-- Shifted by nothing, roots are spelled alike when they share their degree and pitch class. -/
theorem shift_zero_eq_shift_zero_iff {one other : Root} : one.shift 0 0 = other.shift 0 0 ↔
    one.degree = other.degree ∧ one.semitone = other.semitone := by
  rw [shift_eq_iff, degree_shift, semitone_shift]
  simp only [normal_shift, stepDegree_zero, Int.add_zero, semitone_emod, true_and]
  exact and_congr eq_comm eq_comm

/-- Moving by whole octaves only respells. -/
theorem shift_octaves (root : Root) (turns octaves : Int) :
    root.shift (7 * turns) (12 * octaves) = root.shift 0 0 := by
  rw [shift_eq_iff]
  refine ⟨normal_shift root 0 0, ?_, ?_⟩
  · apply Fin.ext
    simp only [degree_shift, stepDegree]
    omega
  · rw [semitone_shift]
    omega

/-- Normal roots that are shifted alike to one root are the same. -/
theorem Normal.shift_injective {one other : Root} (oneNormal : one.Normal)
    (otherNormal : other.Normal) {degrees semitones : Int}
    (same : one.shift degrees semitones = other.shift degrees semitones) : one = other := by
  have back := congrArg (fun root => root.shift (-degrees) (-semitones)) same
  simpa only [shift_shift, Int.add_right_neg, oneNormal.shift_zero,
    otherNormal.shift_zero] using back

/-- The flat supertonic and the dominant of a root stand on different degrees. -/
theorem flatSupertonic_ne_dominant (root : Root) : root.flatSupertonic ≠ root.dominant := by
  intro same
  have degrees : ∀ degree : Fin 7, stepDegree degree 1 ≠ stepDegree degree 4 := by decide
  exact degrees root.degree (congrArg Root.degree same)

/-- The flat supertonic and the dominant of a root lie a tritone apart. -/
theorem semitone_flatSupertonic_sub_dominant (root : Root) :
    (root.flatSupertonic.semitone - root.dominant.semitone) % 12 = 6 := by
  rw [flatSupertonic, dominant, semitone_shift, semitone_shift]
  omega

/-- The flat supertonic of a root lies half a step above it. -/
theorem semitone_flatSupertonic_sub (root : Root) :
    (root.flatSupertonic.semitone - root.semitone) % 12 = 1 := by
  rw [flatSupertonic, semitone_shift]
  omega

/-- Shifts are an action of degrees and semitones on the spellings, up to respelling. They add up,
each moves the degree around the scale and the pitch class around the octave and spells the result
with an accidental between -5 and 6, and the roots with such an accidental are those that a shift by
nothing keeps. It gives one spelling to each degree and pitch class, so that whole octaves, such as
a dominant and a subdominant make, do no more than respell. -/
theorem shift_action (root : Root) :
    (∀ degrees semitones moreDegrees moreSemitones : Int,
      (root.shift degrees semitones).shift moreDegrees moreSemitones =
        root.shift (degrees + moreDegrees) (semitones + moreSemitones)) ∧
    (∀ degrees semitones : Int,
      ((root.shift degrees semitones).degree : Int) = (root.degree + degrees) % 7 ∧
      (root.shift degrees semitones).semitone = (root.semitone + semitones) % 12 ∧
      -6 < (root.shift degrees semitones).accidental ∧
      (root.shift degrees semitones).accidental ≤ 6) ∧
    (root.shift 0 0 = root ↔ -6 < root.accidental ∧ root.accidental ≤ 6) ∧
    (∀ other : Root, root.shift 0 0 = other.shift 0 0 ↔
      root.degree = other.degree ∧ root.semitone = other.semitone) ∧
    (∀ turns octaves : Int, root.shift (7 * turns) (12 * octaves) = root.shift 0 0) ∧
    root.dominant.subdominant = root.shift 0 0 ∧ root.subdominant.dominant = root.shift 0 0 := by
  have octave : root.shift 7 12 = root.shift 0 0 := root.shift_octaves 1 1
  refine ⟨root.shift_shift, ?_, shift_zero_eq_self_iff, ?_, root.shift_octaves, ?_, ?_⟩
  · intro degrees semitones
    refine ⟨?_, root.semitone_shift degrees semitones, root.normal_shift degrees semitones⟩
    rw [degree_shift, coe_stepDegree]
  · intro other
    exact shift_zero_eq_shift_zero_iff
  · rw [dominant, subdominant, shift_shift]
    exact octave
  · rw [subdominant, dominant, shift_shift]
    exact octave

/-- Seven sharps on a tonic are respelled as five flats. -/
example : (⟨0, 7⟩ : Root).shift 0 0 = ⟨0, -5⟩ := by decide

end JazzGrammar.Root
