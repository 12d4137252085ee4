/-
Steps at places that do not overlap do not disturb each other, in whichever order they are taken.
-/

import JazzGrammar.Proofs.Listing

namespace JazzGrammar

namespace Step

/-- The number of chords by which a step makes a progression longer. -/
def growth (step : Step) : Int :=
  step.replacement.length - (step.stop - step.start)

/-- The same rewrite of the same chords, at a place that is a number of chords further on. -/
structure ShiftedBy (amount : Int) (step moved : Step) : Prop where
  rule : moved.rule = step.rule
  start : (moved.start : Int) = step.start + amount
  stop : (moved.stop : Int) = step.stop + amount
  span : moved.span = step.span
  replacement : moved.replacement = step.replacement

/-- Two places in one progression with the chords between them. -/
structure Apart (one : Step) (between : Progression) (other : Step) : Prop where
  left : other.left = one.left ++ one.span ++ between
  right : one.right = between ++ other.span ++ other.right

/-- The second of two steps apart, once the first one is taken. -/
def afterLeft (one : Step) (between : Progression) (other : Step) : Step :=
  { other with left := one.left ++ one.replacement ++ between }

/-- The first of two steps apart, once the second one is taken. -/
def afterRight (one : Step) (between : Progression) (other : Step) : Step :=
  { one with right := between ++ other.replacement ++ other.right }

variable {progression between : Progression} {one other : Step}

/-- Places that do not overlap are apart. They may touch. -/
theorem exists_apart (oneMember : one ∈ progression.steps) (otherMember : other ∈ progression.steps)
    (before : one.stop ≤ other.start) : ∃ between, Apart one between other := by
  obtain ⟨oneShape, _⟩ := Progression.mem_steps_iff.1 oneMember
  obtain ⟨otherShape, _⟩ := Progression.mem_steps_iff.1 otherMember
  have onePrefix : one.left ++ one.span <+: progression := ⟨one.right, oneShape.symm⟩
  have otherPrefix : other.left <+: progression :=
    ⟨other.span ++ other.right, by rw [otherShape, List.append_assoc]⟩
  obtain ⟨between, left⟩ : one.left ++ one.span <+: other.left :=
    List.prefix_of_prefix_length_le onePrefix otherPrefix (by simpa [stop, start] using before)
  refine ⟨between, left.symm, ?_⟩
  rw [oneShape, ← left] at otherShape
  simpa using otherShape

/-- A step to the left stays in its place. -/
theorem shiftedBy_zero (one : Step) (between : Progression) (other : Step) :
    one.ShiftedBy 0 (afterRight one between other) where
  rule := rfl
  start := (add_zero _).symm
  stop := (add_zero _).symm
  span := rfl
  replacement := rfl

/-- The order of two steps apart does not matter. -/
theorem result_afterLeft (one : Step) (between : Progression) (other : Step) :
    (afterLeft one between other).result = (afterRight one between other).result := by
  simp [afterLeft, afterRight, result]

namespace Apart

/-- A step keeps every step to its right. -/
theorem afterLeft_mem (apart : Apart one between other) (member : other ∈ progression.steps) :
    afterLeft one between other ∈ one.result.steps := by
  obtain ⟨_, admits⟩ := Progression.mem_steps_iff.1 member
  refine Progression.mem_steps_iff.2 ⟨?_, admits⟩
  simp [afterLeft, result, apart.right]

/-- A step keeps every step to its left. -/
theorem afterRight_mem (apart : Apart one between other) (member : one ∈ progression.steps) :
    afterRight one between other ∈ other.result.steps := by
  obtain ⟨_, admits⟩ := Progression.mem_steps_iff.1 member
  refine Progression.mem_steps_iff.2 ⟨?_, admits⟩
  simp [afterRight, result, apart.left]

/-- A step to the right is shifted by the chords that were added. -/
theorem shiftedBy_growth (apart : Apart one between other) :
    other.ShiftedBy one.growth (afterLeft one between other) where
  rule := rfl
  start := by
    simp only [afterLeft, start, stop, growth, apart.left, List.length_append]
    omega
  stop := by
    simp only [afterLeft, start, stop, growth, apart.left, List.length_append]
    omega
  span := rfl
  replacement := rfl

end Apart

end Step

namespace Progression

/-- Two steps at places that do not overlap can be taken in either order. Each is still there after
the other one, the one to the right shifted by the chords that the one to the left adds, and both
orders end in the same progression. -/
theorem steps_independent (progression : Progression) (one other : Step)
    (oneMember : one ∈ progression.steps) (otherMember : other ∈ progression.steps)
    (before : one.stop ≤ other.start) :
    ∃ afterOne afterOther, ofTokens one.result.tokens = .ok afterOne ∧
      ofTokens other.result.tokens = .ok afterOther ∧
      ∃ later ∈ afterOne.steps, ∃ earlier ∈ afterOther.steps,
        other.ShiftedBy (one.replacement.length - (one.stop - one.start)) later ∧
        one.ShiftedBy 0 earlier ∧ later.result = earlier.result := by
  obtain ⟨between, apart⟩ := Step.exists_apart oneMember otherMember before
  refine ⟨one.result, other.result, ofTokens_tokens _, ofTokens_tokens _, ?_⟩
  exact ⟨_, apart.afterLeft_mem otherMember, _, apart.afterRight_mem oneMember,
    apart.shiftedBy_growth, Step.shiftedBy_zero one between other,
    Step.result_afterLeft one between other⟩

/-- A tonic is split in front of a dominant, and the dominant is replaced by its tritone substitute,
which then stands one chord further on. -/
theorem steps_independent_split_substitution :
    let tonic : TimedChord := .unit ⟨⟨0, 0⟩, .major⟩
    let half : TimedChord := ⟨tonic.chord, .half .one⟩
    let dominant : TimedChord := .unit ⟨⟨4, 0⟩, .dominantSeventh⟩
    let substitute : TimedChord := .unit ⟨⟨1, -1⟩, .dominantSeventh⟩
    let progression : Progression := [tonic, dominant, tonic]
    let split : Step := ⟨.split, [], [tonic], [half, half], [dominant, tonic]⟩
    let substitution : Step :=
      ⟨.tritoneSubstitution, [tonic], [dominant, tonic], [substitute, tonic], []⟩
    split ∈ progression.steps ∧ substitution ∈ progression.steps ∧
      split.stop ≤ substitution.start ∧
      ∃ later ∈ Progression.steps [half, half, dominant, tonic],
        ∃ earlier ∈ Progression.steps [tonic, substitute, tonic],
          substitution.ShiftedBy 1 later ∧ split.ShiftedBy 0 earlier ∧
            later.result = earlier.result := by
  intro tonic half dominant substitute progression split substitution
  have first : split ∈ progression.steps := mem_steps_iff.2 ⟨rfl, .split tonic rfl⟩
  have second : substitution ∈ progression.steps := by
    have admits := Rule.Admits.tritoneSubstitution dominant tonic rfl rfl (by decide)
    have root : tonic.chord.root.flatSupertonic = ⟨1, -1⟩ := by decide
    rw [root] at admits
    exact mem_steps_iff.2 ⟨rfl, admits⟩
  have before : split.stop ≤ substitution.start := by decide
  refine ⟨first, second, before, ?_⟩
  obtain ⟨afterOne, afterOther, readOne, readOther, later, laterMember, earlier, earlierMember,
    independent⟩ := steps_independent progression split substitution first second before
  rw [ofTokens_tokens] at readOne readOther
  obtain rfl := Except.ok.inj readOne
  obtain rfl := Except.ok.inj readOther
  exact ⟨later, laterMember, earlier, earlierMember, independent⟩

end Progression

end JazzGrammar
