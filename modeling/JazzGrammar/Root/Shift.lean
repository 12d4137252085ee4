/-
Shifts by words of 32 bits with a sign, whose sums have to be such words.
-/

import JazzGrammar.Fault
import JazzGrammar.Root

namespace JazzGrammar.Root

/-- The sum of two words. The program stops when a word cannot hold it. -/
def addWords (first second : Int) : Except Fault Int :=
  let sum := first + second
  if -2147483648 ≤ sum ∧ sum ≤ 2147483647 then .ok sum else .error (.stopped .overflow)

/-- Moving by degrees and semitones, each added to the root in a word. -/
def checkedShift (root : Root) (degreeSteps semitoneSteps : Int32) : Except Fault Root := do
  let steps ← addWords root.degree.val degreeSteps.toInt
  let pitch ← addWords (natural root.degree) root.accidental
  let target ← addWords (pitch % 12) semitoneSteps.toInt
  let degree : Fin 7 := ⟨(steps % 7).toNat, by omega⟩
  return ⟨degree, foldAccidental (target % 12 - natural degree)⟩

end JazzGrammar.Root
