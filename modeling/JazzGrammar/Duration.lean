/-
Durations: positive rational numbers of beats.
-/

import JazzGrammar.Fault

namespace JazzGrammar

/-- A positive number of beats. Two durations are equal when their values are. -/
@[ext]
structure Duration where
  value : Rat
  positive : 0 < value
deriving DecidableEq

namespace Duration

/-- A rational number is a duration when it is positive. -/
def ofRat (value : Rat) : Except Fault Duration :=
  if positive : 0 < value then .ok ⟨value, positive⟩ else .error (.duration .notPositive)

/-- The quotient of two whole numbers. -/
def ofQuotient (numerator denominator : Int) : Except Fault Duration :=
  if denominator = 0 then .error (.duration .zeroDenominator)
  else ofRat (numerator / denominator)

theorem half_positive {value : Rat} (positive : 0 < value) : 0 < value / 2 := by grind

theorem add_positive {left right : Rat} (leftPositive : 0 < left) (rightPositive : 0 < right) :
    0 < left + right := by grind

theorem part_positive {parts : Nat} (positive : 0 < parts) : 0 < 1 / (parts : Rat) := by
  rw [Rat.div_def, Rat.one_mul]
  exact Rat.inv_pos.2 (Rat.natCast_pos.2 positive)

def one : Duration := ⟨1, by decide +kernel⟩

/-- One part of a beat that is divided evenly. -/
def part (parts : Nat) (positive : 0 < parts) : Duration :=
  ⟨1 / parts, part_positive positive⟩

def half (duration : Duration) : Duration :=
  ⟨duration.value / 2, half_positive duration.positive⟩

def add (left right : Duration) : Duration :=
  ⟨left.value + right.value, add_positive left.positive right.positive⟩

@[simp]
theorem value_one : one.value = 1 := rfl

@[simp]
theorem value_half (duration : Duration) : duration.half.value = duration.value / 2 := rfl

@[simp]
theorem value_add (left right : Duration) : (left.add right).value = left.value + right.value := rfl

@[simp]
theorem value_part (parts : Nat) (positive : 0 < parts) :
    (part parts positive).value = 1 / (parts : Rat) := rfl

/-- Scaling fails when the factor is not positive. -/
def scale (duration : Duration) (factor : Rat) : Except Fault Duration :=
  ofRat (duration.value * factor)

/-- The number of slots that a duration fills, at a number of slots a beat. -/
def slots? (duration : Duration) (perBeat : Nat) : Option Nat :=
  let slots := duration.value * perBeat
  if slots.den = 1 then some slots.num.toNat else none

/-- The sum, zero for no durations. -/
def total (durations : List Duration) : Rat :=
  durations.foldl (fun sum duration => sum + duration.value) 0

/-- The least number of slots a beat at which all durations fill whole slots. -/
def commonSubdivision (durations : List Duration) : Nat :=
  durations.foldl (fun subdivision duration => subdivision.lcm duration.value.den) 1

/-- The order of durations by length. -/
def compare (left right : Duration) : Ordering :=
  if left.value < right.value then .lt
  else if left.value = right.value then .eq
  else .gt

/-- The durations in ascending order. -/
def sort (durations : List Duration) : List Duration :=
  durations.mergeSort fun left right => left.compare right != .gt

end Duration

end JazzGrammar
