/-
Parts of lists: fronts that pass a test, members and slices in the middle, and members that stand
alone in what they are tested for.
-/

import Mathlib.Data.List.Nodup
import Mathlib.Data.List.TakeWhile

namespace JazzGrammar

section Front

variable {α : Type} {test : α → Bool} {front rest : List α}

/-- Members that pass a test are taken up to the first one that does not. -/
theorem takeWhile_front (passes : ∀ member ∈ front, test member = true)
    (stops : rest.head?.any test = false) : (front ++ rest).takeWhile test = front := by
  rw [List.takeWhile_append_of_pos passes]
  cases rest with
  | nil => rw [List.takeWhile_nil, List.append_nil]
  | cons first later =>
    rw [List.takeWhile_cons_of_neg (by simpa using stops), List.append_nil]

theorem dropWhile_front (passes : ∀ member ∈ front, test member = true)
    (stops : rest.head?.any test = false) : (front ++ rest).dropWhile test = rest := by
  rw [List.dropWhile_append_of_pos passes]
  cases rest with
  | nil => rfl
  | cons first later => exact List.dropWhile_cons_of_neg (by simpa using stops)

/-- What is left behind the members that pass starts with one that does not. -/
theorem stops_dropWhile (test : α → Bool) (values : List α) :
    (values.dropWhile test).head?.any test = false := by
  have failed := List.head?_dropWhile_not test values
  cases first : (values.dropWhile test).head? with
  | none => rfl
  | some value => rwa [first] at failed

/-- A list has one front of members that pass a test. -/
theorem front_unique {otherFront otherRest : List α} (passes : ∀ member ∈ front, test member = true)
    (stops : rest.head?.any test = false)
    (otherPasses : ∀ member ∈ otherFront, test member = true)
    (otherStops : otherRest.head?.any test = false)
    (same : front ++ rest = otherFront ++ otherRest) : front = otherFront ∧ rest = otherRest := by
  constructor
  · rw [← takeWhile_front passes stops, same, takeWhile_front otherPasses otherStops]
  · rw [← dropWhile_front passes stops, same, dropWhile_front otherPasses otherStops]

end Front

/-- A member stands between the members in front of it and those behind it. -/
theorem exists_around {α : Type} {values : List α} {index : Nat} {value : α}
    (found : values[index]? = some value) :
    ∃ front behind, values = front ++ value :: behind ∧ front.length = index := by
  obtain ⟨inside, rfl⟩ := List.getElem?_eq_some_iff.1 found
  refine ⟨values.take index, values.drop (index + 1), ?_, List.length_take_of_le inside.le⟩
  rw [List.getElem_cons_drop inside, List.take_append_drop]

/-- A slice between two others is found by their lengths. -/
theorem extract_middle {α : Type} (left middle right : List α) :
    (left ++ middle ++ right).extract left.length (left.length + middle.length) = middle := by
  rw [List.extract_eq_take_drop, Nat.add_sub_cancel_left, List.append_assoc, List.drop_left,
    List.take_left]

/-- Where no two members are duplicates of each other, none is erased. -/
theorem eraseDupsBy_eq_self {α : Type} {r : α → α → Bool} {values : List α}
    (distinct : values.Pairwise fun first later => r later first = false) :
    values.eraseDupsBy r = values := by
  induction values with
  | nil => rfl
  | cons first rest ih =>
    obtain ⟨others, behind⟩ := List.pairwise_cons.1 distinct
    have kept : (rest.filter fun other => r other first = false) = rest := by
      rw [List.filter_eq_self]
      intro other member
      simpa using others other member
    rw [List.eraseDupsBy_cons, kept, ih behind]

/-- A list of lists to which one member alone contributes. -/
theorem flatMap_eq_of_unique {α β : Type} {values : List α} {value : α} {parts : α → List β}
    (nodup : values.Nodup) (member : value ∈ values)
    (others : ∀ other ∈ values, other ≠ value → parts other = []) :
    values.flatMap parts = parts value := by
  obtain ⟨front, behind, rfl⟩ := List.append_of_mem member
  obtain ⟨fresh, _⟩ := List.nodup_cons.1 (List.nodup_middle.1 nodup)
  have nothing (other : α) (inside : other ∈ front ++ behind) : parts other = [] := by
    apply others other
    · rw [List.mem_append] at inside
      exact List.mem_append.2 (inside.imp_right (List.mem_cons_of_mem value))
    · intro same
      exact fresh (same ▸ inside)
  have before : front.flatMap parts = [] :=
    List.flatMap_eq_nil_iff.2 fun other inside => nothing other (List.mem_append_left _ inside)
  have after : behind.flatMap parts = [] :=
    List.flatMap_eq_nil_iff.2 fun other inside => nothing other (List.mem_append_right _ inside)
  rw [List.flatMap_append, List.flatMap_cons, before, after, List.nil_append, List.append_nil]

end JazzGrammar
