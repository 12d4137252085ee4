/-
Merging of equal neighbours keeps what sounds and agrees with concatenation.
-/

import JazzGrammar.Proofs.Timeline
import Mathlib.Data.List.Chain
import Mathlib.Data.List.Forall2

namespace JazzGrammar

theorem Duration.add_assoc (first second third : Duration) :
    (first.add second).add third = first.add (second.add third) := by
  ext
  simp only [value_add, Rat.add_assoc]

namespace Progression

/-- A chord in front of merged chords joins the first of them when both are equal. -/
def fuse (first : TimedChord) : Progression → Progression
  | [] => [first]
  | next :: later =>
    if first.chord = next.chord then ⟨first.chord, first.duration.add next.duration⟩ :: later
    else first :: next :: later

/-- A slot behind merged chords makes the last of them longer when both hold the same chord. -/
def extend (merged : Progression) (slot : TimedChord) : Progression :=
  match merged.getLast? with
  | none => [slot]
  | some last =>
    if last.chord = slot.chord then
      merged.dropLast ++ [⟨last.chord, last.duration.add slot.duration⟩]
    else
      merged ++ [slot]

/-- No two neighbours have the same chord. -/
def Merged (progression : Progression) : Prop :=
  progression.IsChain fun left right => left.chord ≠ right.chord

/-- A group of equal chords that sounds like one chord. -/
structure SoundsAs (group : Progression) (timed : TimedChord) : Prop where
  nonempty : group ≠ []
  chord : ∀ member ∈ group, member.chord = timed.chord
  total : group.total = timed.duration.value

/-- The maximal groups of equal neighbours are replaced by single chords of the summed durations. -/
def MergesTo (progression merged : Progression) : Prop :=
  merged.Merged ∧ ∃ groups : List Progression, groups.flatten = progression ∧
    List.Forall₂ SoundsAs groups merged

theorem mergeRuns_cons (first : TimedChord) (rest : Progression) :
    mergeRuns (first :: rest) = fuse first (mergeRuns rest) := by
  rw [mergeRuns]
  cases mergeRuns rest <;> rfl

theorem fuse_same (chord : Chord) (first second : Duration) (later : Progression) :
    fuse ⟨chord, first⟩ (⟨chord, second⟩ :: later) = ⟨chord, first.add second⟩ :: later :=
  if_pos rfl

theorem fuse_other {first next : TimedChord} (other : first.chord ≠ next.chord)
    (later : Progression) : fuse first (next :: later) = first :: next :: later :=
  if_neg other

theorem Merged.fuse {first : TimedChord} {rest : Progression} (merged : Merged rest) :
    Merged (fuse first rest) := by
  cases rest with
  | nil => exact List.isChain_singleton _
  | cons next later =>
    by_cases same : first.chord = next.chord
    · rw [Progression.fuse, if_pos same, Merged]
      cases later with
      | nil => exact List.isChain_singleton _
      | cons other final =>
        rw [Merged, List.isChain_cons_cons] at merged
        rw [List.isChain_cons_cons]
        exact ⟨same ▸ merged.1, merged.2⟩
    · rw [fuse_other same, Merged, List.isChain_cons_cons]
      exact ⟨same, merged⟩

theorem merged_mergeRuns (progression : Progression) : Merged progression.mergeRuns := by
  induction progression with
  | nil => exact List.isChain_nil
  | cons first rest ih =>
    rw [mergeRuns_cons]
    exact ih.fuse

theorem Merged.mergeRuns {progression : Progression} (merged : Merged progression) :
    progression.mergeRuns = progression := by
  induction progression with
  | nil => rfl
  | cons first rest ih =>
    rw [mergeRuns_cons, ih merged.tail]
    cases rest with
    | nil => rfl
    | cons next later => exact fuse_other (List.isChain_cons_cons.1 merged).1 later

theorem total_fuse (first : TimedChord) (rest : Progression) :
    (fuse first rest).total = first.duration.value + rest.total := by
  cases rest with
  | nil => rw [fuse, total_cons]
  | cons next later =>
    by_cases same : first.chord = next.chord
    · rw [fuse, if_pos same, total_cons, total_cons, Duration.value_add, add_assoc]
    · rw [fuse_other same, total_cons]

/-- Merging keeps the total duration. -/
theorem total_mergeRuns (progression : Progression) :
    progression.mergeRuns.total = progression.total := by
  induction progression with
  | nil => rfl
  | cons first rest ih => rw [mergeRuns_cons, total_fuse, ih, total_cons]

/-- A chord in front of an unmerged list joins the groups one after the other. It may meet two equal
ones, and then the durations are added in another order. -/
theorem mergeRuns_fuse_append (first : TimedChord) (rest after : Progression) :
    mergeRuns (fuse first rest ++ after) = fuse first (mergeRuns (rest ++ after)) := by
  cases rest with
  | nil => exact mergeRuns_cons first after
  | cons next later =>
    obtain ⟨chord, firstDuration⟩ := first
    obtain ⟨other, nextDuration⟩ := next
    by_cases same : chord = other
    · obtain rfl := same
      rw [fuse_same, List.cons_append, List.cons_append, mergeRuns_cons, mergeRuns_cons]
      cases mergeRuns (later ++ after) with
      | nil => exact (fuse_same ..).symm
      | cons third final =>
        obtain ⟨last, thirdDuration⟩ := third
        by_cases again : chord = last
        · obtain rfl := again
          rw [fuse_same, fuse_same, fuse_same, Duration.add_assoc]
        · rw [fuse_other again, fuse_other again, fuse_same]
    · rw [fuse_other same, List.cons_append, mergeRuns_cons]

/-- Merging the parts first changes nothing. -/
theorem mergeRuns_append (left right : Progression) :
    mergeRuns (left ++ right) = mergeRuns (mergeRuns left ++ mergeRuns right) := by
  induction left with
  | nil => exact (merged_mergeRuns right).mergeRuns.symm
  | cons first rest ih =>
    rw [List.cons_append, mergeRuns_cons, mergeRuns_cons, mergeRuns_fuse_append, ih]

theorem mergeRuns_append_congr {left right left' right' : Progression}
    (before : left.mergeRuns = left'.mergeRuns) (after : right.mergeRuns = right'.mergeRuns) :
    (left ++ right).mergeRuns = (left' ++ right').mergeRuns := by
  rw [mergeRuns_append, before, after, ← mergeRuns_append]

/-- A progression starts with the chord that was put in front of it. -/
theorem chord_of_head?_fuse {first next : TimedChord} {rest : Progression}
    (starts : (fuse first rest).head? = some next) : next.chord = first.chord := by
  cases rest with
  | nil => rw [← Option.some.inj starts]
  | cons second later =>
    rw [fuse] at starts
    split at starts <;> rw [← Option.some.inj starts]

/-- Merged progressions meet in one place, where the last chord of the first one is put in front of
the second one. -/
theorem mergeRuns_merged_append {front other : Progression} {last : TimedChord}
    (merged : Merged (front ++ [last])) (otherMerged : Merged other) :
    mergeRuns (front ++ [last] ++ other) = front ++ fuse last other := by
  obtain ⟨frontMerged, _, turn⟩ := List.isChain_append.1 merged
  have whole : Merged (front ++ fuse last other) := by
    refine List.isChain_append.2 ⟨frontMerged, otherMerged.fuse, fun before ends next starts => ?_⟩
    rw [chord_of_head?_fuse starts]
    exact turn before ends last rfl
  have met : mergeRuns ([last] ++ other) = mergeRuns (fuse last other) := by
    rw [otherMerged.fuse.mergeRuns, List.singleton_append, mergeRuns_cons, otherMerged.mergeRuns]
  rw [List.append_assoc, mergeRuns_append_congr rfl met, whole.mergeRuns]

theorem extend_concat (front : Progression) (last slot : TimedChord) :
    extend (front ++ [last]) slot = front ++ fuse last [slot] := by
  rw [extend, List.getLast?_concat]
  dsimp only
  by_cases same : last.chord = slot.chord
  · rw [if_pos same, List.dropLast_concat, fuse, if_pos same]
  · rw [if_neg same, fuse_other same, List.append_assoc, List.singleton_append]

theorem mergeRuns_concat (slots : Progression) (slot : TimedChord) :
    mergeRuns (slots ++ [slot]) = extend slots.mergeRuns slot := by
  have single : Merged [slot] := List.isChain_singleton _
  rw [mergeRuns_append, single.mergeRuns]
  cases List.eq_nil_or_concat slots.mergeRuns with
  | inl empty => rw [empty, List.nil_append, single.mergeRuns, extend, List.getLast?_nil]
  | inr shape =>
    obtain ⟨front, last, shape⟩ := shape
    have merged := merged_mergeRuns slots
    rw [shape, List.concat_eq_append] at merged ⊢
    rw [mergeRuns_merged_append merged single, extend_concat]

/-- Merging can go through the list from its start, one slot after the other. -/
theorem mergeRuns_eq_foldl (slots : Progression) : slots.mergeRuns = slots.foldl extend [] := by
  induction slots using List.reverseRecOn with
  | nil => rfl
  | append_singleton front slot ih =>
    rw [mergeRuns_concat, List.foldl_append, List.foldl_cons, List.foldl_nil, ih]

/-- Lists that agree part by part agree as a whole. -/
theorem mergeRuns_flatMap_congr {α : Type} {f g : α → Progression} {parts : List α}
    (agree : ∀ part ∈ parts, (f part).mergeRuns = (g part).mergeRuns) :
    mergeRuns (parts.flatMap f) = mergeRuns (parts.flatMap g) := by
  induction parts with
  | nil => rfl
  | cons first rest ih =>
    obtain ⟨one, others⟩ := List.forall_mem_cons.1 agree
    rw [List.flatMap_cons, List.flatMap_cons]
    exact mergeRuns_append_congr one (ih others)

/-- A chord that is repeated sounds like one chord of the whole duration. -/
theorem mergeRuns_replicate {count : Nat} (positive : 0 < count) (chord : Chord)
    {duration whole : Duration} (sum : whole.value = count * duration.value) :
    mergeRuns (List.replicate count ⟨chord, duration⟩) = [⟨chord, whole⟩] := by
  induction count, positive using Nat.le_induction generalizing whole with
  | base =>
    obtain rfl : duration = whole := Duration.ext (by rw [sum]; ring)
    rfl
  | succ count positive ih =>
    let rest : Duration :=
      ⟨count * duration.value, mul_pos (Nat.cast_pos.2 positive) duration.positive⟩
    have merged : mergeRuns (List.replicate count ⟨chord, duration⟩) = [⟨chord, rest⟩] := ih rfl
    rw [List.replicate_succ, mergeRuns_cons, merged, fuse_same]
    congr 2
    ext
    rw [Duration.value_add, sum]
    push_cast
    ring

theorem SoundsAs.cons {first : TimedChord} {group : Progression} {timed : TimedChord}
    (sounds : SoundsAs group timed) (same : first.chord = timed.chord) :
    SoundsAs (first :: group) ⟨first.chord, first.duration.add timed.duration⟩ where
  nonempty := List.cons_ne_nil _ _
  chord := List.forall_mem_cons.2
    ⟨rfl, fun member inside => (sounds.chord member inside).trans same.symm⟩
  total := by rw [total_cons, sounds.total, Duration.value_add]

theorem soundsAs_singleton (timed : TimedChord) : SoundsAs [timed] timed where
  nonempty := List.cons_ne_nil _ _
  chord := by simp
  total := by rw [total_cons, total_nil, add_zero]

/-- The computed merge replaces exactly the maximal groups. -/
theorem mergesTo_mergeRuns (progression : Progression) :
    MergesTo progression progression.mergeRuns := by
  refine ⟨merged_mergeRuns progression, ?_⟩
  induction progression with
  | nil => exact ⟨[], rfl, .nil⟩
  | cons first rest ih =>
    obtain ⟨groups, whole, sounds⟩ := ih
    rw [mergeRuns_cons]
    cases shape : mergeRuns rest with
    | nil =>
      rw [shape, List.forall₂_nil_right_iff] at sounds
      obtain rfl := sounds
      exact ⟨[[first]], by rw [← whole]; rfl, .cons (soundsAs_singleton first) .nil⟩
    | cons next later =>
      rw [shape] at sounds
      by_cases same : first.chord = next.chord
      · obtain ⟨group, others, one, remaining, rfl⟩ := List.forall₂_cons_right_iff.1 sounds
        rw [fuse, if_pos same]
        exact ⟨(first :: group) :: others, by rw [← whole]; rfl, .cons (one.cons same) remaining⟩
      · rw [fuse_other same]
        exact ⟨[first] :: groups, by rw [← whole]; rfl, .cons (soundsAs_singleton first) sounds⟩

end Progression

end JazzGrammar
