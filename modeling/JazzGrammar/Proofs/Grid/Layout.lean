/-
Laid out bars are read back beat by beat.
-/

import JazzGrammar.Grid.Reader
import JazzGrammar.Proofs.Token

namespace JazzGrammar.Grid

/-- The symbols of a beat stand between commas. -/
def beatText (beat : List Chord) : Text :=
  Text.join [','] (beat.map Chord.write)

/-- What stands between the lines of a bar: its beats between slashes. -/
def barBody (bar : List (List Chord)) : Text :=
  [' '] ++ Text.join [' ', '/', ' '] (bar.map beatText) ++ [' ']

/-- One bar stands on each line. -/
def layout (bars : List (List (List Chord))) : Text :=
  Text.join ['\n'] (bars.map fun bar => '|' :: barBody bar ++ ['|'])

/-- The bars of two layouts stand on the lines of both. -/
theorem layout_append {front back : List (List (List Chord))} (frontNonempty : front ≠ [])
    (backNonempty : back ≠ []) : layout (front ++ back) = layout front ++ '\n' :: layout back := by
  rw [layout, List.map_append, Text.join_append _ (by simpa using frontNonempty)
    (by simpa using backNonempty), List.append_assoc]
  rfl

theorem mem_beatText {beat : List Chord} {char : Char} (member : char ∈ beatText beat) :
    char ∈ [',', '#', 'b', 'I', 'V', 'm', '7', '°'] := by
  rcases Text.mem_join member with comma | ⟨symbol, inside, letter⟩
  · rw [List.mem_singleton.1 comma]
    exact List.mem_cons_self
  · obtain ⟨chord, _, rfl⟩ := List.mem_map.1 inside
    exact List.mem_cons_of_mem _ (Chord.mem_write letter)

theorem mem_barBody {bar : List (List Chord)} {char : Char} (member : char ∈ barBody bar) :
    char ∈ [' ', '/', ',', '#', 'b', 'I', 'V', 'm', '7', '°'] := by
  rw [barBody, List.mem_append, List.mem_append] at member
  rcases member with (blank | inside) | blank
  · rw [List.mem_singleton.1 blank]
    exact List.mem_cons_self
  · rcases Text.mem_join inside with between | ⟨text, member, letter⟩
    · have signs : [' ', '/', ' '] ⊆ [' ', '/', ',', '#', 'b', 'I', 'V', 'm', '7', '°'] := by
        decide
      exact signs between
    · obtain ⟨beat, _, rfl⟩ := List.mem_map.1 member
      exact List.mem_cons_of_mem _ (List.mem_cons_of_mem _ (mem_beatText letter))
  · rw [List.mem_singleton.1 blank]
    exact List.mem_cons_self

theorem line_notMem_barBody (bar : List (List Chord)) : '|' ∉ barBody bar :=
  fun member => absurd (mem_barBody member) (by decide)

/-- A beat with blanks around it is read back. -/
theorem readBeat_beatText {beat : List Chord} (nonempty : beat ≠ []) (bar number : Nat) :
    readBeat bar number ([' '] ++ beatText beat ++ [' ']) = .ok beat := by
  have comma : ∀ symbol ∈ beat.map Chord.write, ',' ∉ symbol := by
    intro symbol member inside
    obtain ⟨chord, _, rfl⟩ := List.mem_map.1 member
    exact absurd (Chord.mem_write inside) (by decide)
  have solid : ∀ symbol ∈ beat.map Chord.write, Text.Solid symbol := by
    intro symbol member
    obtain ⟨chord, _, rfl⟩ := List.mem_map.1 member
    exact chord.solid_write
  have parts : (([' '] ++ beatText beat ++ [' ']).splitOn ',').map Text.trim =
      beat.map Chord.write :=
    Text.map_trim_splitOn (by simpa using nonempty) rfl rfl rfl solid comma
  have visible : Text.allBlank ([' '] ++ beatText beat ++ [' ']) = false := by
    obtain ⟨chord, rest, rfl⟩ := List.exists_cons_of_ne_nil nonempty
    obtain ⟨letter, others, shape⟩ := List.exists_cons_of_ne_nil chord.write_ne_nil
    have inside : letter ∈ beatText (chord :: rest) := by
      rw [beatText, List.map_cons, shape]
      cases rest with
      | nil => rw [List.map_nil, Text.join_singleton]; exact List.mem_cons_self
      | cons next later => rw [List.map_cons, Text.join_cons_cons]; simp
    rw [Text.allBlank, List.all_eq_false]
    refine ⟨letter, by simp [inside], ?_⟩
    simp [chord.solid_write letter (shape ▸ List.mem_cons_self)]
  have filled : (beat.map Chord.write).any List.isEmpty = false := by
    simp [Chord.write_ne_nil]
  rw [readBeat, parts, visible, filled]
  exact mapM_written fun chord _ => chord.read_write

/-- A bar is cut into its beats with the blanks around them. -/
theorem splitOn_barBody {bar : List (List Chord)} (nonempty : bar ≠ []) :
    (barBody bar).splitOn '/' = bar.map fun beat => [' '] ++ beatText beat ++ [' '] := by
  have padded := Text.padded_join (by simpa using nonempty : bar.map beatText ≠ [])
    [' '] ['/'] [' ']
  rw [barBody, show [' ', '/', ' '] = [' '] ++ ['/'] ++ [' '] from rfl, padded, Text.join,
    List.splitOn_intercalate, List.map_map]
  · rfl
  · intro text member inside
    obtain ⟨symbols, written, rfl⟩ := List.mem_map.1 member
    obtain ⟨beat, _, rfl⟩ := List.mem_map.1 written
    simp only [List.mem_append, List.mem_singleton] at inside
    rcases inside with (blank | letter) | blank
    · exact absurd blank (by decide)
    · exact absurd (mem_beatText letter) (by decide)
    · exact absurd blank (by decide)
  · simpa using nonempty

/-- A bar with the demanded number of beats is read back. -/
theorem readBar_barBody {options : Options} {bar : List (List Chord)} (nonempty : bar ≠ [])
    (size : bar.length = options.beatsPerBar.toNat) (filled : ∀ beat ∈ bar, beat ≠ [])
    (number : Nat) : readBar options number (barBody bar) = .ok bar := by
  rw [readBar, splitOn_barBody nonempty]
  simp only [List.length_map, size, ne_eq, not_true_eq_false, if_false]
  exact mapM_zipIdx_written (fun beat member beatNumber =>
    readBeat_beatText (filled beat member) number beatNumber) 1

/-- Every other piece between bar lines is the body of a bar. -/
theorem barsOf?_layout (outside : Text) (blank : Text.allBlank outside = true)
    (absent : '|' ∉ outside) {bars : List (List (List Chord))} (nonempty : bars ≠ []) :
    barsOf? ((outside ++ layout bars).splitOn '|') = some (bars.map barBody) := by
  induction bars generalizing outside with
  | nil => contradiction
  | cons bar rest ih =>
    have cut (after : Text) : (outside ++ ('|' :: barBody bar ++ ['|'] ++ after)).splitOn '|' =
        outside :: barBody bar :: after.splitOn '|' := by
      have shape : outside ++ ('|' :: barBody bar ++ ['|'] ++ after) =
          outside ++ '|' :: (barBody bar ++ '|' :: after) := by simp
      rw [shape, List.splitOn_append_cons_self_of_not_mem absent,
        List.splitOn_append_cons_self_of_not_mem (line_notMem_barBody bar)]
    cases rest with
    | nil =>
      have last := cut []
      rw [List.append_nil] at last
      rw [layout, List.map_singleton, Text.join_singleton, last, barsOf?, if_pos blank]
      rfl
    | cons next later =>
      have more := ih ['\n'] rfl (by decide) (List.cons_ne_nil _ _)
      rw [layout, List.map_cons, List.map_cons] at more
      rw [layout, List.map_cons, List.map_cons, Text.join_cons_cons,
        List.append_assoc _ _ (Text.join _ _), cut, barsOf?, if_pos blank, more]
      rfl

/-- The layout of some bars is not blank. -/
theorem allBlank_layout {bars : List (List (List Chord))} (nonempty : bars ≠ []) :
    Text.allBlank (layout bars) = false := by
  obtain ⟨bar, rest, rfl⟩ := List.exists_cons_of_ne_nil nonempty
  rw [Text.allBlank, List.all_eq_false]
  refine ⟨'|', ?_, by decide⟩
  cases rest with
  | nil => rw [layout, List.map_singleton, Text.join_singleton]; simp
  | cons next later => rw [layout, List.map_cons, List.map_cons, Text.join_cons_cons]; simp

/-- Bars of the demanded size are read back. -/
theorem readBeats_layout {options : Options} (checked : options.check = .ok ())
    {bars : List (List (List Chord))} (nonempty : bars ≠ [])
    (size : ∀ bar ∈ bars, bar.length = options.beatsPerBar.toNat)
    (filled : ∀ bar ∈ bars, bar ≠ [] ∧ ∀ beat ∈ bar, beat ≠ []) :
    readBeats options (layout bars) = .ok bars.flatten := by
  have found := barsOf?_layout [] rfl (by decide) nonempty
  have read : (((bars.map barBody).zipIdx 1).mapM fun entry =>
      readBar options entry.2 entry.1) = .ok bars := by
    apply mapM_zipIdx_written
    intro bar member number
    exact readBar_barBody (filled bar member).1 (size bar member) (filled bar member).2 number
  rw [List.nil_append] at found
  rw [readBeats, allBlank_layout nonempty, checked, Grid.bars, found]
  simp only [bind, Except.bind, read]
  rfl

end JazzGrammar.Grid
