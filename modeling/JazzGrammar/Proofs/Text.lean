/-
Trimming and cutting of texts whose separators and blanks are known.
-/

import JazzGrammar.Proofs.Lists
import JazzGrammar.Text

namespace JazzGrammar

namespace Text

/-- A solid text holds no blanks. -/
def Solid (text : Text) : Prop :=
  ∀ char ∈ text, isBlank char = false

instance (text : Text) : Decidable (Solid text) :=
  decidable_of_iff (text.all fun char => !isBlank char) (by simp [Solid])

theorem Solid.append {left right : Text} (leftSolid : Solid left) (rightSolid : Solid right) :
    Solid (left ++ right) := by
  intro char member
  rcases List.mem_append.1 member with inside | inside
  · exact leftSolid char inside
  · exact rightSolid char inside

theorem Solid.cons {char : Char} {text : Text} (first : isBlank char = false)
    (rest : Solid text) : Solid (char :: text) :=
  List.forall_mem_cons.2 ⟨first, rest⟩

theorem Solid.reverse {text : Text} (solid : Solid text) : Solid text.reverse :=
  fun char member => solid char (List.mem_reverse.1 member)

/-- A solid text has no blanks to drop. -/
theorem dropWhile_solid {text : Text} (solid : Solid text) : text.dropWhile isBlank = text := by
  cases text with
  | nil => rfl
  | cons first rest => exact List.dropWhile_cons_of_neg (by simp [solid first (by simp)])

/-- Trimming the start ends at the first character that is not blank. -/
theorem trimStart_append {before after : Text} {first : Char} (blank : allBlank before = true)
    (solid : isBlank first = false) :
    trimStart (before ++ first :: after) = first :: after :=
  dropWhile_front (List.all_eq_true.1 blank) solid

/-- Blanks behind a text are trimmed from its end. -/
theorem trimEnd_append (text : Text) {after : Text} (blank : allBlank after = true) :
    trimEnd (text ++ after) = trimEnd text := by
  have reversed : allBlank after.reverse = true := by
    simpa only [allBlank, List.all_reverse] using blank
  rw [trimEnd, List.reverse_append, List.dropWhile_append_of_pos (List.all_eq_true.1 reversed),
    trimEnd]

/-- Blanks around a text make no difference to what trimming leaves. -/
theorem trim_append {before after : Text} (text : Text) (beforeBlank : allBlank before = true)
    (afterBlank : allBlank after = true) : trim (before ++ text ++ after) = trim text := by
  rw [trim, trimStart, List.append_assoc,
    List.dropWhile_append_of_pos (List.all_eq_true.1 beforeBlank), List.dropWhile_append]
  split
  · rename_i blank
    have nothing : text.dropWhile isBlank = [] := List.isEmpty_iff.1 blank
    have behind : after.dropWhile isBlank = [] :=
      List.dropWhile_eq_nil_iff.2 (List.all_eq_true.1 afterBlank)
    rw [behind, trim, trimStart, nothing]
  · exact trimEnd_append _ afterBlank

/-- A text whose first and last characters are not blank is left as it is. -/
theorem trim_enclosed {first last : Char} (middle : Text) (opens : isBlank first = false)
    (closes : isBlank last = false) :
    trim (first :: middle ++ [last]) = first :: middle ++ [last] := by
  have start : trimStart (first :: middle ++ [last]) = first :: middle ++ [last] :=
    List.dropWhile_cons_of_neg (by simp [opens])
  rw [trim, start, trimEnd, List.reverse_append, List.reverse_singleton, List.singleton_append,
    List.dropWhile_cons_of_neg (by simp [closes])]
  simp

/-- Trimming takes a solid text out of the blanks around it. -/
theorem trim_padded (before after : Text) {text : Text} (beforeBlank : allBlank before = true)
    (afterBlank : allBlank after = true) (solid : Solid text) :
    trim (before ++ text ++ after) = text := by
  rw [trim_append text beforeBlank afterBlank, trim, trimStart, dropWhile_solid solid, trimEnd,
    dropWhile_solid solid.reverse, List.reverse_reverse]

/-- The first character that is not blank is the first one of the trimmed text. -/
theorem head?_trim {before after : Text} {first : Char} (blank : allBlank before = true)
    (solid : isBlank first = false) :
    (trim (before ++ first :: after)).head? = some first := by
  rw [trim, trimStart_append blank solid, trimEnd, List.reverse_cons, List.dropWhile_append]
  split <;> simp [solid]

/-- Trimming leaves no blank in front. -/
theorem isBlank_of_head?_trim {text : Text} {first : Char}
    (starts : (trim text).head? = some first) : isBlank first = false := by
  have visible := List.head?_dropWhile_not isBlank text
  match shape : text.dropWhile isBlank with
  | [] =>
    rw [trim, trimStart, shape] at starts
    contradiction
  | front :: rest =>
    rw [shape] at visible
    have whole : text.takeWhile isBlank ++ front :: rest = text := by
      rw [← shape, List.takeWhile_append_dropWhile]
    have head := @head?_trim (text.takeWhile isBlank) rest front List.all_takeWhile visible
    rw [whole, starts] at head
    exact Option.some.inj head ▸ visible

theorem trim_solid {text : Text} (solid : Solid text) : trim text = text := by
  simpa using trim_padded [] [] rfl rfl solid

/-- Nothing is left of a blank text. -/
theorem trim_blank {text : Text} (blank : allBlank text = true) : trim text = [] := by
  have solid : Solid [] := fun _ member => nomatch member
  simpa using trim_padded text [] blank rfl solid

/-- A character that is not blank stands in no blank text. -/
theorem notMem_blank {char : Char} {text : Text} (solid : isBlank char = false)
    (blank : allBlank text = true) : char ∉ text := by
  intro member
  rw [List.all_eq_true.1 blank char member] at solid
  contradiction

/-- A text without the separator is not cut. -/
theorem cutFirst?_none {separator : Char} {text : Text} (absent : separator ∉ text) :
    cutFirst? separator text = none := by
  have dropped : text.dropWhile (· != separator) = [] := by
    rw [List.dropWhile_eq_nil_iff]
    intro char member
    simpa using fun same : char = separator => absent (same ▸ member)
  rw [cutFirst?, dropped]

/-- The first cut is at the first separator. -/
theorem cutFirst?_append {separator : Char} {before after : Text} (absent : separator ∉ before) :
    cutFirst? separator (before ++ separator :: after) = some (before, after) := by
  have differs : ∀ char ∈ before, (char != separator) = true := by
    intro char member
    simpa using fun same : char = separator => absent (same ▸ member)
  have stops : (separator :: after).head?.any (· != separator) = false := by simp
  rw [cutFirst?, dropWhile_front differs stops, takeWhile_front differs stops]

/-- A text that is cut was put together from its two parts. -/
theorem cutFirst?_eq_some {separator : Char} {text before after : Text} :
    cutFirst? separator text = some (before, after) ↔
      text = before ++ separator :: after ∧ separator ∉ before := by
  constructor
  · intro found
    have present : separator ∈ text := by
      by_contra absent
      rw [cutFirst?_none absent] at found
      contradiction
    obtain ⟨front, behind, rfl, absent⟩ := List.eq_append_cons_of_mem present
    rw [cutFirst?_append absent] at found
    obtain ⟨rfl, rfl⟩ := Prod.mk.inj (Option.some.inj found)
    exact ⟨rfl, absent⟩
  · rintro ⟨rfl, absent⟩
    exact cutFirst?_append absent

theorem cutLast?_none {separator : Char} {text : Text} (absent : separator ∉ text) :
    cutLast? separator text = none := by
  rw [cutLast?, cutFirst?_none (by simpa using absent)]
  rfl

/-- The last cut is at the last separator. -/
theorem cutLast?_append {separator : Char} {before after : Text} (absent : separator ∉ after) :
    cutLast? separator (before ++ separator :: after) = some (before, after) := by
  have reversed : (before ++ separator :: after).reverse =
      after.reverse ++ separator :: before.reverse := by simp
  rw [cutLast?, reversed, cutFirst?_append (by simpa using absent)]
  simp

/-- A character that is dropped passes the test. -/
theorem mem_dropWhile {test : Char → Bool} {text : Text} {char : Char} (member : char ∈ text) :
    test char = true ∨ char ∈ text.dropWhile test := by
  have whole : text.takeWhile test ++ text.dropWhile test = text :=
    List.takeWhile_append_dropWhile
  rw [← whole, List.mem_append] at member
  exact member.imp_left List.mem_takeWhile_imp

/-- Trimming loses nothing but blanks. -/
theorem mem_trim {text : Text} {char : Char} (member : char ∈ text) :
    isBlank char = true ∨ char ∈ trim text := by
  rcases mem_dropWhile member with blank | inside
  · exact .inl blank
  · exact (mem_dropWhile (List.mem_reverse.2 inside)).imp_right List.mem_reverse.2

/-- Only of a blank text nothing is left. -/
theorem trim_eq_nil {text : Text} : trim text = [] ↔ allBlank text = true := by
  constructor
  · intro nothing
    rw [allBlank, List.all_eq_true]
    intro char member
    exact (mem_trim member).resolve_right (by simp [nothing])
  · exact trim_blank

/-- The pieces between separators hold none. -/
theorem notMem_splitOn {separator : Char} {text piece : Text}
    (member : piece ∈ text.splitOn separator) : separator ∉ piece := by
  induction text generalizing piece with
  | nil =>
    rw [List.splitOn_nil, List.mem_singleton] at member
    exact member ▸ List.not_mem_nil
  | cons first rest ih =>
    rw [List.splitOn_cons_eq_if_modifyHead] at member
    split at member
    · rcases List.mem_cons.1 member with rfl | inside
      · exact List.not_mem_nil
      · exact ih inside
    · rename_i other
      obtain ⟨front, later, shape⟩ :=
        List.exists_cons_of_ne_nil (List.splitOn_ne_nil separator rest)
      rw [shape, List.modifyHead_cons] at member
      rw [shape] at ih
      rcases List.mem_cons.1 member with rfl | inside
      · rw [List.mem_cons, not_or]
        exact ⟨fun same => other (beq_iff_eq.2 same.symm), ih List.mem_cons_self⟩
      · exact ih (List.mem_cons_of_mem _ inside)

/-- A text with a separator is cut into several pieces. -/
theorem length_splitOn {separator : Char} {text : Text} :
    2 ≤ (text.splitOn separator).length ↔ separator ∈ text := by
  by_cases present : separator ∈ text
  · obtain ⟨front, behind, rfl, absent⟩ := List.eq_append_cons_of_mem present
    have pieces := List.length_pos_iff.2 (List.splitOn_ne_nil separator behind)
    rw [List.splitOn_append_cons_self_of_not_mem absent, List.length_cons]
    exact iff_of_true (by omega) present
  · rw [List.splitOn_eq_singleton present, List.length_singleton]
    exact iff_of_false (by decide) present

theorem join_singleton (separator part : Text) : join separator [part] = part :=
  List.intercalate_singleton

theorem join_cons_cons (separator first next : Text) (rest : List Text) :
    join separator (first :: next :: rest) = first ++ separator ++ join separator (next :: rest) :=
  List.intercalate_cons_cons

/-- Behind the first part every other one follows a separator. -/
theorem join_cons (separator first : Text) (rest : List Text) :
    join separator (first :: rest) = first ++ rest.flatMap (separator ++ ·) := by
  induction rest generalizing first with
  | nil => rw [join_singleton, List.flatMap_nil, List.append_nil]
  | cons next later ih =>
    rw [join_cons_cons, ih, List.flatMap_cons]
    simp only [List.append_assoc]

/-- Joined parts are joined by one more separator. -/
theorem join_append (separator : Text) {left right : List Text} (leftNonempty : left ≠ [])
    (rightNonempty : right ≠ []) :
    join separator (left ++ right) = join separator left ++ separator ++ join separator right := by
  obtain ⟨first, rest, rfl⟩ := List.exists_cons_of_ne_nil leftNonempty
  obtain ⟨next, later, rfl⟩ := List.exists_cons_of_ne_nil rightNonempty
  rw [List.cons_append, join_cons, join_cons, join_cons, List.flatMap_append, List.flatMap_cons]
  simp only [List.append_assoc]

/-- A character of joined parts stands in a part or in the separator. -/
theorem mem_join {separator : Text} {parts : List Text} {char : Char}
    (member : char ∈ join separator parts) : char ∈ separator ∨ ∃ part ∈ parts, char ∈ part := by
  induction parts with
  | nil => contradiction
  | cons first rest ih =>
    cases rest with
    | nil =>
      rw [join_singleton] at member
      exact .inr ⟨first, List.mem_cons_self, member⟩
    | cons next later =>
      rw [join_cons_cons, List.mem_append, List.mem_append] at member
      rcases member with (inside | between) | behind
      · exact .inr ⟨first, List.mem_cons_self, inside⟩
      · exact .inl between
      · rcases ih behind with between | ⟨part, later, inside⟩
        · exact .inl between
        · exact .inr ⟨part, List.mem_cons_of_mem _ later, inside⟩

/-- Cutting a text into pieces loses nothing but separators. -/
theorem exists_mem_splitOn {separator : Char} {text : Text} {char : Char} (member : char ∈ text) :
    char = separator ∨ ∃ piece ∈ text.splitOn separator, char ∈ piece := by
  have joined : join [separator] (text.splitOn separator) = text :=
    List.intercalate_splitOn separator
  rw [← joined] at member
  exact (mem_join member).imp_left List.mem_singleton.1

/-- Blanks around the separator can count as blanks around the parts. -/
theorem padded_join {parts : List Text} (nonempty : parts ≠ []) (before separator after : Text) :
    before ++ join (after ++ separator ++ before) parts ++ after =
      join separator (parts.map fun part => before ++ part ++ after) := by
  induction parts with
  | nil => contradiction
  | cons first rest ih =>
    cases rest with
    | nil => rw [List.map_singleton, join_singleton, join_singleton]
    | cons next later =>
      have shape := ih (List.cons_ne_nil _ _)
      rw [List.map_cons] at shape ⊢
      rw [join_cons_cons, List.map_cons, join_cons_cons, ← shape]
      simp only [List.append_assoc]

/-- Parts come back from between their separators up to the blanks around each of them, also when
blanks stand around them all. -/
theorem map_trim_splitOn_join {separator : Char} {before after : Text} {parts : List Text}
    (nonempty : parts ≠ []) (beforeBlank : allBlank before = true)
    (afterBlank : allBlank after = true) (visible : isBlank separator = false)
    (absent : ∀ part ∈ parts, separator ∉ part) :
    ((before ++ join [separator] parts ++ after).splitOn separator).map trim = parts.map trim := by
  have beforeAbsent := notMem_blank visible beforeBlank
  have afterAbsent := notMem_blank visible afterBlank
  induction parts generalizing before with
  | nil => contradiction
  | cons first rest ih =>
    obtain ⟨firstAbsent, restAbsent⟩ := List.forall_mem_cons.1 absent
    cases rest with
    | nil =>
      have whole : separator ∉ before ++ first ++ after := by
        simp [beforeAbsent, firstAbsent, afterAbsent]
      rw [join_singleton, List.splitOn_eq_singleton whole, List.map_singleton,
        trim_append first beforeBlank afterBlank, List.map_singleton]
    | cons next later =>
      have cut : before ++ join [separator] (first :: next :: later) ++ after =
          (before ++ first) ++ separator :: ([] ++ join [separator] (next :: later) ++ after) := by
        rw [join_cons_cons]
        simp
      have front : trim (before ++ first) = trim first := by
        simpa using trim_append first beforeBlank (List.all_nil : allBlank [] = true)
      rw [cut, List.splitOn_append_cons_self_of_not_mem (by simp [beforeAbsent, firstAbsent]),
        List.map_cons, ih (List.cons_ne_nil _ _) rfl restAbsent List.not_mem_nil, front]
      rfl

/-- Solid parts come back as they are. -/
theorem map_trim_splitOn {separator : Char} {before after : Text} {parts : List Text}
    (nonempty : parts ≠ []) (beforeBlank : allBlank before = true)
    (afterBlank : allBlank after = true) (visible : isBlank separator = false)
    (solid : ∀ part ∈ parts, Solid part) (absent : ∀ part ∈ parts, separator ∉ part) :
    ((before ++ join [separator] parts ++ after).splitOn separator).map trim = parts := by
  rw [map_trim_splitOn_join nonempty beforeBlank afterBlank visible absent,
    List.map_congr_left fun part member => trim_solid (solid part member), List.map_id']

/-- A text is what trimming its end leaves of it in front of blanks. -/
theorem trimEnd_append_blanks (text : Text) :
    trimEnd text ++ (text.reverse.takeWhile isBlank).reverse = text := by
  rw [trimEnd, ← List.reverse_append, List.takeWhile_append_dropWhile, List.reverse_reverse]

theorem mem_of_mem_trimEnd {text : Text} {char : Char} (member : char ∈ trimEnd text) :
    char ∈ text := by
  rw [← trimEnd_append_blanks text]
  exact List.mem_append_left _ member

/-- A text is what trimming leaves of it between blanks. -/
theorem exists_trim (text : Text) : ∃ before after, allBlank before = true ∧
    allBlank after = true ∧ text = before ++ trim text ++ after := by
  refine ⟨text.takeWhile isBlank, ((trimStart text).reverse.takeWhile isBlank).reverse,
    List.all_takeWhile, by simp [allBlank], ?_⟩
  rw [trim, List.append_assoc, trimEnd_append_blanks, trimStart, List.takeWhile_append_dropWhile]

/-- There is nothing to trim twice. -/
theorem trim_trim (text : Text) : trim (trim text) = trim text := by
  obtain ⟨before, after, beforeBlank, afterBlank, whole⟩ := exists_trim text
  have padded := trim_append (trim text) beforeBlank afterBlank
  rw [← whole] at padded
  exact padded.symm

theorem mem_of_mem_trim {text : Text} {char : Char} (member : char ∈ trim text) : char ∈ text := by
  obtain ⟨before, after, _, _, whole⟩ := exists_trim text
  rw [whole]
  simp [member]

/-- Trimming a text before it is cut changes nothing but the blanks around its pieces. -/
theorem map_trim_splitOn_trim {separator : Char} (visible : isBlank separator = false)
    (text : Text) :
    ((trim text).splitOn separator).map trim = (text.splitOn separator).map trim := by
  obtain ⟨before, after, beforeBlank, afterBlank, whole⟩ := exists_trim text
  have joined : join [separator] ((trim text).splitOn separator) = trim text :=
    List.intercalate_splitOn separator
  have padded := map_trim_splitOn_join (List.splitOn_ne_nil separator (trim text)) beforeBlank
    afterBlank visible fun _ => notMem_splitOn
  rw [joined, ← whole] at padded
  exact padded.symm

/-- A character that is not blank keeps the blanks behind it from being trimmed at the start. -/
theorem trimStart_append_cons (before after : Text) {mark : Char}
    (visible : isBlank mark = false) :
    trimStart (before ++ mark :: after) = trimStart before ++ mark :: after := by
  have stops : (mark :: after).dropWhile isBlank = mark :: after :=
    List.dropWhile_cons_of_neg (by simp [visible])
  rw [trimStart, List.dropWhile_append, stops, trimStart]
  split
  · rename_i nothing
    rw [List.isEmpty_iff.1 nothing, List.nil_append]
  · rfl

theorem trimEnd_append_cons (before after : Text) {mark : Char}
    (visible : isBlank mark = false) :
    trimEnd (before ++ mark :: after) = before ++ mark :: trimEnd after := by
  have turned : (before ++ mark :: after).reverse = after.reverse ++ mark :: before.reverse := by
    simp
  have start := trimStart_append_cons after.reverse before.reverse visible
  rw [trimStart, trimStart] at start
  rw [trimEnd, turned, start, trimEnd]
  simp

/-- Only the outer ends of the two parts around a visible character are trimmed. -/
theorem trim_append_cons (before after : Text) {mark : Char} (visible : isBlank mark = false) :
    trim (before ++ mark :: after) = trimStart before ++ mark :: trimEnd after := by
  rw [trim, trimStart_append_cons before after visible, trimEnd_append_cons _ _ visible]

theorem trim_trimStart (text : Text) : trim (trimStart text) = trim text := by
  have padded := @trim_append (text.takeWhile isBlank) [] (trimStart text) List.all_takeWhile
    List.all_nil
  rw [List.append_nil, trimStart, List.takeWhile_append_dropWhile] at padded
  exact padded.symm

theorem trim_trimEnd (text : Text) : trim (trimEnd text) = trim text := by
  have padded := @trim_append [] (text.reverse.takeWhile isBlank).reverse (trimEnd text)
    List.all_nil (by simp [allBlank])
  rw [List.nil_append, trimEnd_append_blanks] at padded
  exact padded.symm

/-- A text with a separator has a last one. -/
theorem exists_last {separator : Char} {text : Text} (present : separator ∈ text) :
    ∃ before after, text = before ++ separator :: after ∧ separator ∉ after := by
  obtain ⟨front, behind, turned, absent⟩ :=
    List.eq_append_cons_of_mem (List.mem_reverse.2 present)
  refine ⟨behind.reverse, front.reverse, ?_, by simpa using absent⟩
  rw [← text.reverse_reverse, turned]
  simp

/-- A character that the separator does not show is shown by the parts alone. -/
theorem count_join {separator : Text} {char : Char} (absent : char ∉ separator)
    (parts : List Text) :
    (join separator parts).count char = parts.flatten.count char := by
  cases parts with
  | nil => rfl
  | cons first rest =>
    rw [join_cons, List.flatten_cons, List.count_append, List.count_append,
      List.count_flatMap, List.count_flatten]
    simp [Function.comp_def, List.count_eq_zero.2 absent]

/-- The pieces of a text between the places where a separator stands. These are looked for from left
to right and do not overlap. -/
def pieces (separator : Text) : Text → List Text
  | [] => [[]]
  | first :: rest =>
    if separator <+: first :: rest then [] :: pieces separator (rest.drop (separator.length - 1))
    else (pieces separator rest).modifyHead (first :: ·)
termination_by text => text.length
decreasing_by all_goals simp only [List.length_drop, List.length_cons]; omega

section Pieces

variable {mark : Char} {separator part : Text}

theorem pieces_separator (mark : Char) (separator rest : Text) :
    pieces (mark :: separator) (mark :: separator ++ rest) =
      [] :: pieces (mark :: separator) rest := by
  rw [List.cons_append, pieces, if_pos ⟨rest, rfl⟩, List.length_cons, Nat.add_sub_cancel,
    List.drop_left]

theorem pieces_other {first : Char} (differs : first ≠ mark) (rest : Text) :
    pieces (mark :: separator) (first :: rest) =
      (pieces (mark :: separator) rest).modifyHead (first :: ·) := by
  have unfit : ¬mark :: separator <+: first :: rest :=
    fun starts => differs (List.cons_prefix_cons.1 starts).1.symm
  rw [pieces, if_neg unfit]

/-- A part that does not hold the first character of the separator is one piece. -/
theorem pieces_part (absent : mark ∉ part) : pieces (mark :: separator) part = [part] := by
  induction part with
  | nil => rw [pieces]
  | cons first rest ih =>
    rw [List.mem_cons, not_or] at absent
    obtain ⟨differs, others⟩ := absent
    rw [pieces_other (Ne.symm differs), ih others]
    rfl

/-- Such a part ends where the next separator starts. -/
theorem pieces_append (absent : mark ∉ part) (rest : Text) :
    pieces (mark :: separator) (part ++ (mark :: separator) ++ rest) =
      part :: pieces (mark :: separator) rest := by
  induction part with
  | nil => exact pieces_separator mark separator rest
  | cons first behind ih =>
    rw [List.mem_cons, not_or] at absent
    obtain ⟨differs, others⟩ := absent
    rw [List.cons_append, List.cons_append, pieces_other (Ne.symm differs), ih others]
    rfl

/-- Joined parts are found again when none of them holds the first character of the separator. -/
theorem pieces_join {parts : List Text} (nonempty : parts ≠ [])
    (absent : ∀ part ∈ parts, mark ∉ part) :
    pieces (mark :: separator) (join (mark :: separator) parts) = parts := by
  induction parts with
  | nil => contradiction
  | cons first rest ih =>
    obtain ⟨one, others⟩ := List.forall_mem_cons.1 absent
    cases rest with
    | nil => rw [join_singleton, pieces_part one]
    | cons next later =>
      rw [join_cons_cons, pieces_append one, ih (List.cons_ne_nil _ _) others]

end Pieces

end Text

end JazzGrammar
