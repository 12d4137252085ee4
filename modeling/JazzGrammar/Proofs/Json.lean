/-
Arrays of texts in JSON: what is written is read back, and a bar line in the JSON text stands in one
of the texts that are read.
-/

import JazzGrammar.Json.Printer
import JazzGrammar.Json.Reader
import JazzGrammar.Proofs.Text
import Mathlib.Tactic.Cases

namespace JazzGrammar.Json

section Written

/-- An escape of one letter is read as the character that it stands for. -/
theorem readString?_letter {char letter : Char} (escaped : escapeLetter? char = some letter)
    (rest : Text) : readString? ('\\' :: letter :: rest) =
      (readString? rest).map fun (chars, behind) => (char :: chars, behind) := by
  have known : simpleEscape? letter = some char ∧ letter ≠ 'u' := by
    unfold escapeLetter? at escaped
    split_ifs at escaped with same same same same same same same
    all_goals
      obtain rfl := Option.some.inj escaped
      rw [beq_iff_eq.1 same]
      exact ⟨rfl, by decide⟩
  rw [readString?, known.1]
  · cases readString? rest <;> rfl
  · rintro a b c d behind rfl
    exact absurd rfl known.2

/-- Control characters are written with four digits. -/
theorem hexNumber?_writeUnit : ∀ unit < 32,
    (writeUnit unit).length = 4 ∧ hexNumber? (writeUnit unit) = some unit := by
  decide +kernel

theorem readString?_unit {char : Char} (control : char.toNat < 32) (rest : Text) :
    readString? ('\\' :: 'u' :: (writeUnit char.toNat ++ rest)) =
      (readString? rest).map fun (chars, behind) => (char :: chars, behind) := by
  obtain ⟨four, number⟩ := hexNumber?_writeUnit char.toNat control
  match shape : writeUnit char.toNat with
  | [a, b, c, d] =>
    rw [shape] at number
    have unit : codeUnit? char.toNat = some char := by
      rw [codeUnit?, if_neg (by simp; omega), Char.ofNat_toNat]
    simp only [List.cons_append, List.nil_append, readString?, number, Option.bind_eq_bind,
      Option.bind_some, unit]
    cases readString? rest <;> rfl
  | [] | [_] | [_, _] | [_, _, _] | _ :: _ :: _ :: _ :: _ :: _ => simp [shape] at four

/-- Each written character is read back. -/
theorem readString?_writeChar (char : Char) (rest : Text) :
    readString? (writeChar char ++ rest) =
      (readString? rest).map fun (chars, behind) => (char :: chars, behind) := by
  rw [writeChar]
  split
  · rename_i letter escaped
    exact readString?_letter escaped rest
  · rename_i plain
    split
    · rename_i control
      exact readString?_unit control rest
    · rename_i visible
      have quote : char ≠ '"' := by
        rintro rfl
        exact absurd plain (by decide)
      have slash : char ≠ '\\' := by
        rintro rfl
        exact absurd plain (by decide)
      rw [List.singleton_append, readString?]
      · have allowed : (char == '\\' || decide (char.toNat < 32)) = false := by
          simp [slash, visible]
        rw [allowed]
        cases readString? rest <;> rfl
      all_goals simp_all

/-- A written string is read up to its closing quote. -/
theorem readString?_writeText (text rest : Text) :
    readString? (text.flatMap writeChar ++ '"' :: rest) = some (text, rest) := by
  induction text with
  | nil => rw [List.flatMap_nil, List.nil_append, readString?]
  | cons first later ih =>
    rw [List.flatMap_cons, List.append_assoc, readString?_writeChar, ih]
    rfl

/-- White space in front of a mark is skipped. -/
theorem skipSpace_newLine (level : Nat) {mark : Char} (solid : isSpace mark = false) (rest : Text) :
    skipSpace (newLine level ++ mark :: rest) = mark :: rest := by
  have blank : ∀ char ∈ newLine level, isSpace char = true := by
    simp [newLine, List.mem_replicate, isSpace]
  exact dropWhile_front blank solid

theorem skipSpace_mark {mark : Char} (solid : isSpace mark = false) (rest : Text) :
    skipSpace (mark :: rest) = mark :: rest :=
  List.dropWhile_cons_of_neg (by simp [solid])

/-- A value that starts with a quote is a text. -/
theorem readValue?_writeText {source rest text : Text}
    (quoted : skipSpace source = writeText text ++ rest) (fuel depth : Nat) :
    readValue? (fuel + 1) depth source = some (.text text, rest) := by
  have shape : writeText text ++ rest = '"' :: (text.flatMap writeChar ++ '"' :: rest) := by
    simp [writeText]
  rw [readValue?, quoted, shape]
  simp only [readString?_writeText, Option.map_some]

/-- Written items are read up to the closing bracket of their array. -/
theorem readItems?_write {fuel : Nat} {source rest : Text} {first : Text} {later : List Text}
    (depth level below : Nat) (enough : later.length + 2 ≤ fuel)
    (quoted : skipSpace source = writeText first ++
      (writeItems level (later.map .text) ++ (newLine below ++ ']' :: rest))) :
    readItems? fuel depth source = some ((first :: later).map .text, rest) := by
  induction later generalizing first fuel source with
  | nil =>
    obtain ⟨fuel, rfl⟩ : ∃ less, fuel = less + 1 + 1 := ⟨fuel - 2, by omega⟩
    have closed : skipSpace (newLine below ++ ']' :: rest) = ']' :: rest :=
      skipSpace_newLine below rfl rest
    rw [readItems?, readValue?_writeText quoted]
    simp only [Option.bind_eq_bind, Option.bind_some, List.map_nil, writeItems, List.nil_append,
      closed, List.map_cons]
  | cons next others ih =>
    rw [List.length_cons] at enough
    obtain ⟨fuel, rfl⟩ : ∃ less, fuel = less + 1 + 1 := ⟨fuel - 2, by omega⟩
    have shape : writeItems level ((next :: others).map .text) ++ (newLine below ++ ']' :: rest) =
        ',' :: (newLine level ++ (writeText next ++ (writeItems level (others.map .text) ++
          (newLine below ++ ']' :: rest)))) := by
      simp [writeItems, Value.write]
    have comma (behind : Text) : skipSpace (',' :: behind) = ',' :: behind := skipSpace_mark rfl _
    have again := @ih (fuel + 1) (newLine level ++ (writeText next ++
      (writeItems level (others.map .text) ++ (newLine below ++ ']' :: rest)))) next (by omega)
      (skipSpace_newLine level rfl _)
    rw [readItems?, readValue?_writeText quoted, shape]
    simp only [Option.bind_eq_bind, Option.bind_some, comma, again, List.map_cons]

/-- Every item takes at least one character. -/
theorem length_le_writeItems (level : Nat) (items : List Value) :
    items.length ≤ (writeItems level items).length := by
  induction items with
  | nil => exact Nat.zero_le _
  | cons item rest ih =>
    rw [writeItems, List.length_cons]
    simp only [List.cons_append, List.length_cons, List.length_append]
    omega

/-- A bracket in front of a quote starts an array of items. -/
theorem readValue?_items {source inside behind : Text} (opened : skipSpace source = '[' :: inside)
    (quoted : skipSpace inside = '"' :: behind) (fuel depth : Nat) :
    readValue? (fuel + 1) (depth + 1) source =
      (readItems? fuel depth ('"' :: behind)).map fun (items, rest) => (.array items, rest) := by
  rw [readValue?, opened]
  simp only [Nat.add_one_ne_zero, if_false, quoted, Nat.add_sub_cancel]
  rfl

/-- A written array of texts is read back. -/
theorem read?_write (texts : List Text) :
    read? ((Value.ofTexts texts).write 0) = some (Value.ofTexts texts) := by
  cases texts with
  | nil => rfl
  | cons first later =>
    let items := writeItems 1 (later.map .text) ++ (newLine 0 ++ [']'])
    let inside := newLine 1 ++ (writeText first ++ items)
    have shape : (Value.ofTexts (first :: later)).write 0 = '[' :: inside := by
      simp [inside, items, Value.ofTexts, Value.write]
    have opened : skipSpace ('[' :: inside) = '[' :: inside := skipSpace_mark rfl _
    have quoted : skipSpace inside = '"' :: (first.flatMap writeChar ++ ['"'] ++ items) :=
      skipSpace_newLine 1 rfl _
    have enough : later.length + 2 ≤ 2 * ('[' :: inside).length + 1 := by
      have size := length_le_writeItems 1 (later.map .text)
      simp only [inside, items, List.length_cons, List.length_append, List.length_map] at size ⊢
      omega
    have found : readItems? (2 * ('[' :: inside).length + 1) 126
        ('"' :: (first.flatMap writeChar ++ ['"'] ++ items)) =
          some ((first :: later).map .text, []) :=
      readItems?_write 126 1 0 enough (skipSpace_mark rfl _)
    rw [read?, shape, nestingLimit, readValue?_items opened quoted, found]
    rfl

/-- A written array starts and ends with a bracket. -/
theorem trim_write (texts : List Text) :
    Text.trim ((Value.ofTexts texts).write 0) = (Value.ofTexts texts).write 0 := by
  cases texts with
  | nil => rfl
  | cons first later =>
    have shape : (Value.ofTexts (first :: later)).write 0 = '[' :: (newLine 1 ++ writeText first ++
        writeItems 1 (later.map .text) ++ newLine 0) ++ [']'] := by
      simp [Value.ofTexts, Value.write]
    rw [shape]
    exact Text.trim_enclosed _ (by decide) (by decide)

end Written

section Shown

/-- The characters that stand between the texts of an array and around them. -/
def marks : List Char :=
  ['[', ']', ',', '"', '\\', 'u']

/-- The characters that an array of texts shows only as a part of its texts: they are no white space
and no mark, and have no part in an escape. -/
structure Unmarked (char : Char) : Prop where
  visible : isSpace char = false
  noDigit : hexDigit? char = none
  noEscape : simpleEscape? char = none
  noMark : char ∉ marks

variable {char : Char} {source rest : Text}

theorem Unmarked.mem_of_mem_cons {mark : Char} (unmarked : Unmarked char)
    (member : char ∈ mark :: rest) (isMark : mark ∈ marks) : char ∈ rest := by
  refine (List.mem_cons.1 member).resolve_left ?_
  rintro rfl
  exact unmarked.noMark isMark

theorem Unmarked.mem_skipSpace (unmarked : Unmarked char) (member : char ∈ source) :
    char ∈ skipSpace source :=
  (Text.mem_dropWhile member).resolve_left (by simp [unmarked.visible])

/-- White space between tokens is blank. -/
theorem skipSpace_trim (text : Text) : skipSpace text.trim = text.trim := by
  match shape : text.trim with
  | [] => rfl
  | first :: rest =>
    have visible := @Text.isBlank_of_head?_trim text first (by rw [shape, List.head?_cons])
    have solid : isSpace first ≠ true := by
      intro space
      simp only [isSpace, Bool.or_eq_true, beq_iff_eq] at space
      rcases space with ((rfl | rfl) | rfl) | rfl <;> exact absurd visible (by decide)
    exact List.dropWhile_cons_of_neg solid

/-- A number is put together from hexadecimal digits only. -/
theorem hexDigit?_of_foldl {digits : Text} {start : Option Nat} {number : Nat}
    (read : digits.foldl (fun value digit => do
      some (16 * (← value) + (← hexDigit? digit))) start = some number) :
    start ≠ none ∧ ∀ digit ∈ digits, hexDigit? digit ≠ none := by
  induction digits generalizing start with
  | nil =>
    rw [List.foldl_nil] at read
    simp [read]
  | cons first later ih =>
    obtain ⟨present, others⟩ := ih read
    refine ⟨?_, List.forall_mem_cons.2 ⟨?_, others⟩⟩
    · intro absent
      simp [absent] at present
    · intro absent
      simp [absent] at present

theorem Unmarked.notMem_of_hexNumber? (unmarked : Unmarked char) {digits : Text} {number : Nat}
    (found : hexNumber? digits = some number) : char ∉ digits :=
  fun member => (hexDigit?_of_foldl found).2 char member unmarked.noDigit

/-- A string shows such a character only as one of its own. -/
theorem Unmarked.mem_of_readString? (unmarked : Unmarked char) {chars : Text}
    (found : readString? source = some (chars, rest)) (member : char ∈ source) :
    char ∈ chars ∨ char ∈ rest := by
  fun_induction readString? source generalizing chars rest with
  | case1 behind =>
    obtain ⟨rfl, rfl⟩ := Prod.mk.inj (Option.some.inj found)
    exact .inr (unmarked.mem_of_mem_cons member (by decide))
  | case2 a b c d behind single double =>
    obtain ⟨unit, digits, found⟩ := Option.bind_eq_some_iff.1 found
    have inside : char ∈ [a, b, c, d] ++ behind :=
      unmarked.mem_of_mem_cons (unmarked.mem_of_mem_cons member (by decide)) (by decide)
    have later := (List.mem_append.1 inside).resolve_left (unmarked.notMem_of_hexNumber? digits)
    split at found
    · obtain ⟨⟨own, final⟩, read, joined⟩ := Option.bind_eq_some_iff.1 found
      obtain ⟨rfl, rfl⟩ := Prod.mk.inj (Option.some.inj joined)
      exact (single read later).imp_left (List.mem_cons_of_mem _)
    · split at found
      · rename_i e f g h behind _
        obtain ⟨trailing, digits, found⟩ := Option.bind_eq_some_iff.1 found
        obtain ⟨own, pair, found⟩ := Option.bind_eq_some_iff.1 found
        obtain ⟨⟨others, final⟩, read, joined⟩ := Option.bind_eq_some_iff.1 found
        obtain ⟨rfl, rfl⟩ := Prod.mk.inj (Option.some.inj joined)
        have inside : char ∈ [e, f, g, h] ++ behind :=
          unmarked.mem_of_mem_cons (unmarked.mem_of_mem_cons later (by decide)) (by decide)
        have last := (List.mem_append.1 inside).resolve_left (unmarked.notMem_of_hexNumber? digits)
        exact (double read last).imp_left (List.mem_cons_of_mem _)
      · contradiction
  | case3 letter behind other ih =>
    obtain ⟨own, escape, found⟩ := Option.bind_eq_some_iff.1 found
    obtain ⟨⟨own, later⟩, read, joined⟩ := Option.bind_eq_some_iff.1 found
    obtain ⟨rfl, rfl⟩ := Prod.mk.inj (Option.some.inj joined)
    have differs : char ≠ letter := by
      rintro rfl
      rw [unmarked.noEscape] at escape
      contradiction
    have inside : char ∈ letter :: behind := unmarked.mem_of_mem_cons member (by decide)
    exact (ih read ((List.mem_cons.1 inside).resolve_left differs)).imp_left
      (List.mem_cons_of_mem _)
  | case4 => contradiction
  | case5 first behind =>
    rename_i ih
    obtain ⟨⟨own, later⟩, read, joined⟩ := Option.bind_eq_some_iff.1 found
    obtain ⟨rfl, rfl⟩ := Prod.mk.inj (Option.some.inj joined)
    rcases List.mem_cons.1 member with rfl | inside
    · exact .inl List.mem_cons_self
    · exact (ih read inside).imp_left (List.mem_cons_of_mem _)
  | case6 => contradiction

/-- A text value starts with a quote. -/
theorem readValue?_text {fuel depth : Nat} {chars : Text}
    (found : readValue? fuel depth source = some (.text chars, rest)) :
    ∃ behind, skipSpace source = '"' :: behind ∧ readString? behind = some (chars, rest) := by
  cases fuel with
  | zero => simp [readValue?] at found
  | succ fuel =>
    rw [readValue?] at found
    split at found
    case h_4 behind shape =>
      obtain ⟨⟨own, later⟩, read, joined⟩ := Option.map_eq_some_iff.1 found
      obtain ⟨same, rfl⟩ := Prod.mk.inj joined
      obtain rfl := Value.text.inj same
      exact ⟨behind, shape, read⟩
    all_goals
      repeat' split at found
      all_goals simp at found

/-- An array value starts with a bracket, and its items stand behind it. -/
theorem readValue?_array {fuel depth : Nat} {items : List Value}
    (found : readValue? fuel depth source = some (.array items, rest)) :
    ∃ inside, skipSpace source = '[' :: inside ∧
      (skipSpace inside = ']' :: rest ∨
        ∃ less, readItems? less (depth - 1) (skipSpace inside) = some (items, rest)) := by
  cases fuel with
  | zero => simp [readValue?] at found
  | succ fuel =>
    rw [readValue?] at found
    split at found
    case h_5 inside shape =>
      refine ⟨inside, shape, ?_⟩
      split at found
      · contradiction
      · split at found
        · rename_i behind closed
          obtain ⟨_, rfl⟩ := Prod.mk.inj (Option.some.inj found)
          exact .inl closed
        · obtain ⟨⟨own, later⟩, read, joined⟩ := Option.map_eq_some_iff.1 found
          obtain ⟨same, rfl⟩ := Prod.mk.inj joined
          obtain rfl := Value.array.inj same
          exact .inr ⟨fuel, read⟩
    all_goals
      repeat' split at found
      all_goals simp at found

theorem Unmarked.mem_of_readValue? (unmarked : Unmarked char) {fuel depth : Nat} {chars : Text}
    (found : readValue? fuel depth source = some (.text chars, rest)) (member : char ∈ source) :
    char ∈ chars ∨ char ∈ rest := by
  obtain ⟨behind, quoted, read⟩ := readValue?_text found
  have inside : char ∈ '"' :: behind := quoted ▸ unmarked.mem_skipSpace member
  exact unmarked.mem_of_readString? read (unmarked.mem_of_mem_cons inside (by decide))

/-- The items of an array show such a character only in one of its texts. -/
theorem Unmarked.mem_of_readItems? (unmarked : Unmarked char) {fuel depth : Nat}
    {texts : List Text} (found : readItems? fuel depth source = some (texts.map .text, rest))
    (member : char ∈ source) : (∃ text ∈ texts, char ∈ text) ∨ char ∈ rest := by
  induction fuel generalizing source texts with
  | zero => simp [readItems?] at found
  | succ fuel ih =>
    rw [readItems?] at found
    obtain ⟨⟨value, behind⟩, read, found⟩ := Option.bind_eq_some_iff.1 found
    dsimp only at found
    split at found
    · rename_i later shape
      obtain ⟨⟨items, final⟩, others, joined⟩ := Option.bind_eq_some_iff.1 found
      obtain ⟨same, rfl⟩ := Prod.mk.inj (Option.some.inj joined)
      obtain ⟨chars, texts, rfl, rfl, rfl⟩ := List.map_eq_cons_iff.1 same.symm
      rcases unmarked.mem_of_readValue? read member with own | inside
      · exact .inl ⟨chars, List.mem_cons_self, own⟩
      · have within : char ∈ ',' :: later := shape ▸ unmarked.mem_skipSpace inside
        refine (ih others (unmarked.mem_of_mem_cons within (by decide))).imp_left ?_
        rintro ⟨text, known, own⟩
        exact ⟨text, List.mem_cons_of_mem _ known, own⟩
    · rename_i later shape
      obtain ⟨same, rfl⟩ := Prod.mk.inj (Option.some.inj found)
      obtain ⟨chars, texts, rfl, rfl, _⟩ := List.map_eq_cons_iff.1 same.symm
      rcases unmarked.mem_of_readValue? read member with own | inside
      · exact .inl ⟨chars, List.mem_cons_self, own⟩
      · have within : char ∈ ']' :: later := shape ▸ unmarked.mem_skipSpace inside
        exact .inr (unmarked.mem_of_mem_cons within (by decide))
    · contradiction

/-- A whole array of texts starts with a bracket and shows such a character only in one of them. -/
theorem Unmarked.mem_of_read? (unmarked : Unmarked char) {texts : List Text}
    (found : read? source = some (.ofTexts texts)) :
    (skipSpace source).head? = some '[' ∧
      (char ∈ source → ∃ text ∈ texts, char ∈ text) := by
  obtain ⟨⟨value, behind⟩, read, closed⟩ := Option.bind_eq_some_iff.1 found
  obtain ⟨finished, same⟩ : (skipSpace behind).isEmpty = true ∧ value = .ofTexts texts := by
    simpa using closed
  obtain ⟨inside, shape, items⟩ := readValue?_array (same ▸ read)
  have nothing : char ∉ behind := by
    intro member
    have visible := unmarked.mem_skipSpace member
    rw [List.isEmpty_iff.1 finished] at visible
    contradiction
  refine ⟨by rw [shape, List.head?_cons], fun member => ?_⟩
  have opened : char ∈ '[' :: inside := shape ▸ unmarked.mem_skipSpace member
  have within := unmarked.mem_skipSpace (unmarked.mem_of_mem_cons opened (by decide))
  rcases items with empty | ⟨less, items⟩
  · rw [empty] at within
    exact absurd (unmarked.mem_of_mem_cons within (by decide)) nothing
  · exact (unmarked.mem_of_readItems? items within).resolve_right nothing

end Shown

end JazzGrammar.Json
