/-
Reading a written root or chord symbol gives the root or chord back.
-/

import JazzGrammar.Chord.Symbol
import JazzGrammar.Proofs.Fault
import JazzGrammar.Proofs.Text

namespace JazzGrammar

namespace Root

/-- The signs of an accidental. -/
theorem mem_writeAccidental {accidental : Int} {char : Char}
    (member : char ∈ writeAccidental accidental) : char = '#' ∨ char = 'b' := by
  rw [writeAccidental, List.mem_replicate] at member
  rw [member.2]
  split
  · exact .inl rfl
  · exact .inr rfl

/-- The characters of a written root. -/
theorem mem_write {root : Root} {char : Char} (member : char ∈ root.write) :
    char ∈ ['#', 'b', 'I', 'V'] := by
  rcases List.mem_append.1 member with sign | letter
  · rcases mem_writeAccidental sign with rfl | rfl <;> decide
  · have letters : ∀ degree, numeral degree ⊆ ['#', 'b', 'I', 'V'] := by decide
    exact letters root.degree letter

theorem accidentalOf_writeAccidental (accidental : Int) :
    accidentalOf (writeAccidental accidental) = accidental := by
  unfold accidentalOf writeAccidental
  by_cases sharp : 0 < accidental
  · simp only [sharp, if_true, List.countP_replicate]
    rw [if_pos (by decide), if_neg (by decide)]
    omega
  · simp only [sharp, if_false, List.countP_replicate]
    rw [if_neg (by decide), if_pos (by decide)]
    omega

theorem numeral_ne_nil (degree : Fin 7) : numeral degree ≠ [] := by
  revert degree
  decide

/-- A numeral ends with one of its two letters. -/
theorem reverse_numeral (degree : Fin 7) : ∃ letter front,
    (numeral degree).reverse = letter :: front ∧ (letter = 'I' ∨ letter = 'V') := by
  have back : ∀ degree, (numeral degree).reverse.head? = some 'I' ∨
      (numeral degree).reverse.head? = some 'V' := by decide
  rcases back degree with head | head
  · obtain ⟨front, shape⟩ := List.head?_eq_some_iff.1 head
    exact ⟨'I', front, shape, .inl rfl⟩
  · obtain ⟨front, shape⟩ := List.head?_eq_some_iff.1 head
    exact ⟨'V', front, shape, .inr rfl⟩

/-- A numeral ends the signs in front of it. -/
theorem splitAccidental_numeral {signs : Text} (degree : Fin 7) (rest : Text)
    (accidentals : ∀ sign ∈ signs, isAccidental sign = true) :
    splitAccidental (signs ++ numeral degree ++ rest) =
      (accidentalOf signs, numeral degree ++ rest) := by
  have plain : ∀ degree, (numeral degree).head?.any isAccidental = false := by decide
  have stops : (numeral degree ++ rest).head?.any isAccidental = false := by
    rw [List.head?_append_of_ne_nil _ (numeral_ne_nil degree)]
    exact plain degree
  rw [splitAccidental, List.append_assoc, takeWhile_front accidentals stops,
    dropWhile_front accidentals stops]

theorem isAccidental_of_mem_writeAccidental {accidental : Int} :
    ∀ sign ∈ writeAccidental accidental, isAccidental sign = true := by
  intro sign member
  rcases mem_writeAccidental member with rfl | rfl <;> decide

theorem degree?_numeral (degree : Fin 7) : degree? (numeral degree) = some degree := by
  revert degree
  decide

theorem degree?_eq_some {text : Text} {degree : Fin 7} (found : degree? text = some degree) :
    numeral degree = text := by
  rw [degree?] at found
  simpa using List.find?_some found

theorem lowerDegree?_eq_some {text : Text} {degree : Fin 7}
    (found : lowerDegree? text = some degree) : lowerNumeral degree = text := by
  rw [lowerDegree?] at found
  simpa using List.find?_some found

/-- Signs and a numeral are read as the root that they spell. -/
theorem read_numeral {signs : Text} (degree : Fin 7)
    (accidentals : ∀ sign ∈ signs, isAccidental sign = true) :
    read (signs ++ numeral degree) = .ok ⟨degree, accidentalOf signs⟩ := by
  have split := splitAccidental_numeral degree [] accidentals
  simp only [List.append_nil] at split
  rw [read, split]
  simp only [degree?_numeral]

theorem read_write (root : Root) : read root.write = .ok root := by
  rw [write, read_numeral root.degree isAccidental_of_mem_writeAccidental,
    accidentalOf_writeAccidental]

end Root

namespace Chord

/-- The characters of a written chord. -/
theorem mem_write {chord : Chord} {char : Char} (member : char ∈ chord.write) :
    char ∈ ['#', 'b', 'I', 'V', 'm', '7', '°'] := by
  rcases List.mem_append.1 member with root | suffix
  · have letters : ['#', 'b', 'I', 'V'] ⊆ ['#', 'b', 'I', 'V', 'm', '7', '°'] := by decide
    exact letters (Root.mem_write root)
  · have signs : chord.quality.suffix ⊆ ['#', 'b', 'I', 'V', 'm', '7', '°'] := by
      cases chord.quality <;> decide
    exact signs suffix

theorem solid_write (chord : Chord) : Text.Solid chord.write := by
  have solid : Text.Solid ['#', 'b', 'I', 'V', 'm', '7', '°'] := by decide
  exact fun char member => solid char (mem_write member)

theorem write_ne_nil (chord : Chord) : chord.write ≠ [] := by
  simp [write, Root.write, Root.numeral_ne_nil]

/-- A symbol with a numeral in upper case is not read as one in lower case. -/
theorem readLower?_numeral {signs : Text} (degree : Fin 7) (quality : Quality)
    (accidentals : ∀ sign ∈ signs, Root.isAccidental sign = true) :
    readLower? (signs ++ Root.numeral degree ++ quality.suffix) = none := by
  rw [readLower?, Root.splitAccidental_numeral degree quality.suffix accidentals]
  generalize Root.accidentalOf signs = accidental
  cases quality <;> revert degree <;> simp only [Option.map_eq_none_iff] <;> decide

/-- No suffix is lost between a numeral and the end of its symbol. -/
theorem splitSuffix_numeral (signs : Text) (degree : Fin 7) (quality : Quality) :
    splitSuffix (signs ++ Root.numeral degree ++ quality.suffix) =
      (signs ++ Root.numeral degree, quality) := by
  obtain ⟨letter, front, shape, upper⟩ := Root.reverse_numeral degree
  have reversed : (signs ++ Root.numeral degree).reverse = letter :: (front ++ signs.reverse) := by
    rw [List.reverse_append, shape, List.cons_append]
  have restored := congrArg List.reverse reversed
  rw [List.reverse_reverse] at restored
  rw [splitSuffix, List.reverse_append, reversed]
  rcases upper with rfl | rfl <;> cases quality <;> simp [Quality.suffix, ← restored]

/-- A symbol in upper case is read as the root and the quality that it spells. -/
theorem read_numeral {signs : Text} (degree : Fin 7) (quality : Quality)
    (accidentals : ∀ sign ∈ signs, Root.isAccidental sign = true) {text : Text}
    (symbol : text.trim = signs ++ Root.numeral degree ++ quality.suffix) :
    read text = .ok ⟨⟨degree, Root.accidentalOf signs⟩, quality⟩ := by
  rw [read, symbol, readLower?_numeral degree quality accidentals, splitSuffix_numeral]
  simp [Root.numeral_ne_nil, Root.read_numeral degree accidentals, Except.map]

theorem read_write (chord : Chord) : read chord.write = .ok chord := by
  have spelled := read_numeral chord.root.degree chord.quality
    Root.isAccidental_of_mem_writeAccidental (Text.trim_solid chord.solid_write)
  rwa [Root.accidentalOf_writeAccidental] at spelled

/-- Blanks around a symbol make no difference. -/
theorem read_trim (text : Text) : read text.trim = read text := by
  rw [read, read, Text.trim_trim]

/-- Blanks alone are no symbol. -/
theorem allBlank_of_read {text : Text} {chord : Chord} (found : read text = .ok chord) :
    Text.allBlank text = false := by
  rw [Bool.eq_false_iff]
  intro blank
  rw [read, Text.trim_blank blank] at found
  contradiction

/-- A suffix stands at the end of its text. -/
theorem splitSuffix_append (text : Text) :
    (splitSuffix text).1 ++ (splitSuffix text).2.suffix = text := by
  have turned := text.reverse_reverse
  unfold splitSuffix
  split <;> rename_i shape <;> simp only [Quality.suffix, List.append_nil] <;>
    rw [← turned, shape] <;> simp

end Chord

end JazzGrammar
