/-
The language of chord symbols: a text is read exactly when it is a run of accidental signs, a
numeral and a suffix that goes with the numeral, and it is that in one way only.
-/

import JazzGrammar.Proofs.Symbol
import Mathlib.Data.Fintype.Basic
import Mathlib.Tactic.FinCases

namespace JazzGrammar

namespace Root

/-- The roots that are read are those that signs and a numeral spell. -/
theorem read_eq_ok {text : Text} {root : Root} :
    read text = .ok root ↔ ∃ signs, text = signs ++ numeral root.degree ∧
      (∀ sign ∈ signs, isAccidental sign = true) ∧ root.accidental = accidentalOf signs := by
  constructor
  · intro found
    unfold read at found
    dsimp only at found
    split at found
    · rename_i degree numbered
      obtain rfl := Except.ok.inj found
      refine ⟨text.takeWhile isAccidental, ?_, fun _ => List.mem_takeWhile_imp, rfl⟩
      rw [degree?_eq_some numbered]
      exact List.takeWhile_append_dropWhile.symm
    · contradiction
  · intro spelled
    obtain ⟨signs, rfl, accidentals, accidental⟩ := spelled
    rw [read_numeral root.degree accidentals, ← accidental]

/-- What is not read is shown as it stands. -/
theorem eq_of_read_eq_error {text : Text} {fault : Fault} (failed : read text = .error fault) :
    fault = .root text := by
  unfold read at failed
  dsimp only at failed
  split at failed
  · contradiction
  · exact (Except.error.inj failed).symm

end Root

namespace Chord

/-- The numerals in upper case by their degrees. -/
def upperNumerals : List Text :=
  [['I'], ['I', 'I'], ['I', 'I', 'I'], ['I', 'V'], ['V'], ['V', 'I'], ['V', 'I', 'I']]

/-- The numerals in lower case by their degrees. -/
def lowerNumerals : List Text :=
  [['i'], ['i', 'i'], ['i', 'i', 'i'], ['i', 'v'], ['v'], ['v', 'i'], ['v', 'i', 'i']]

/-- The suffixes behind a numeral in upper case. -/
def upperSuffixes : List (Text × Quality) :=
  [([], .major), (['m'], .minor), (['7'], .dominantSeventh), (['m', '7'], .minorSeventh),
    (['°', '7'], .diminishedSeventh)]

/-- The suffixes behind a numeral in lower case, which by itself is minor. -/
def lowerSuffixes : List (Text × Quality) :=
  [([], .minor), (['7'], .minorSeventh)]

/-- A chord symbol in its three parts. -/
structure Symbol where
  signs : Text
  numeral : Text
  suffix : Text

namespace Symbol

def text (symbol : Symbol) : Text :=
  symbol.signs ++ symbol.numeral ++ symbol.suffix

/-- The chord that a symbol names. The signs are flats and sharps, and numeral and suffix are of the
same case. -/
structure Names (symbol : Symbol) (chord : Chord) : Prop where
  signs : ∀ sign ∈ symbol.signs, sign ∈ ['b', '♭', '#', '♯']
  accidental : chord.root.accidental =
    (symbol.signs.countP (· ∈ ['#', '♯']) : Int) - symbol.signs.countP (· ∈ ['b', '♭'])
  cases : upperNumerals[chord.root.degree.val]? = some symbol.numeral ∧
      (symbol.suffix, chord.quality) ∈ upperSuffixes ∨
    lowerNumerals[chord.root.degree.val]? = some symbol.numeral ∧
      (symbol.suffix, chord.quality) ∈ lowerSuffixes

end Symbol

section Tables

variable {numeral suffix : Text} {degree : Fin 7} {quality : Quality}

theorem getElem?_upperNumerals :
    upperNumerals[degree.val]? = some numeral ↔ numeral = Root.numeral degree := by
  have listed : ∀ degree : Fin 7, upperNumerals[degree.val]? = some (Root.numeral degree) := by
    decide
  rw [listed, Option.some_inj, eq_comm]

theorem getElem?_lowerNumerals :
    lowerNumerals[degree.val]? = some numeral ↔ numeral = Root.lowerNumeral degree := by
  have listed : ∀ degree : Fin 7, lowerNumerals[degree.val]? = some (Root.lowerNumeral degree) := by
    decide
  rw [listed, Option.some_inj, eq_comm]

theorem mem_upperSuffixes : (suffix, quality) ∈ upperSuffixes ↔ suffix = quality.suffix := by
  have rows : ∀ row ∈ upperSuffixes, row.1 = row.2.suffix := by decide
  constructor
  · exact rows (suffix, quality)
  · intro same
    rw [same]
    cases quality <;> decide

end Tables

section Signs

theorem isAccidental_iff {sign : Char} :
    Root.isAccidental sign = true ↔ sign ∈ ['b', '♭', '#', '♯'] := by
  simp [Root.isAccidental, Root.isFlat, Root.isSharp, or_assoc]

theorem accidentalOf_eq (signs : Text) : Root.accidentalOf signs =
    (signs.countP (· ∈ ['#', '♯']) : Int) - signs.countP (· ∈ ['b', '♭']) := by
  have sharps : Root.isSharp = fun sign => decide (sign ∈ ['#', '♯']) := by
    funext sign
    simp [Root.isSharp, beq_eq_decide]
  have flats : Root.isFlat = fun sign => decide (sign ∈ ['b', '♭']) := by
    funext sign
    simp [Root.isFlat, beq_eq_decide]
  rw [Root.accidentalOf, sharps, flats]

theorem Symbol.Names.accidentals {symbol : Symbol} {chord : Chord} (names : symbol.Names chord) :
    ∀ sign ∈ symbol.signs, Root.isAccidental sign = true :=
  fun sign member => isAccidental_iff.2 (names.signs sign member)

end Signs

variable {text : Text} {chord : Chord}

/-- What is read as a symbol in lower case is one. -/
theorem exists_names_of_readLower? (found : readLower? text = some chord) :
    ∃ symbol : Symbol, symbol.text = text ∧ symbol.Names chord := by
  have whole : text.takeWhile Root.isAccidental ++ text.dropWhile Root.isAccidental = text :=
    List.takeWhile_append_dropWhile
  have accidentals : ∀ sign ∈ text.takeWhile Root.isAccidental, sign ∈ ['b', '♭', '#', '♯'] :=
    fun sign member => isAccidental_iff.1 (List.mem_takeWhile_imp member)
  unfold readLower? Root.splitAccidental at found
  dsimp only at found
  obtain ⟨degree, numbered, rfl⟩ := Option.map_eq_some_iff.1 found
  have spelled := Root.lowerDegree?_eq_some numbered
  have triad : ([], Quality.minor) ∈ lowerSuffixes := by decide
  have seventh : (['7'], Quality.minorSeventh) ∈ lowerSuffixes := by decide
  split at spelled
  · rename_i front shape
    refine ⟨⟨text.takeWhile Root.isAccidental, Root.lowerNumeral degree, ['7']⟩, ?_,
      ⟨accidentals, accidentalOf_eq _, .inr ⟨getElem?_lowerNumerals.2 rfl, seventh⟩⟩⟩
    have behind : text.dropWhile Root.isAccidental = Root.lowerNumeral degree ++ ['7'] := by
      rw [spelled, ← List.reverse_reverse (text.dropWhile Root.isAccidental), shape,
        List.reverse_cons]
    rw [Symbol.text, List.append_assoc, ← behind, whole]
  · refine ⟨⟨text.takeWhile Root.isAccidental, Root.lowerNumeral degree, []⟩, ?_,
      ⟨accidentals, accidentalOf_eq _, .inr ⟨getElem?_lowerNumerals.2 rfl, triad⟩⟩⟩
    rw [Symbol.text, List.append_nil, spelled, whole]

/-- Every symbol in lower case is read as one. -/
theorem readLower?_lowerNumeral {signs suffix : Text} (degree : Fin 7) {quality : Quality}
    (accidentals : ∀ sign ∈ signs, Root.isAccidental sign = true)
    (qualified : (suffix, quality) ∈ lowerSuffixes) :
    readLower? (signs ++ Root.lowerNumeral degree ++ suffix) =
      some ⟨⟨degree, Root.accidentalOf signs⟩, quality⟩ := by
  have letters : ∀ degree, ∀ row ∈ lowerSuffixes,
      (Root.lowerNumeral degree ++ row.1).head?.any Root.isAccidental = false := by decide
  have stops := letters degree (suffix, quality) qualified
  rw [readLower?, Root.splitAccidental, List.append_assoc, takeWhile_front accidentals stops,
    dropWhile_front accidentals stops]
  generalize Root.accidentalOf signs = accidental
  simp only [lowerSuffixes, List.mem_cons, Prod.mk.injEq, List.not_mem_nil, or_false] at qualified
  rcases qualified with ⟨rfl, rfl⟩ | ⟨rfl, rfl⟩
  · fin_cases degree <;> rfl
  · fin_cases degree <;> rfl

/-- A text is read as a chord exactly when it is a symbol for it. -/
theorem read_eq_ok : read text = .ok chord ↔
    ∃ symbol : Symbol, symbol.text = text.trim ∧ symbol.Names chord := by
  constructor
  · intro found
    unfold read at found
    dsimp only at found
    split at found
    · contradiction
    · split at found
      · rename_i lower
        obtain rfl := Except.ok.inj found
        exact exists_names_of_readLower? lower
      · obtain ⟨root, spelled, rfl⟩ := map_eq_ok.1 found
        obtain ⟨signs, shape, accidentals, accidental⟩ := Root.read_eq_ok.1 spelled
        refine ⟨⟨signs, Root.numeral root.degree, (splitSuffix text.trim).2.suffix⟩, ?_, ?_⟩
        · rw [Symbol.text, ← shape, splitSuffix_append]
        · exact ⟨fun sign member => isAccidental_iff.1 (accidentals sign member),
            accidental.trans (accidentalOf_eq signs),
            .inl ⟨getElem?_upperNumerals.2 rfl, mem_upperSuffixes.2 rfl⟩⟩
  · intro named
    obtain ⟨⟨signs, numeral, suffix⟩, shape, names⟩ := named
    have spelled : (⟨⟨chord.root.degree, Root.accidentalOf signs⟩, chord.quality⟩ : Chord) =
        chord := by
      rw [accidentalOf_eq, ← names.accidental]
    rcases names.cases with ⟨upper, qualified⟩ | ⟨lower, qualified⟩
    · obtain rfl := getElem?_upperNumerals.1 upper
      obtain rfl := mem_upperSuffixes.1 qualified
      rw [read_numeral chord.root.degree chord.quality names.accidentals shape.symm, spelled]
    · obtain rfl := getElem?_lowerNumerals.1 lower
      have found := readLower?_lowerNumeral chord.root.degree names.accidentals qualified
      rw [spelled] at found
      have nonempty : Root.lowerNumeral chord.root.degree ≠ [] := by
        simp [Root.lowerNumeral, Root.numeral_ne_nil]
      rw [read, ← shape, Symbol.text, found]
      simp [nonempty]

/-- A text that is no symbol is refused for its root, unless it is blank. -/
theorem fault_of_read {fault : Fault} (failed : read text = .error fault) :
    text.trim = [] ∧ fault = .token .empty ∨
      text.trim ≠ [] ∧ ∃ shown, shown <+: text.trim ∧ fault = .root shown := by
  unfold read at failed
  dsimp only at failed
  split at failed
  · rename_i empty
    exact .inl ⟨List.isEmpty_iff.1 empty, (Except.error.inj failed).symm⟩
  · rename_i nonempty
    split at failed
    · contradiction
    · refine .inr ⟨fun empty => nonempty (List.isEmpty_iff.2 empty), ?_⟩
      have blamed := Root.eq_of_read_eq_error (map_eq_error.1 failed)
      exact ⟨(splitSuffix text.trim).1, ⟨_, splitSuffix_append text.trim⟩, blamed⟩

/-- The characters of the symbols that are read as chords. -/
def letters : Text :=
  ['b', '♭', '#', '♯', 'I', 'V', 'i', 'v', 'm', '7', '°']

section Parts

variable {symbol : Symbol}

theorem Symbol.Names.listed (names : symbol.Names chord) :
    symbol.numeral ∈ upperNumerals ++ lowerNumerals ∧
      (symbol.suffix, chord.quality) ∈ upperSuffixes ++ lowerSuffixes := by
  rw [List.mem_append, List.mem_append]
  rcases names.cases with ⟨numbered, qualified⟩ | ⟨numbered, qualified⟩
  · exact ⟨.inl (List.mem_of_getElem? numbered), .inl qualified⟩
  · exact ⟨.inr (List.mem_of_getElem? numbered), .inr qualified⟩

theorem Symbol.Names.mem (names : symbol.Names chord) {char : Char} (member : char ∈ symbol.text) :
    char ∈ letters := by
  have signs : ['b', '♭', '#', '♯'] ⊆ letters := by decide
  have numerals : ∀ numeral ∈ upperNumerals ++ lowerNumerals, numeral ⊆ letters := by decide
  have suffixes : ∀ row ∈ upperSuffixes ++ lowerSuffixes, row.1 ⊆ letters := by decide
  obtain ⟨numeral, suffix⟩ := names.listed
  rw [Symbol.text, List.mem_append, List.mem_append] at member
  rcases member with (sign | letter) | behind
  · exact signs (names.signs char sign)
  · exact numerals _ numeral letter
  · exact suffixes _ suffix behind

/-- The characters of a text that is read as a chord. -/
theorem mem_of_read (found : read text = .ok chord) {char : Char} (member : char ∈ text) :
    Text.isBlank char = true ∨ char ∈ letters := by
  obtain ⟨symbol, shape, names⟩ := read_eq_ok.1 found
  refine (Text.mem_trim member).imp_right fun inside => ?_
  rw [← shape] at inside
  exact names.mem inside

/-- The letters of numerals. -/
def isLetter (char : Char) : Bool :=
  char ∈ ['I', 'V', 'i', 'v']

/-- The numeral of a symbol stands between its signs and its suffix like a run of letters. -/
theorem Symbol.Names.letters (names : symbol.Names chord) :
    (∀ char ∈ symbol.numeral, isLetter char = true) ∧
      symbol.suffix.head?.any isLetter = false ∧
        (symbol.numeral ++ symbol.suffix).head?.any Root.isAccidental = false := by
  obtain ⟨numeral, suffix⟩ := names.listed
  have inside : ∀ numeral ∈ upperNumerals ++ lowerNumerals, numeral.all isLetter = true := by
    decide
  have behind : ∀ row ∈ upperSuffixes ++ lowerSuffixes, row.1.head?.any isLetter = false := by
    decide
  have start : ∀ numeral ∈ upperNumerals ++ lowerNumerals, ∀ row ∈ upperSuffixes ++ lowerSuffixes,
      (numeral ++ row.1).head?.any Root.isAccidental = false := by decide
  exact ⟨List.all_eq_true.1 (inside _ numeral), behind _ suffix, start _ numeral _ suffix⟩

/-- A text is a symbol in one way only. -/
theorem Symbol.Names.unique {other : Symbol} {otherChord : Chord} (names : symbol.Names chord)
    (otherNames : other.Names otherChord) (same : symbol.text = other.text) : symbol = other := by
  obtain ⟨letters, ends, starts⟩ := names.letters
  obtain ⟨otherLetters, otherEnds, otherStarts⟩ := otherNames.letters
  obtain ⟨signs, numeral, suffix⟩ := symbol
  obtain ⟨otherSigns, otherNumeral, otherSuffix⟩ := other
  simp only [Symbol.text, List.append_assoc] at same
  obtain ⟨rfl, rest⟩ :=
    front_unique names.accidentals starts otherNames.accidentals otherStarts same
  obtain ⟨rfl, rfl⟩ := front_unique letters ends otherLetters otherEnds rest
  rfl

end Parts

/-- Exactly the chord symbols are read, with blanks around them. Behind flats and sharps, of which
the sharps less the flats are the accidental, a symbol shows a numeral in upper case with any of the
five suffixes, or one in lower case, which is minor, with a seventh or none, and a text is a symbol
in one way only. Of the texts that are refused the blank ones count as empty, and in any other the
root is to blame. -/
theorem symbols_exact (text : Text) :
    (∀ chord, read text = .ok chord ↔
      ∃ symbol : Symbol, symbol.text = text.trim ∧ symbol.Names chord) ∧
    (∀ one other : Symbol, ∀ chord otherChord, one.Names chord → other.Names otherChord →
      one.text = text.trim → other.text = text.trim → one = other ∧ chord = otherChord) ∧
    ∀ fault, read text = .error fault →
      text.trim = [] ∧ fault = .token .empty ∨
        text.trim ≠ [] ∧ ∃ shown, shown <+: text.trim ∧ fault = .root shown := by
  refine ⟨fun chord => read_eq_ok, ?_, fun fault => fault_of_read⟩
  intro one other chord otherChord names otherNames shape otherShape
  refine ⟨names.unique otherNames (shape.trans otherShape.symm), ?_⟩
  have found : read text = .ok chord := read_eq_ok.2 ⟨one, shape, names⟩
  rw [read_eq_ok.2 ⟨other, otherShape, otherNames⟩] at found
  exact (Except.ok.inj found).symm

/-- Two flats, one of each sign, in front of a mediant in lower case with its seventh. With a suffix
for the minor as well the numeral is left over and refused. -/
theorem symbols_exact_lower :
    let text : Text := [' ', '♭', 'b', 'i', 'i', 'i', '7']
    let mixed : Text := ['♭', 'b', 'i', 'i', 'i', 'm', '7']
    let symbol : Symbol := ⟨['♭', 'b'], ['i', 'i', 'i'], ['7']⟩
    let chord : Chord := ⟨⟨2, -2⟩, .minorSeventh⟩
    symbol.Names chord ∧ symbol.text = text.trim ∧ read text = .ok chord ∧
      (∃! other : Symbol, other.text = text.trim ∧ other.Names chord) ∧
      read mixed = .error (.root ['♭', 'b', 'i', 'i', 'i']) ∧ mixed.trim ≠ [] ∧
      ∃ shown, shown <+: mixed.trim ∧ Fault.root ['♭', 'b', 'i', 'i', 'i'] = .root shown := by
  intro text mixed symbol chord
  have names : symbol.Names chord := ⟨by simp [symbol], by decide, by decide⟩
  have shape : symbol.text = text.trim := by decide
  have refused : read mixed = .error (.root ['♭', 'b', 'i', 'i', 'i']) := by decide
  obtain ⟨read, unique, _⟩ := symbols_exact text
  obtain ⟨_, blank⟩ | blamed := (symbols_exact mixed).2.2 _ refused
  · contradiction
  · refine ⟨names, shape, (read chord).2 ⟨symbol, shape, names⟩, ⟨symbol, ⟨shape, names⟩, ?_⟩,
      refused, blamed⟩
    intro other found
    exact (unique other symbol chord chord found.2 names found.1 shape).1

end Chord

end JazzGrammar
