/-
The language of written durations: a text is read exactly when it is a fraction or a decimal of a
positive value, and its value is read exactly.
-/

import JazzGrammar.Duration.Literal
import JazzGrammar.Proofs.Text

namespace JazzGrammar

namespace Decimal

/-- A digit string and the number that it shows. -/
structure Digits (text : Text) (number : Nat) : Prop where
  nonempty : text ≠ []
  digits : ∀ char ∈ text, char.isDigit = true
  number : Nat.ofDigitChars 10 text 0 = number

/-- One optional sign, and whether it is a minus. -/
inductive Sign : Text → Bool → Prop
  | absent : Sign [] false
  | plus : Sign ['+'] false
  | minus : Sign ['-'] true

/-- A whole number by its sign and its magnitude. -/
def signed (negative : Bool) (magnitude : Nat) : Int :=
  if negative then -(magnitude : Int) else magnitude

/-- A digit string with an optional sign and the number that it shows. -/
inductive Signed (text : Text) : Int → Prop
  | parts {sign digits : Text} {negative : Bool} {magnitude : Nat} (whole : text = sign ++ digits)
      (sign : Sign sign negative) (digits : Digits digits magnitude) :
      Signed text (signed negative magnitude)

section Numbers

variable {text sign rest : Text} {char : Char} {negative : Bool} {magnitude : Nat} {number : Int}

theorem read?_eq_some : read? text = some magnitude ↔ Digits text magnitude := by
  constructor
  · intro found
    rw [read?] at found
    split at found
    · rename_i shape
      obtain ⟨nonempty, digits⟩ := Bool.and_eq_true_iff.1 shape
      exact ⟨by simpa using nonempty, List.all_eq_true.1 digits, Option.some.inj found⟩
    · contradiction
  · intro shown
    have nonempty : text.isEmpty = false := by simpa using shown.nonempty
    rw [read?, nonempty, List.all_eq_true.2 shown.digits, shown.number]
    rfl

/-- Only a sign is split off. -/
theorem exists_sign (text : Text) :
    ∃ sign, text = sign ++ (splitSign text).2 ∧ Sign sign (splitSign text).1 := by
  unfold splitSign
  split
  · exact ⟨['-'], rfl, .minus⟩
  · exact ⟨['+'], rfl, .plus⟩
  · exact ⟨[], rfl, .absent⟩

/-- A sign is split off from what starts with no other one. -/
theorem splitSign_append (shown : Sign sign negative)
    (unsigned : ∀ char ∈ rest.head?, char ∉ ['+', '-']) :
    splitSign (sign ++ rest) = (negative, rest) := by
  cases shown with
  | plus => rfl
  | minus => rfl
  | absent =>
    rw [List.nil_append]
    unfold splitSign
    split
    · exact absurd (by decide) (unsigned '-' rfl)
    · exact absurd (by decide) (unsigned '+' rfl)
    · rfl

theorem Sign.mem (shown : Sign sign negative) (member : char ∈ sign) : char ∈ ['+', '-'] := by
  cases shown with
  | absent => contradiction
  | plus => simp [List.mem_singleton.1 member]
  | minus => simp [List.mem_singleton.1 member]

theorem Digits.unsigned (shown : Digits text magnitude) :
    ∀ char ∈ text.head?, char ∉ ['+', '-'] := by
  intro char first member
  have digit := shown.digits char (List.mem_of_head? first)
  have signs : ∀ sign ∈ ['+', '-'], sign.isDigit = false := by simp
  rw [signs char member] at digit
  contradiction

/-- The magnitude is read as a natural number and negated as an integer. -/
theorem readSigned?_eq_some : readSigned? text = some number ↔ Signed text number := by
  constructor
  · intro found
    unfold readSigned? at found
    dsimp only at found
    obtain ⟨_, cast, rfl⟩ := Option.map_eq_some_iff.1 found
    obtain ⟨magnitude, digits, same⟩ := Option.bind_eq_some_iff.1 cast
    obtain rfl := Option.some.inj same
    obtain ⟨sign, whole, shown⟩ := exists_sign text
    exact .parts whole shown (read?_eq_some.1 digits)
  · intro shown
    obtain ⟨rfl, sign, digits⟩ := shown
    rw [readSigned?, splitSign_append sign digits.unsigned]
    dsimp only
    rw [read?_eq_some.2 digits]
    rfl

theorem Signed.mem (shown : Signed text number) (member : char ∈ text) :
    char ∈ ['+', '-'] ∨ char.isDigit = true := by
  obtain ⟨rfl, sign, digits⟩ := shown
  exact (List.mem_append.1 member).imp sign.mem (digits.digits char)

end Numbers

end Decimal

namespace Duration

/-- The digits of a mantissa before its point and those behind it. The point can be missing. -/
inductive Mantissa : Text → Text → Text → Prop
  | whole (whole : Text) : Mantissa whole whole []
  | pointed (whole behind : Text) : Mantissa (whole ++ '.' :: behind) whole behind

/-- An optional exponent with the power of ten that it stands for. -/
inductive Exponent : Text → Int → Prop
  | absent : Exponent [] 0
  | shown {letter : Char} {text : Text} {power : Int} (marked : letter ∈ ['e', 'E'])
      (digits : Decimal.Signed text power) (limited : power.natAbs ≤ 4096) :
      Exponent (letter :: text) power

/-- The value of a literal. A fraction is cut at its first slash, where blanks may stand. The digits
of a decimal count as one whole number, which the point moves down by as many places as stand behind
it and the exponent up. -/
inductive Denotes (text : Text) : Rat → Prop
  | fraction {numerator denominator : Text} {above : Int} {below : Nat}
      (whole : text = numerator ++ '/' :: denominator) (first : '/' ∉ numerator)
      (top : Decimal.Signed numerator.trim above) (bottom : Decimal.Digits denominator.trim below)
      (nonzero : below ≠ 0) :
      Denotes text (above / below)
  | decimal {sign mantissa exponent units behind : Text} {negative : Bool} {number : Nat}
      {power : Int} (whole : text = sign ++ (mantissa ++ exponent))
      (sign : Decimal.Sign sign negative) (mantissa : Mantissa mantissa units behind)
      (digits : Decimal.Digits (units ++ behind) number) (exponent : Exponent exponent power) :
      Denotes text (Decimal.signed negative number * 10 ^ (power - behind.length))

/-- The characters of decimals beside digits. -/
def decimalSigns : Text :=
  ['+', '-', '.', 'e', 'E']

section Parts

variable {text mantissa exponent whole behind : Text} {char : Char} {power : Int}

theorem isExponentLetter_iff : isExponentLetter char = true ↔ char ∈ ['e', 'E'] := by
  simp [isExponentLetter]

/-- An exponent is a signed whole number within the limit. -/
theorem exponent?_eq (text : Text) : exponent? text =
    (Decimal.readSigned? text).filter fun power => power.natAbs ≤ exponentLimit := by
  unfold exponent? Decimal.readSigned?
  dsimp only
  cases Decimal.read? (Decimal.splitSign text).2 with
  | none => rfl
  | some magnitude =>
    have size : (if (Decimal.splitSign text).1 then -(magnitude : Int) else magnitude).natAbs =
        magnitude := by
      split <;> omega
    by_cases limited : magnitude ≤ exponentLimit
    · simp [Option.filter, size, limited, Nat.not_lt.2 limited]
    · simp [Option.filter, size, limited, Nat.lt_of_not_le limited]

theorem exponent?_eq_some :
    exponent? text = some power ↔ Decimal.Signed text power ∧ power.natAbs ≤ 4096 := by
  rw [exponent?_eq, Option.filter_eq_some_iff, Decimal.readSigned?_eq_some, exponentLimit,
    decide_eq_true_iff]

theorem splitExponent?_append (plain : ∀ char ∈ mantissa, isExponentLetter char = false)
    (shown : Exponent exponent power) :
    splitExponent? (mantissa ++ exponent) = some (mantissa, power) := by
  have passes : ∀ char ∈ mantissa, (!isExponentLetter char) = true := by simpa using plain
  cases shown with
  | absent =>
    rw [splitExponent?, dropWhile_front passes rfl, List.append_nil]
  | shown marked digits limited =>
    rename_i letter rest
    have stops : (letter :: rest).head?.any (!isExponentLetter ·) = false := by
      simpa using isExponentLetter_iff.2 marked
    rw [splitExponent?, dropWhile_front passes stops, takeWhile_front passes stops]
    dsimp only
    rw [exponent?_eq_some.2 ⟨digits, limited⟩]
    rfl

/-- Only an exponent is split off. -/
theorem exists_exponent (found : splitExponent? text = some (mantissa, power)) :
    ∃ exponent, text = mantissa ++ exponent ∧ Exponent exponent power := by
  rw [splitExponent?] at found
  split at found
  · obtain ⟨rfl, rfl⟩ := Prod.mk.inj (Option.some.inj found)
    exact ⟨[], (List.append_nil _).symm, .absent⟩
  · rename_i letter rest shape
    obtain ⟨power, number, parts⟩ := Option.map_eq_some_iff.1 found
    obtain ⟨rfl, rfl⟩ := Prod.mk.inj parts
    obtain ⟨digits, limited⟩ := exponent?_eq_some.1 number
    have stops := stops_dropWhile (!isExponentLetter ·) text
    rw [shape] at stops
    have marked : letter ∈ ['e', 'E'] := isExponentLetter_iff.1 (by simpa using stops)
    refine ⟨letter :: rest, ?_, .shown marked digits limited⟩
    rw [← shape, List.takeWhile_append_dropWhile]

theorem Exponent.mem (shown : Exponent exponent power) (member : char ∈ exponent) :
    char.isDigit = true ∨ char ∈ decimalSigns := by
  have letters : ['e', 'E'] ⊆ decimalSigns := by decide
  have signs : ['+', '-'] ⊆ decimalSigns := by decide
  cases shown with
  | absent => contradiction
  | shown marked digits limited =>
    rcases List.mem_cons.1 member with rfl | inside
    · exact .inr (letters marked)
    · exact (digits.mem inside).symm.imp_right fun sign => signs sign

/-- The point splits a mantissa. -/
theorem mantissa_cut (text : Text) :
    Mantissa text ((text.cutFirst? '.').getD (text, [])).1
      ((text.cutFirst? '.').getD (text, [])).2 := by
  cases cut : text.cutFirst? '.' with
  | none => exact .whole text
  | some parts =>
    obtain ⟨rfl, _⟩ := Text.cutFirst?_eq_some.1 cut
    exact .pointed parts.1 parts.2

theorem Mantissa.cut (shown : Mantissa mantissa whole behind) (first : '.' ∉ whole) :
    (mantissa.cutFirst? '.').getD (mantissa, []) = (whole, behind) := by
  cases shown with
  | whole => rw [Text.cutFirst?_none first, Option.getD_none]
  | pointed => rw [Text.cutFirst?_append first, Option.getD_some]

theorem Mantissa.mem (shown : Mantissa mantissa whole behind) (member : char ∈ mantissa) :
    char ∈ whole ++ behind ∨ char = '.' := by
  cases shown with
  | whole => simp [member]
  | pointed =>
    rw [List.mem_append, List.mem_cons] at member
    rw [List.mem_append]
    rcases member with front | point | after
    · exact .inl (.inl front)
    · exact .inr point
    · exact .inl (.inr after)

theorem Mantissa.ne_nil (shown : Mantissa mantissa whole behind) (nonempty : whole ++ behind ≠ []) :
    mantissa ≠ [] := by
  cases shown with
  | whole => simpa using nonempty
  | pointed => simp

end Parts

theorem scaleByTen_eq (number power : Int) : scaleByTen number power = number * 10 ^ power := by
  have magnitude : ((Nat.pow 10 power.natAbs : Nat) : Rat) = 10 ^ (power.natAbs : Int) := by
    rw [Rat.zpow_natCast]
    exact Rat.natCast_pow 10 power.natAbs
  rw [scaleByTen]
  split
  · have below : power = -(power.natAbs : Int) := by omega
    rw [Rat.mkRat_eq_div, magnitude, Rat.div_def, ← Rat.zpow_neg, ← below]
  · have above : (power.natAbs : Int) = power := by omega
    rw [Rat.intCast_mul, Rat.intCast_natCast, magnitude, above]

section Decimals

variable {sign mantissa exponent units behind : Text} {negative : Bool} {number : Nat} {power : Int}
  (signed : Decimal.Sign sign negative) (pointed : Mantissa mantissa units behind)
  (digits : Decimal.Digits (units ++ behind) number) (raised : Exponent exponent power)

include pointed digits

/-- A mantissa holds digits and a point only. -/
theorem notMem_mantissa {char : Char} (other : char.isDigit = false ∧ char ≠ '.') :
    char ∉ mantissa := by
  intro member
  rcases pointed.mem member with digit | point
  · simp [digits.digits char digit] at other
  · exact other.2 point

theorem mantissa_unsigned : ∀ char ∈ (mantissa ++ exponent).head?, char ∉ ['+', '-'] := by
  have others : ∀ sign ∈ ['+', '-'], sign.isDigit = false ∧ sign ≠ '.' := by simp
  obtain ⟨first, rest, rfl⟩ := List.exists_cons_of_ne_nil (pointed.ne_nil digits.nonempty)
  intro char same member
  obtain rfl := Option.some.inj same
  exact notMem_mantissa pointed digits (others first member) List.mem_cons_self

theorem mantissa_plain : ∀ char ∈ mantissa, isExponentLetter char = false := by
  have others : ∀ letter ∈ ['e', 'E'], letter.isDigit = false ∧ letter ≠ '.' := by simp
  intro char member
  rw [Bool.eq_false_iff, Ne, isExponentLetter_iff]
  exact fun letter => notMem_mantissa pointed digits (others char letter) member

include signed raised

/-- A decimal holds digits and signs only. -/
theorem mem_decimal {char : Char} (member : char ∈ sign ++ (mantissa ++ exponent)) :
    char.isDigit = true ∨ char ∈ decimalSigns := by
  have signs : ['+', '-'] ⊆ decimalSigns := by decide
  rw [List.mem_append, List.mem_append] at member
  rcases member with front | inside | behind
  · exact .inr (signs (signed.mem front))
  · rcases pointed.mem inside with digit | rfl
    · exact .inl (digits.digits char digit)
    · exact .inr (by decide)
  · exact raised.mem behind

/-- A decimal is taken apart into its sign, its mantissa and its exponent. The point that parts the
mantissa is the first one because there are only digits before it. -/
theorem decimal?_append : decimal? (sign ++ (mantissa ++ exponent)) =
    some ((Decimal.signed negative number : Rat) * 10 ^ (power - behind.length)) := by
  have first : '.' ∉ units := by
    intro member
    have digit := digits.digits '.' (List.mem_append_left _ member)
    contradiction
  unfold decimal?
  rw [Decimal.splitSign_append signed (mantissa_unsigned pointed digits)]
  dsimp only
  rw [splitExponent?_append (mantissa_plain pointed digits) raised]
  dsimp only [Option.bind_eq_bind, Option.bind_some]
  rw [pointed.cut first]
  dsimp only
  rw [Decimal.read?_eq_some.2 digits, Option.bind_some, scaleByTen_eq]
  rfl

end Decimals

section Literals

variable {text : Text} {value : Rat}

theorem denotes_of_fraction? {numerator denominator : Text}
    (found : fraction? numerator denominator = some value) (first : '/' ∉ numerator) :
    Denotes (numerator ++ '/' :: denominator) value := by
  obtain ⟨above, top, found⟩ := Option.bind_eq_some_iff.1 found
  obtain ⟨below, bottom, found⟩ := Option.bind_eq_some_iff.1 found
  split at found
  · contradiction
  · rename_i nonzero
    obtain rfl := Option.some.inj found
    rw [Rat.mkRat_eq_div]
    exact .fraction rfl first (Decimal.readSigned?_eq_some.1 top) (Decimal.read?_eq_some.1 bottom)
      nonzero

theorem denotes_of_decimal? (found : decimal? text = some value) : Denotes text value := by
  unfold decimal? at found
  dsimp only at found
  obtain ⟨⟨mantissa, power⟩, split, found⟩ := Option.bind_eq_some_iff.1 found
  obtain ⟨number, digits, found⟩ := Option.bind_eq_some_iff.1 found
  obtain rfl := Option.some.inj found
  obtain ⟨sign, whole, shown⟩ := Decimal.exists_sign text
  obtain ⟨exponent, unsigned, power⟩ := exists_exponent split
  rw [unsigned] at whole
  rw [scaleByTen_eq]
  exact .decimal whole shown (mantissa_cut mantissa) (Decimal.read?_eq_some.1 digits) power

theorem Denotes.literal? (denotes : Denotes text value) : literal? text = some value := by
  cases denotes with
  | fraction whole first top bottom nonzero =>
    rw [whole, Duration.literal?, Text.cutFirst?_append first]
    dsimp only
    rw [fraction?, Decimal.readSigned?_eq_some.2 top, Decimal.read?_eq_some.2 bottom]
    simp [nonzero, Rat.mkRat_eq_div]
  | decimal whole signed pointed digits raised =>
    have noSlash : '/' ∉ text := by
      rw [whole]
      intro member
      rcases mem_decimal signed pointed digits raised member with digit | sign
      · contradiction
      · contradiction
    rw [Duration.literal?, Text.cutFirst?_none noSlash, whole]
    exact decimal?_append signed pointed digits raised

theorem literal?_eq_some : literal? text = some value ↔ Denotes text value := by
  constructor
  · intro found
    rw [Duration.literal?] at found
    split at found
    · rename_i numerator denominator cut
      obtain ⟨rfl, first⟩ := Text.cutFirst?_eq_some.1 cut
      exact denotes_of_fraction? found first
    · exact denotes_of_decimal? found
  · exact Denotes.literal?

/-- A literal has one value. -/
theorem Denotes.unique {other : Rat} (denotes : Denotes text value)
    (otherDenotes : Denotes text other) : value = other := by
  have same := denotes.literal?
  rw [otherDenotes.literal?] at same
  exact (Option.some.inj same).symm

theorem Denotes.nonempty (denotes : Denotes text value) : text ≠ [] := by
  rintro rfl
  have nothing : Duration.literal? [] = none := rfl
  rw [denotes.literal?] at nothing
  contradiction

theorem ofRat_eq_ok {duration : Duration} :
    ofRat value = .ok duration ↔ duration.value = value := by
  rw [ofRat]
  split
  · rw [Except.ok.injEq, Duration.ext_iff]
    exact eq_comm
  · rename_i refused
    exact iff_of_false nofun fun same => refused (same ▸ duration.positive)

theorem ofRat_eq_error {fault : Fault} :
    ofRat value = .error fault ↔ value ≤ 0 ∧ fault = .duration .notPositive := by
  rw [ofRat]
  split
  · rename_i positive
    exact iff_of_false nofun fun refused => Rat.not_le.2 positive refused.1
  · rename_i refused
    rw [Except.error.injEq, and_iff_right (Rat.not_lt.1 refused)]
    exact eq_comm

theorem read_of_denotes (denotes : Denotes text.trim value) : read text = ofRat value := by
  have nonempty : text.trim.isEmpty = false := by simpa using denotes.nonempty
  rw [read, nonempty, denotes.literal?]
  rfl

/-- A duration is read from the literals of its value. -/
theorem read_eq_ok {duration : Duration} :
    read text = .ok duration ↔ Denotes text.trim duration.value := by
  constructor
  · intro found
    rw [read] at found
    split at found
    · contradiction
    · split at found
      · rename_i value literal
        rw [ofRat_eq_ok.1 found]
        exact literal?_eq_some.1 literal
      · contradiction
  · intro denotes
    rw [read_of_denotes denotes, ofRat_eq_ok]

/-- A text is refused that is blank, that is no literal or whose value is not positive. -/
theorem fault_of_read {fault : Fault} (failed : read text = .error fault) :
    text.trim = [] ∧ fault = .duration .empty ∨
      text.trim ≠ [] ∧ (∀ value, ¬Denotes text.trim value) ∧
        fault = .duration (.malformed text.trim) ∨
      ∃ value ≤ 0, Denotes text.trim value ∧ fault = .duration .notPositive := by
  rw [read] at failed
  split at failed
  · rename_i empty
    exact .inl ⟨List.isEmpty_iff.1 empty, (Except.error.inj failed).symm⟩
  · rename_i nonempty
    split at failed
    · rename_i value literal
      obtain ⟨refused, blamed⟩ := ofRat_eq_error.1 failed
      exact .inr (.inr ⟨value, refused, literal?_eq_some.1 literal, blamed⟩)
    · rename_i nothing
      refine .inr (.inl ⟨by simpa using nonempty, ?_, (Except.error.inj failed).symm⟩)
      intro value denotes
      rw [denotes.literal?] at nothing
      contradiction

end Literals

/-- Exactly the literals of positive values are read, with blanks around them, and each is read as
its value in lowest terms. A literal is a fraction, cut at its first slash, or a decimal, whose
point and exponent move its digits by powers of ten. Any other text is refused as a duration. -/
theorem literals_exact (text : Text) :
    ((∃ duration, read text = .ok duration) ↔ ∃ value, Denotes text.trim value ∧ 0 < value) ∧
    (∀ duration value, read text = .ok duration → Denotes text.trim value →
      duration.value = value ∧ duration.value.num.natAbs.Coprime duration.value.den) ∧
    ∀ fault, read text = .error fault →
      text.trim = [] ∧ fault = .duration .empty ∨
        text.trim ≠ [] ∧ (∀ value, ¬Denotes text.trim value) ∧
          fault = .duration (.malformed text.trim) ∨
        ∃ value ≤ 0, Denotes text.trim value ∧ fault = .duration .notPositive := by
  refine ⟨?_, ?_, fun fault => fault_of_read⟩
  · constructor
    · intro succeeds
      obtain ⟨duration, found⟩ := succeeds
      exact ⟨duration.value, read_eq_ok.1 found, duration.positive⟩
    · intro literal
      obtain ⟨value, denotes, positive⟩ := literal
      exact ⟨⟨value, positive⟩, read_eq_ok.2 denotes⟩
  · intro duration value found denotes
    exact ⟨(read_eq_ok.1 found).unique denotes, duration.value.reduced⟩

/-- A decimal with a sign, a point and an exponent between blanks. Of the refused texts one has an
exponent beyond the limit and the other one is below zero. -/
theorem literals_exact_quarter :
    let quarter : Text := [' ', '+', '2', '.', '5', '0', 'e', '-', '1', '\n']
    let huge : Text := ['1', 'e', '4', '0', '9', '7']
    let below : Text := ['-', '1', ' ', '/', '2']
    Denotes quarter.trim (1 / 4) ∧
      (∃ duration, read quarter = .ok duration ∧ duration.value = 1 / 4) ∧
      read huge = .error (.duration (.malformed huge)) ∧ (∀ value, ¬Denotes huge.trim value) ∧
      read below = .error (.duration .notPositive) ∧ ∃ value ≤ 0, Denotes below.trim value := by
  intro quarter huge below
  have tenth : Decimal.Signed ['-', '1'] (-1) := .parts rfl .minus ⟨by decide, by simp, rfl⟩
  have shape : quarter.trim = ['+'] ++ (['2', '.', '5', '0'] ++ ['e', '-', '1']) := by decide
  have scaled : ((Decimal.signed false 250 : Int) : Rat) * 10 ^ (-1 - 2 : Int) = 1 / 4 := by
    decide +kernel
  have denotes : Denotes quarter.trim (1 / 4) := scaled ▸
    .decimal shape .plus (.pointed ['2'] ['5', '0']) ⟨by decide, by simp, rfl⟩
      (.shown (by decide) tenth (by decide))
  have hugeFault : read huge = .error (.duration (.malformed huge)) := by decide +kernel
  have belowFault : read below = .error (.duration .notPositive) := by decide +kernel
  obtain ⟨accepted, denoted, _⟩ := literals_exact quarter
  obtain ⟨duration, found⟩ := accepted.2 ⟨1 / 4, denotes, by decide +kernel⟩
  refine ⟨denotes, ⟨duration, found, (denoted duration _ found denotes).1⟩, hugeFault, ?_,
    belowFault, ?_⟩
  · rcases (literals_exact huge).2.2 _ hugeFault with empty | malformed | refused
    · exact absurd empty.1 (by decide)
    · exact malformed.2.1
    · obtain ⟨_, _, _, other⟩ := refused
      exact absurd other (by decide)
  · rcases (literals_exact below).2.2 _ belowFault with empty | malformed | refused
    · exact absurd empty.1 (by decide)
    · exact absurd malformed.2.2 (by decide)
    · obtain ⟨value, refused, denotes, _⟩ := refused
      exact ⟨value, refused, denotes⟩

end Duration

end JazzGrammar
