/-
Reading a written duration gives the duration back.
-/

import JazzGrammar.Proofs.Literal.Grammar
import Mathlib.Algebra.Group.Nat.Defs
import Mathlib.Algebra.Order.Ring.Unbundled.Rat

namespace JazzGrammar

namespace Decimal

theorem isDigit_of_mem_write {number : Nat} {char : Char} (member : char ∈ write number) :
    char.isDigit = true :=
  Nat.isDigit_of_mem_toDigits (by decide) (by decide) member

/-- A character that is no digit stands in no digit string. -/
theorem notMem_write {number : Nat} {char : Char} (other : char.isDigit = false) :
    char ∉ write number := by
  intro member
  rw [isDigit_of_mem_write member] at other
  contradiction

theorem write_ne_nil (number : Nat) : write number ≠ [] := by
  simp [write]

theorem solid_of_digits {text : Text} (digits : ∀ char ∈ text, char.isDigit = true) :
    Text.Solid text := by
  intro char member
  have digit := digits char member
  simp only [Char.isDigit, Bool.and_eq_true, decide_eq_true_eq, UInt32.le_iff_toNat_le] at digit
  have code : char.toNat = char.val.toNat := rfl
  have low : 48 ≤ char.toNat := digit.1
  have high : char.toNat ≤ 57 := digit.2
  simp only [Text.isBlank, Bool.or_eq_false_iff, Bool.and_eq_false_iff, decide_eq_false_iff_not,
    beq_eq_false_iff_ne]
  omega

theorem solid_write (number : Nat) : Text.Solid (write number) :=
  solid_of_digits fun _ member => isDigit_of_mem_write member

theorem digits_write (number : Nat) : Digits (write number) number :=
  read?_eq_some.1 (read_write number)

theorem signed_writeSigned (number : Int) : Signed (writeSigned number) number := by
  rw [writeSigned]
  split
  · rename_i below
    have minus : Signed ('-' :: write number.natAbs) (signed true number.natAbs) :=
      .parts rfl .minus (digits_write _)
    have same : signed true number.natAbs = number := by
      rw [signed, if_pos rfl]
      omega
    rwa [same] at minus
  · rename_i above
    have plain : Signed (write number.natAbs) (signed false number.natAbs) :=
      .parts rfl .absent (digits_write _)
    have same : signed false number.natAbs = number := by
      rw [signed, if_neg Bool.false_ne_true]
      omega
    rwa [same] at plain

theorem isDigit_of_mem_zeros (count : Nat) :
    ∀ char ∈ List.replicate count '0', char.isDigit = true := by
  intro char member
  rw [List.eq_of_mem_replicate member]
  rfl

/-- Zeros behind a digit string multiply its number by powers of ten. -/
theorem Digits.append_zeros {text : Text} {number : Nat} (shown : Digits text number)
    (count : Nat) : Digits (text ++ List.replicate count '0') (number * 10 ^ count) where
  nonempty := by simp [shown.nonempty]
  digits := List.forall_mem_append.2 ⟨shown.digits, isDigit_of_mem_zeros count⟩
  number := by
    rw [Nat.ofDigitChars_append, shown.number, Nat.ofDigitChars_replicate_zero, Nat.mul_comm]

theorem Digits.zeros_append {text : Text} {number : Nat} (shown : Digits text number)
    (count : Nat) : Digits (List.replicate count '0' ++ text) number where
  nonempty := by simp [shown.nonempty]
  digits := List.forall_mem_append.2 ⟨isDigit_of_mem_zeros count, shown.digits⟩
  number := by
    rw [Nat.ofDigitChars_append, Nat.ofDigitChars_replicate_zero, Nat.mul_zero, shown.number]

end Decimal

namespace Duration

/-- No blanks stand around a decimal. -/
theorem denotes_trim {sign mantissa exponent units behind : Text} {negative : Bool} {number : Nat}
    {power : Int} (signed : Decimal.Sign sign negative) (pointed : Mantissa mantissa units behind)
    (digits : Decimal.Digits (units ++ behind) number) (raised : Exponent exponent power) :
    Denotes (Text.trim (sign ++ (mantissa ++ exponent)))
      (Decimal.signed negative number * 10 ^ (power - behind.length)) := by
  have signs : Text.Solid decimalSigns := by decide
  have solid : Text.Solid (sign ++ (mantissa ++ exponent)) := by
    intro char member
    rcases mem_decimal signed pointed digits raised member with digit | sign
    · exact Decimal.solid_of_digits (by simpa using digit) char (List.mem_singleton_self char)
    · exact signs char sign
  rw [Text.trim_solid solid]
  exact .decimal rfl signed pointed digits raised

/-- A whole number is written as a literal of its value. -/
theorem denotes_writeSigned (number : Int) :
    Denotes (Text.trim (Decimal.writeSigned number)) number := by
  obtain ⟨whole, sign, digits⟩ := Decimal.signed_writeSigned number
  have literal := denotes_trim sign (.whole _) (by simpa using digits) .absent
  rw [whole]
  simpa using literal

/-- Blanks around a literal make no difference. -/
theorem read_trim (text : Text) : read text.trim = read text := by
  rw [read, read, Text.trim_trim]

theorem num_positive (duration : Duration) : 0 < duration.value.num :=
  Rat.num_pos.2 duration.positive

/-- The numerator of a duration is written without a sign. -/
theorem writeSigned_num (duration : Duration) :
    Decimal.writeSigned duration.value.num = Decimal.write duration.value.num.natAbs := by
  have positive := duration.num_positive
  rw [Decimal.writeSigned, if_neg (by omega)]

theorem write_whole {duration : Duration} (whole : duration.value.den = 1) :
    duration.write = Decimal.write duration.value.num.natAbs := by
  rw [write, writeRat, if_pos whole, writeSigned_num]

theorem write_fraction {duration : Duration} (fraction : duration.value.den ≠ 1) :
    duration.write = Decimal.write duration.value.num.natAbs ++
      '/' :: Decimal.write duration.value.den := by
  rw [write, writeRat, if_neg fraction, writeSigned_num]

/-- A written duration holds digits and a slash only. -/
theorem mem_write {duration : Duration} {char : Char} (member : char ∈ duration.write) :
    char.isDigit = true ∨ char = '/' := by
  by_cases whole : duration.value.den = 1
  · rw [write_whole whole] at member
    exact .inl (Decimal.isDigit_of_mem_write member)
  · rw [write_fraction whole, List.mem_append, List.mem_cons] at member
    rcases member with above | slash | below
    · exact .inl (Decimal.isDigit_of_mem_write above)
    · exact .inr slash
    · exact .inl (Decimal.isDigit_of_mem_write below)

theorem solid_write (duration : Duration) : Text.Solid duration.write := by
  by_cases whole : duration.value.den = 1
  · rw [write_whole whole]
    exact Decimal.solid_write _
  · rw [write_fraction whole]
    exact (Decimal.solid_write _).append (.cons (by decide) (Decimal.solid_write _))

theorem write_ne_nil (duration : Duration) : duration.write ≠ [] := by
  by_cases whole : duration.value.den = 1
  · rw [write_whole whole]
    exact Decimal.write_ne_nil _
  · simp [write_fraction whole]

/-- A written duration is a literal of its value. A whole number is a decimal without point and
exponent. -/
theorem denotes_write (duration : Duration) : Denotes duration.write duration.value := by
  have magnitude : Decimal.signed false duration.value.num.natAbs = duration.value.num :=
    Int.natAbs_of_nonneg (Int.le_of_lt duration.num_positive)
  have digits (number : Nat) := Decimal.digits_write number
  by_cases whole : duration.value.den = 1
  · have shape : duration.write = [] ++ (Decimal.write duration.value.num.natAbs ++ []) := by
      rw [write_whole whole, List.append_nil, List.nil_append]
    have literal : Denotes duration.write _ :=
      .decimal shape .absent (.whole _) (by simpa using digits duration.value.num.natAbs) .absent
    rw [magnitude, (Rat.den_eq_one_iff _).1 whole] at literal
    simpa using literal
  · have above : Decimal.Signed (Decimal.write duration.value.num.natAbs) duration.value.num :=
      magnitude ▸ .parts rfl .absent (digits _)
    have noSlash : '/' ∉ Decimal.write duration.value.num.natAbs := Decimal.notMem_write (by decide)
    rw [← Text.trim_solid (Decimal.solid_write _)] at above
    have below := digits duration.value.den
    rw [← Text.trim_solid (Decimal.solid_write _)] at below
    have literal := Denotes.fraction (write_fraction whole) noSlash above below
      duration.value.den_ne_zero
    rwa [← Rat.mkRat_eq_div, Rat.mkRat_self] at literal

theorem read_write (duration : Duration) : read duration.write = .ok duration := by
  rw [read_eq_ok, Text.trim_solid duration.solid_write]
  exact duration.denotes_write

/-- The characters of literals beside digits and blanks. -/
def signs : Text :=
  ['+', '-', '/', '.', 'e', 'E']

/-- A literal holds nothing but blanks, digits and signs. -/
theorem Denotes.mem {text : Text} {value : Rat} (denotes : Denotes text value) {char : Char}
    (member : char ∈ text) :
    Text.isBlank char = true ∨ char.isDigit = true ∨ char ∈ signs := by
  have allowed : ['+', '-'] ⊆ signs := by decide
  have decimals : decimalSigns ⊆ signs := by decide
  cases denotes with
  | fraction whole first top bottom nonzero =>
    rw [whole, List.mem_append, List.mem_cons] at member
    rcases member with inside | rfl | inside
    · refine (Text.mem_trim inside).imp_right fun visible => ?_
      exact (top.mem visible).symm.imp_right fun sign => allowed sign
    · exact .inr (.inr (by decide))
    · exact (Text.mem_trim inside).imp_right fun visible => .inl (bottom.digits char visible)
  | decimal whole signed pointed digits raised =>
    rw [whole] at member
    have inside := mem_decimal signed pointed digits raised member
    exact .inr (inside.imp_right fun sign => decimals sign)

/-- The characters of a text that is read as a duration. -/
theorem mem_of_read {text : Text} {duration : Duration} (found : read text = .ok duration)
    {char : Char} (member : char ∈ text) :
    Text.isBlank char = true ∨ char.isDigit = true ∨ char ∈ signs := by
  rcases Text.mem_trim member with blank | inside
  · exact .inl blank
  · exact (read_eq_ok.1 found).mem inside

end Duration

end JazzGrammar
