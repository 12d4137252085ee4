/-
The shortest text of a finite number is a literal, and it is positive when the number is.
-/

import JazzGrammar.Proofs.Binary64

namespace JazzGrammar

namespace Binary64

section Decimals

variable {number : Binary64} {digits : Nat} {power : Int}

/-- A quarter of the unit in the last place, in which the bounds of rounding are counted. -/
def quarter (number : Binary64) : Rat :=
  2 ^ number.exponent / 4

theorem quarter_positive (number : Binary64) : 0 < number.quarter :=
  div_pos (zpow_pos two_pos _) four_pos

/-- The quotient of a decimal, put over another quotient. -/
theorem tenfold_div (digits unit base : Nat) (power : Int) :
    let compared := if power < 0 then (digits * unit, base * Nat.pow 10 power.natAbs)
      else (digits * Nat.pow 10 power.natAbs * unit, base)
    (compared.1 : Rat) / compared.2 = digits * 10 ^ power * (unit / base) := by
  intro compared
  unfold compared
  split
  · rename_i below
    rw [zpow_of_neg below, Nat.pow_eq]
    push_cast
    rw [← div_eq_mul_inv, div_mul_div_comm, mul_comm (base : Rat)]
  · rename_i above
    rw [zpow_of_nonneg above, Nat.pow_eq]
    push_cast
    rw [mul_div_assoc]

/-- A decimal reads back when it lies between the bounds, which belong to even significands. -/
theorem readsBack_iff : number.readsBack digits power = true ↔
    if number.significand % 2 = 0 then
      number.roundingBounds.1 * number.quarter ≤ digits * 10 ^ power ∧
        digits * 10 ^ power ≤ number.roundingBounds.2 * number.quarter
    else
      number.roundingBounds.1 * number.quarter < digits * 10 ^ power ∧
        digits * 10 ^ power < number.roundingBounds.2 * number.quarter := by
  have unit := scaleDown_div 4 1 number.exponent
  have base := @scaleDown_positive 4 1 Nat.one_pos number.exponent
  unfold readsBack
  dsimp only
  generalize scaleDown 4 1 number.exponent = scaled at unit base ⊢
  have ratio := tenfold_div digits scaled.1 scaled.2 power
  have below : 0 < (if power < 0 then (digits * scaled.1, scaled.2 * Nat.pow 10 power.natAbs)
      else (digits * Nat.pow 10 power.natAbs * scaled.1, scaled.2)).2 := by
    split
    · exact Nat.mul_pos base (Nat.pow_pos (by decide))
    · exact base
  dsimp only at ratio
  generalize (if power < 0 then (digits * scaled.1, scaled.2 * Nat.pow 10 power.natAbs)
    else (digits * Nat.pow 10 power.natAbs * scaled.1, scaled.2)) = compared at ratio below ⊢
  have quarters : (scaled.1 : Rat) / scaled.2 = 1 / number.quarter := by
    rw [unit, quarter, one_div_div]
    norm_num
  rw [quarters, mul_one_div] at ratio
  have denominator : (0 : Rat) < compared.2 := Nat.cast_pos.2 below
  have low (bound : Nat) : bound * compared.2 ≤ compared.1 ↔
      bound * number.quarter ≤ digits * 10 ^ power := by
    rw [← le_div_iff₀ number.quarter_positive, ← ratio, le_div_iff₀ denominator]
    exact_mod_cast Iff.rfl
  have high (bound : Nat) : compared.1 ≤ bound * compared.2 ↔
      digits * 10 ^ power ≤ bound * number.quarter := by
    rw [← div_le_iff₀ number.quarter_positive, ← ratio, div_le_iff₀ denominator]
    exact_mod_cast Iff.rfl
  by_cases even : number.significand % 2 = 0
  · simp [even, low, high]
  · simp [even, ← not_le, low, high]

theorem tenth_div (numerator denominator : Nat) (power : Int) :
    let scaled := if power < 0 then (numerator * Nat.pow 10 power.natAbs, denominator)
      else (numerator, denominator * Nat.pow 10 power.natAbs)
    (scaled.1 : Rat) / scaled.2 = numerator / denominator / 10 ^ power := by
  intro scaled
  unfold scaled
  split
  · rename_i below
    rw [zpow_of_neg below, Nat.pow_eq, div_inv_eq_mul]
    push_cast
    rw [mul_div_right_comm]
  · rename_i above
    rw [zpow_of_nonneg above, Nat.pow_eq]
    push_cast
    rw [div_div]

variable (positive : 0 < number.significand)

include positive

/-- The bounds leave zero out and lie on both sides of the number. -/
theorem roundingBounds_spec : 2 ≤ number.roundingBounds.1 ∧
    number.roundingBounds.1 + 1 ≤ 4 * number.significand ∧
    number.roundingBounds.2 = 4 * number.significand + 2 := by
  rw [roundingBounds]
  dsimp only
  split <;> omega

/-- A decimal that reads back is not zero and exceeds the number by half a unit at most. -/
theorem bounds_of_readsBack (reads : number.readsBack digits power = true) :
    0 < digits ∧ digits * 10 ^ power ≤ (4 * number.significand + 2) * number.quarter := by
  obtain ⟨two, _, high⟩ := roundingBounds_spec positive
  have quarters := number.quarter_positive
  have least : (2 : Rat) ≤ number.roundingBounds.1 := by exact_mod_cast two
  have lower : 2 * number.quarter ≤ number.roundingBounds.1 * number.quarter :=
    mul_le_mul_of_nonneg_right least quarters.le
  have between : number.roundingBounds.1 * number.quarter ≤ digits * 10 ^ power ∧
      digits * 10 ^ power ≤ number.roundingBounds.2 * number.quarter := by
    rw [readsBack_iff] at reads
    split at reads
    · exact reads
    · exact ⟨reads.1.le, reads.2.le⟩
  rw [high] at between
  push_cast at between
  refine ⟨?_, between.2⟩
  by_contra zero
  rw [Nat.eq_zero_of_not_pos zero, Nat.cast_zero, zero_mul] at between
  linarith

/-- On a grid that is fine enough the decimal right below the number reads back. -/
theorem readsBack_of_floor (fine : 10 ^ power ≤ number.quarter)
    (floor : digits * 10 ^ power ≤ 4 * number.significand * number.quarter)
    (next : 4 * number.significand * number.quarter < (digits + 1) * 10 ^ power) :
    number.readsBack digits power = true := by
  obtain ⟨_, low, high⟩ := roundingBounds_spec positive
  have quarters := number.quarter_positive
  have lower : (number.roundingBounds.1 + 1) * number.quarter ≤
      4 * number.significand * number.quarter :=
    mul_le_mul_of_nonneg_right (by exact_mod_cast low) quarters.le
  have above : number.roundingBounds.1 * number.quarter < digits * 10 ^ power := by linarith
  have beneath : digits * 10 ^ power < number.roundingBounds.2 * number.quarter := by
    rw [high]
    push_cast
    linarith
  rw [readsBack_iff]
  split
  · exact ⟨above.le, beneath.le⟩
  · exact ⟨above, beneath⟩

/-- So a grid that is fine enough holds a decimal that reads back. -/
theorem exists_onGrid? (fine : 10 ^ power ≤ number.quarter) :
    ∃ digits, number.onGrid? power = some digits := by
  have ratio := scaleDown_div number.significand 1 (-number.exponent)
  have below := @scaleDown_positive number.significand 1 Nat.one_pos (-number.exponent)
  unfold onGrid? quotient
  dsimp only
  generalize scaleDown number.significand 1 (-number.exponent) = quotient at ratio below ⊢
  have grid := tenth_div quotient.1 quotient.2 power
  have unit : 0 < (if power < 0 then (quotient.1 * Nat.pow 10 power.natAbs, quotient.2)
      else (quotient.1, quotient.2 * Nat.pow 10 power.natAbs)).2 := by
    split
    · exact below
    · exact Nat.mul_pos below (Nat.pow_pos (by decide))
  dsimp only at grid
  generalize (if power < 0 then (quotient.1 * Nat.pow 10 power.natAbs, quotient.2)
    else (quotient.1, quotient.2 * Nat.pow 10 power.natAbs)) = scaled at grid unit ⊢
  rw [← Option.isSome_iff_exists, List.find?_isSome]
  have held : (number.significand : Rat) * 2 ^ number.exponent =
      4 * number.significand * number.quarter := by
    rw [quarter]
    ring
  rw [ratio, zpow_neg, Nat.cast_one, div_one, div_inv_eq_mul, held] at grid
  have tens : (0 : Rat) < 10 ^ power := zpow_pos (by norm_num) _
  refine ⟨scaled.1 / scaled.2, by simp, readsBack_of_floor positive fine ?_ ?_⟩
  · rw [← le_div_iff₀ tens, ← grid]
    exact Nat.cast_div_le
  · rw [← div_lt_iff₀ tens, ← grid, div_lt_iff₀ (Nat.cast_pos.2 unit), mul_comm]
    exact_mod_cast Nat.lt_mul_div_succ scaled.1 unit

omit positive in
theorem coarsest_spec {powers : List Int} {fine : Int} (member : fine ∈ powers)
    (found : ∃ digits, number.onGrid? fine = some digits) :
    (number.coarsest powers).2 ∈ powers ∧
      number.onGrid? (number.coarsest powers).2 = some (number.coarsest powers).1 := by
  induction powers with
  | nil => contradiction
  | cons first rest ih =>
    rw [coarsest]
    cases shown : number.onGrid? first with
    | some digits => exact ⟨List.mem_cons_self, shown⟩
    | none =>
      have later : fine ∈ rest := by
        refine (List.mem_cons.1 member).resolve_left ?_
        rintro rfl
        simp [shown] at found
      exact (ih later).imp_left (List.mem_cons_of_mem _)

omit positive in
theorem readsBack_of_onGrid? (found : number.onGrid? power = some digits) :
    number.readsBack digits power = true := by
  unfold onGrid? at found
  exact @List.find?_some _ (fun digits => number.readsBack digits power) _ _ found

omit positive in
theorem tenth_le_quarter {places bits : Nat} (powers : 2 ^ bits * 4 ≤ 10 ^ places) :
    (10 : Rat) ^ (-(places : Int)) ≤ 2 ^ (-(bits : Int)) / 4 := by
  rw [zpow_neg, zpow_natCast, zpow_neg, zpow_natCast, div_eq_mul_inv, ← mul_inv]
  exact inv_anti₀ (by positivity) (by exact_mod_cast powers)

/-- The finest grid that is tried is finer than the last place of the least numbers. -/
theorem shortest_spec (least : leastExponent ≤ number.exponent) :
    -324 ≤ number.shortest.2 ∧ number.readsBack number.shortest.1 number.shortest.2 = true := by
  have fine : (10 : Rat) ^ (-324 : Int) ≤ number.quarter := by
    refine (@tenth_le_quarter 324 1074 (by decide +kernel)).trans ?_
    exact div_le_div_of_nonneg_right (zpow_le_zpow_right₀ one_le_two least) four_pos.le
  have member : (-324 : Int) ∈ (List.range 634).map fun (step : Nat) => (309 : Int) - step :=
    List.mem_map.2 ⟨633, by simp, rfl⟩
  obtain ⟨inside, found⟩ := coarsest_spec member (exists_onGrid? positive fine)
  refine ⟨?_, readsBack_of_onGrid? found⟩
  obtain ⟨step, bound, same⟩ := List.mem_map.1 inside
  rw [shortest, ← same]
  rw [List.mem_range] at bound
  omega

omit positive in
/-- A decimal is at least the power of ten of its first digit. -/
theorem zpow_le_decimal (whole : 0 < digits) (power : Int) :
    (10 : Rat) ^ (power + (Decimal.write digits).length - 1) ≤ digits * 10 ^ power := by
  have length := @Nat.length_toDigits_pos 10 digits
  obtain ⟨behind, size⟩ := Nat.exists_eq_add_one_of_ne_zero length.ne'
  have leading : 10 ^ behind ≤ digits := by
    cases behind with
    | zero => exact whole
    | succ fewer =>
      have long := mt (Nat.length_toDigits_le_iff (by decide) (Nat.succ_pos fewer)).2
        (by rw [size]; exact Nat.not_succ_le_self _ : ¬(Nat.toDigits 10 digits).length ≤ fewer + 1)
      exact not_lt.1 long
  have exponent : power + ((Nat.toDigits 10 digits).length : Int) - 1 = power + behind := by
    rw [size]
    push_cast
    ring
  rw [Decimal.write, exponent, zpow_add₀ (by norm_num), zpow_natCast, mul_comm]
  exact mul_le_mul_of_nonneg_right (by exact_mod_cast leading) (zpow_pos (by norm_num) _).le

omit positive in
/-- Finite numbers keep below a power of two. -/
theorem Finite.bound (finite : number.Finite) :
    (4 * number.significand + 2) * number.quarter ≤ 2 ^ (1024 : Int) := by
  have quarters := number.quarter_positive
  have significand : (4 * number.significand + 2 : Rat) ≤ 4 * 2 ^ (53 : Int) := by
    have whole := finite.significand
    rw [significandBound] at whole
    have wide : 4 * number.significand + 2 ≤ 4 * 9007199254740992 := by omega
    norm_num
    exact_mod_cast wide
  have exponent : (2 : Rat) ^ number.exponent ≤ 2 ^ (971 : Int) :=
    zpow_le_zpow_right₀ one_le_two finite.greatest
  calc (4 * number.significand + 2) * number.quarter
      ≤ 4 * 2 ^ (53 : Int) * number.quarter := mul_le_mul_of_nonneg_right significand quarters.le
    _ = 2 ^ (53 : Int) * 2 ^ number.exponent := by rw [quarter]; ring
    _ ≤ 2 ^ (53 : Int) * 2 ^ (971 : Int) :=
        mul_le_mul_of_nonneg_left exponent (zpow_pos two_pos _).le
    _ = 2 ^ (1024 : Int) := by rw [← zpow_add₀ two_ne_zero]; rfl

/-- The point stands less than four thousand places off the first digit. -/
theorem Finite.exponent_le (finite : number.Finite) :
    (number.shortest.2 + (Decimal.write number.shortest.1).length - 1 : Int).natAbs ≤ 4096 := by
  obtain ⟨lowest, reads⟩ := shortest_spec positive finite.least
  obtain ⟨whole, upper⟩ := bounds_of_readsBack positive reads
  have length : 0 < (Decimal.write number.shortest.1).length := Nat.length_toDigits_pos
  have bounded : (10 : Rat) ^ (number.shortest.2 + (Decimal.write number.shortest.1).length - 1) ≤
      10 ^ (1024 : Int) := by
    refine (zpow_le_decimal whole _).trans (upper.trans (finite.bound.trans ?_))
    exact zpow_le_zpow_left₀ (by decide) two_pos.le (by norm_num)
  have highest := (zpow_le_zpow_iff_right₀ (by norm_num : (1 : Rat) < 10)).1 bounded
  omega

end Decimals

section Layout

variable {sign text : Text} {negative : Bool} {number : Nat}

theorem signed_mul (negative : Bool) (magnitude factor : Nat) :
    Decimal.signed negative (magnitude * factor) = Decimal.signed negative magnitude * factor := by
  cases negative <;> simp [Decimal.signed]

theorem signed_positive_iff :
    0 < Decimal.signed negative number ↔ negative = false ∧ 0 < number := by
  cases negative <;> simp [Decimal.signed]

variable (signed : Decimal.Sign sign negative) (shown : Decimal.Digits text number)

include signed shown

/-- Zeros behind the digits and one behind the point. -/
theorem denotes_whole (zeros : Nat) :
    Duration.Denotes (Text.trim (sign ++ (text ++ List.replicate zeros '0' ++ ['.', '0'])))
      (Decimal.signed negative number * 10 ^ (zeros : Int)) := by
  have digits := shown.append_zeros (zeros + 1)
  rw [List.replicate_succ', ← List.append_assoc] at digits
  have literal := Duration.denotes_trim signed (.pointed _ ['0']) digits .absent
  have value : ((Decimal.signed negative (number * 10 ^ (zeros + 1)) : Int) : Rat) *
      10 ^ (0 - ((['0'] : Text).length : Int)) =
        Decimal.signed negative number * 10 ^ (zeros : Int) := by
    rw [signed_mul, List.length_singleton, zero_sub, Nat.cast_one, zpow_neg_one, zpow_natCast]
    push_cast
    rw [pow_succ, ← mul_assoc, mul_assoc, mul_inv_cancel₀ (by norm_num), mul_one]
  rw [value] at literal
  simpa using literal

/-- The point among the digits. -/
theorem denotes_among {place : Nat} (within : place ≤ text.length) :
    Duration.Denotes (Text.trim (sign ++ (text.take place ++ '.' :: text.drop place)))
      (Decimal.signed negative number * 10 ^ (place - text.length : Int)) := by
  rw [← List.take_append_drop place text] at shown
  have literal := Duration.denotes_trim signed (.pointed _ _) shown .absent
  have exponent : (0 : Int) - (text.length - place : Nat) = place - text.length := by omega
  rw [List.length_drop, exponent] at literal
  simpa using literal

/-- The point in front of zeros and the digits. -/
theorem denotes_behind (zeros : Nat) :
    Duration.Denotes (Text.trim (sign ++ ('0' :: '.' :: List.replicate zeros '0' ++ text)))
      (Decimal.signed negative number * 10 ^ (-(zeros + text.length : Nat) : Int)) := by
  have digits := shown.zeros_append (zeros + 1)
  rw [List.replicate_succ, List.cons_append, ← List.singleton_append] at digits
  have literal := Duration.denotes_trim signed (.pointed _ _) digits .absent
  rw [List.length_append, List.length_replicate, zero_sub] at literal
  simpa using literal

/-- One digit in front of the point, which is left out with no digits behind it, and an exponent. -/
theorem denotes_raised {power : Int} (limited : power.natAbs ≤ 4096) :
    Duration.Denotes (Text.trim (sign ++ (text.take 1 ++
      (if (text.drop 1).isEmpty then [] else '.' :: text.drop 1) ++
        'e' :: Decimal.writeSigned power)))
      (Decimal.signed negative number * 10 ^ (power + 1 - text.length)) := by
  have raised : Duration.Exponent ('e' :: Decimal.writeSigned power) power :=
    .shown (by decide) (Decimal.signed_writeSigned _) limited
  obtain ⟨first, rest, rfl⟩ := List.exists_cons_of_ne_nil shown.nonempty
  cases rest with
  | nil =>
    have literal := Duration.denotes_trim signed (.whole _) (by simpa using shown) raised
    simpa using literal
  | cons second later =>
    have literal := Duration.denotes_trim signed (.pointed [first] (second :: later)) shown raised
    have exponent : power + 1 - ((first :: second :: later).length : Int) =
        power - (second :: later).length := by
      simp only [List.length_cons]
      omega
    rw [exponent]
    simpa using literal

/-- The text of a magnitude is a literal of its digits times its power of ten. -/
theorem denotes_writeMagnitude {power : Int} (limited : (power + text.length - 1).natAbs ≤ 4096) :
    Duration.Denotes (Text.trim (sign ++ writeMagnitude text power))
      (Decimal.signed negative number * 10 ^ power) := by
  rw [writeMagnitude]
  dsimp only
  split
  · rename_i whole
    rw [Bool.and_eq_true, decide_eq_true_iff] at whole
    have literal := denotes_whole signed shown power.natAbs
    rwa [Int.natAbs_of_nonneg whole.1] at literal
  · rename_i long
    rw [Bool.and_eq_true, decide_eq_true_iff, decide_eq_true_iff] at long
    split
    · rename_i among
      rw [Bool.and_eq_true, decide_eq_true_iff, decide_eq_true_iff] at among
      have within : (power + text.length).natAbs ≤ text.length := by omega
      have exponent : ((power + text.length).natAbs : Int) - text.length = power := by omega
      have literal := denotes_among signed shown within
      rwa [exponent] at literal
    · split
      · rename_i before
        rw [Bool.and_eq_true, decide_eq_true_iff, decide_eq_true_iff] at before
        have exponent : -(((power + text.length).natAbs + text.length : Nat) : Int) = power := by
          omega
        have literal := denotes_behind signed shown (power + text.length).natAbs
        rwa [exponent] at literal
      · have exponent : power + text.length - 1 + 1 - text.length = power := by omega
        have literal := denotes_raised signed shown limited
        rwa [exponent] at literal

end Layout

theorem signed_zpow_positive_iff {negative : Bool} {number : Nat} {base : Rat} (above : 0 < base)
    (power : Int) :
    0 < Decimal.signed negative number * base ^ power ↔ negative = false ∧ 0 < number := by
  rw [mul_pos_iff_of_pos_right (zpow_pos above power), Int.cast_pos, signed_positive_iff]

theorem exists_sign_write (number : Binary64) :
    ∃ sign, Decimal.Sign sign number.negative ∧ number.write = sign ++
      (if number.significand = 0 then ['0', '.', '0']
        else writeMagnitude (Decimal.write number.shortest.1) number.shortest.2) := by
  rw [write]
  cases number.negative with
  | false => exact ⟨[], .absent, rfl⟩
  | true => exact ⟨['-'], .minus, rfl⟩

/-- The text of a finite number is a literal. It need not show the exact value, but it shows a
positive one when the number is positive. -/
theorem Finite.exists_denotes {number : Binary64} (finite : number.Finite) :
    ∃ shown, Duration.Denotes number.write.trim shown ∧ (0 < shown ↔ 0 < number.value) := by
  obtain ⟨sign, signed, written⟩ := exists_sign_write number
  rw [written, value, signed_zpow_positive_iff two_pos]
  by_cases zero : number.significand = 0
  · rw [if_pos zero, zero]
    have literal := denotes_whole signed (Decimal.digits_write 0) 0
    exact ⟨_, literal, signed_zpow_positive_iff (by norm_num) _⟩
  · have positive := Nat.pos_of_ne_zero zero
    obtain ⟨whole, _⟩ := bounds_of_readsBack positive (shortest_spec positive finite.least).2
    rw [if_neg zero]
    refine ⟨_, denotes_writeMagnitude signed (Decimal.digits_write _) (finite.exponent_le positive),
      ?_⟩
    rw [signed_zpow_positive_iff (by norm_num)]
    exact and_congr_right fun _ => iff_of_true whole positive

end Binary64

end JazzGrammar
