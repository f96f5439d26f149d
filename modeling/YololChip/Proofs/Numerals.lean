import Mathlib.Data.Nat.Digits.Defs
import YololChip.Fixed.Numeral

/-!
# Numerals are read as what they write

The written form of a number is read back as that number, over the whole range and
with both signs. The digits before the point carry the whole part, and are never so many
that reading breaks off at them. Those after it lose the zeros at their end when they are
written, and reading fills four places again.
-/

namespace YololChip.Fixed

/-- The value of a row of digits is what the library makes of it in base ten. -/
theorem digitsValue_eq (digits : List Char) :
    digitsValue digits = Nat.ofDigitChars 10 digits 0 := by
  rw [Nat.ofDigitChars_eq_foldl, digitsValue]
  congr 1
  funext value c
  rw [digitValue, Nat.mul_comm]

/-- One more digit at the end counts once, and all others count ten times as much. -/
theorem digitsValue_append_singleton (digits : List Char) (c : Char) :
    digitsValue (digits ++ [c]) = digitsValue digits * 10 + digitValue c := by
  simp [digitsValue]

/-- The digit of a number below ten has that number as its value. -/
theorem digitValue_digitChar {n : Nat} (small : n < 10) : digitValue n.digitChar = n := by
  simpa [digitValue] using Nat.toNat_digitChar_sub_48_of_lt_ten small

@[simp] theorem length_paddedDigits (places n : Nat) : (paddedDigits places n).length = places := by
  induction places generalizing n with
  | zero => rfl
  | succ places inductionHypothesis => simp [paddedDigits, inductionHypothesis]

theorem isDigit_of_mem_paddedDigits {places n : Nat} {c : Char}
    (member : c ∈ paddedDigits places n) : c.isDigit = true := by
  induction places generalizing n with
  | zero => simp [paddedDigits] at member
  | succ places inductionHypothesis =>
    rw [paddedDigits] at member
    rcases List.mem_append.mp member with higher | last
    · exact inductionHypothesis higher
    · rw [List.mem_singleton.mp last, Nat.isDigit_digitChar]
      exact decide_eq_true (Nat.mod_lt _ (by decide))

theorem digitsValue_paddedDigits_four {n : Nat} (small : n < 10000) :
    digitsValue (paddedDigits 4 n) = n := by
  have digit (m : Nat) : digitValue (m % 10).digitChar = m % 10 :=
    digitValue_digitChar (Nat.mod_lt _ (by decide))
  simp only [paddedDigits, digitsValue_append_singleton, digit]
  simp only [digitsValue, List.foldl_nil]
  omega

/-- The zeros that are left out at the end of a row of digits, and the digits before them. -/
theorem withoutTrailingZeros_append (digits : List Char) :
    withoutTrailingZeros digits ++
      List.replicate (digits.length - (withoutTrailingZeros digits).length) '0' = digits := by
  have split : digits.reverse.takeWhile (· == '0') ++ digits.reverse.dropWhile (· == '0') =
      digits.reverse := List.takeWhile_append_dropWhile
  have zeros : digits.reverse.takeWhile (· == '0') =
      List.replicate (digits.reverse.takeWhile (· == '0')).length '0' := by
    refine List.eq_replicate_iff.mpr ⟨rfl, ?_⟩
    intro c member
    have found :=
      List.all_eq_true.mp (List.all_takeWhile (p := (· == '0')) (l := digits.reverse)) c member
    simpa using found
  have count : (digits.reverse.takeWhile (· == '0')).length =
      digits.length - (withoutTrailingZeros digits).length := by
    have total := congrArg List.length split
    simp only [List.length_append, List.length_reverse] at total
    simp only [withoutTrailingZeros, List.length_reverse]
    omega
  calc withoutTrailingZeros digits ++
        List.replicate (digits.length - (withoutTrailingZeros digits).length) '0'
      = (digits.reverse.dropWhile (· == '0')).reverse ++
          (digits.reverse.takeWhile (· == '0')).reverse := by
        rw [← count, zeros]
        simp [withoutTrailingZeros]
    _ = digits := by rw [← List.reverse_append, split, List.reverse_reverse]

theorem mem_of_mem_withoutTrailingZeros {digits : List Char} {c : Char}
    (member : c ∈ withoutTrailingZeros digits) : c ∈ digits := by
  rw [← withoutTrailingZeros_append digits]
  exact List.mem_append_left _ member

/-- Leaving out the zeros at the end makes no row of digits longer. -/
theorem length_withoutTrailingZeros_le (digits : List Char) :
    (withoutTrailingZeros digits).length ≤ digits.length := by
  have total := congrArg List.length (withoutTrailingZeros_append digits)
  rw [List.length_append] at total
  omega

/-- Four decimals without the zeros at their end still count as the same
ten-thousandths, because reading fills the four places again. -/
theorem decimalsValue_withoutTrailingZeros {digits : List Char} (four : digits.length = 4) :
    decimalsValue (withoutTrailingZeros digits) = digitsValue digits := by
  have whole := withoutTrailingZeros_append digits
  have most : (withoutTrailingZeros digits).length ≤ 4 :=
    four ▸ length_withoutTrailingZeros_le digits
  have filled : (withoutTrailingZeros digits ++ ['0', '0', '0', '0']).take 4 = digits := by
    conv => rhs; rw [← whole]
    rw [List.take_append, List.take_of_length_le most, four,
      show ['0', '0', '0', '0'] = List.replicate 4 '0' from rfl, List.take_replicate,
      Nat.min_eq_left (by omega)]
  rw [decimalsValue, filled]

/-- The characters of a count of ten-thousandths without a sign. -/
def unsignedChars (units : Nat) : List Char :=
  Nat.toDigits 10 (units / 10000) ++
    if units % 10000 = 0 then []
    else '.' :: withoutTrailingZeros (paddedDigits 4 (units % 10000))

/-- A number is written as its sign and the distance of its units from zero. The least number
has no counterpart, but its distance from zero is a natural number like any other. -/
theorem toList_text (a : Fixed) :
    a.text.toList = (if a.units < 0 then ['-'] else []) ++ unsignedChars a.units.natAbs := by
  have tenThousand : scale.toNat = 10000 := rfl
  have sign : (if a.units < 0 then "-" else "").toList = if a.units < 0 then ['-'] else [] := by
    split <;> rfl
  simp only [text, tenThousand, unsignedChars]
  split <;>
    simp [sign, String.toList_append, String.toList_ofList]

theorem ne_point_of_isDigit {c : Char} (digit : c.isDigit = true) : (c != '.') = true := by
  rw [bne_iff_ne]
  rintro rfl
  exact absurd digit (by decide)

/-- The digits before the point of a written number are digits. -/
theorem isDigit_of_mem_toDigits {n : Nat} {c : Char} (member : c ∈ Nat.toDigits 10 n) :
    c.isDigit = true :=
  Nat.isDigit_of_mem_toDigits (by decide) (by decide) member

/-- Digits, and after them nothing or a point with anything, have just these digits before the
point. -/
theorem wholeDigits_append {whole tail : List Char} (allDigits : ∀ c ∈ whole, c.isDigit = true)
    (ends : tail = [] ∨ ∃ decimals, tail = '.' :: decimals) :
    wholeDigits (whole ++ tail) = whole := by
  have noPoint : ∀ c ∈ whole, (c != '.') = true := fun c member =>
    ne_point_of_isDigit (allDigits c member)
  rw [wholeDigits, List.takeWhile_append_of_pos noPoint]
  rcases ends with rfl | ⟨decimals, rfl⟩ <;> simp

/-- Digits, and after them nothing or a point with decimals, are read as the sum of the
whole part and the decimals, if there is a digit on either side.

Proof: the digits before the point hold no point, so they are what reading takes for
the whole part, and it takes what follows the point for the decimals. -/
theorem unsignedUnits_append {whole tail decimals : List Char}
    (inhabited : whole ++ decimals ≠ [])
    (allDigits : ∀ c ∈ whole, c.isDigit = true)
    (decimalDigits : ∀ c ∈ decimals, c.isDigit = true)
    (ends : tail = [] ∧ decimals = [] ∨ tail = '.' :: decimals) :
    unsignedUnits (whole ++ tail) = .ok (digitsValue whole * 10000 + decimalsValue decimals) := by
  have noPoint : ∀ c ∈ whole, (c != '.') = true := fun c member =>
    ne_point_of_isDigit (allDigits c member)
  have noSecondPoint : '.' ∉ decimals := fun member =>
    absurd (decimalDigits '.' member) (by decide)
  have before : wholeDigits (whole ++ tail) = whole :=
    wholeDigits_append allDigits (ends.imp And.left fun point => ⟨decimals, point⟩)
  have after : ((whole ++ tail).dropWhile (· != '.')).drop 1 = decimals := by
    rw [List.dropWhile_append_of_pos noPoint]
    rcases ends with ⟨rfl, rfl⟩ | rfl <;> simp
  have allWhole : whole.all Char.isDigit = true := List.all_eq_true.mpr allDigits
  have allDecimals : decimals.all Char.isDigit = true := List.all_eq_true.mpr decimalDigits
  have tenThousand : scale.toNat = 10000 := rfl
  have notNone : (whole.isEmpty && decimals.isEmpty) = false := by
    rw [Bool.eq_false_iff]
    simpa using inhabited
  simp [unsignedUnits, before, after, noSecondPoint, notNone, allWhole, allDecimals, tenThousand]

/-- The written form without a sign is read as the units that it writes.

Proof: the digits before the point are those of the quotient. The decimals are either
absent, and then the remainder is zero, or they are the four digits of the remainder
without the zeros at their end. -/
theorem unsignedUnits_unsignedChars (units : Nat) :
    unsignedUnits (unsignedChars units) = .ok units := by
  have allDigits : ∀ c ∈ Nat.toDigits 10 (units / 10000), c.isDigit = true := fun c member =>
    isDigit_of_mem_toDigits member
  have wholeValue : digitsValue (Nat.toDigits 10 (units / 10000)) = units / 10000 := by
    rw [digitsValue_eq, Nat.ofDigitChars_ten_toDigits]
  have inhabited (decimals : List Char) : Nat.toDigits 10 (units / 10000) ++ decimals ≠ [] :=
    List.append_ne_nil_of_left_ne_nil Nat.toDigits_ne_nil _
  rw [unsignedChars]
  by_cases exactly : units % 10000 = 0
  · rw [if_pos exactly, unsignedUnits_append (inhabited _) allDigits (by simp) (.inl ⟨rfl, rfl⟩),
      wholeValue,
      show decimalsValue [] = 0 from rfl]
    congr 1
    omega
  · have decimals : ∀ c ∈ withoutTrailingZeros (paddedDigits 4 (units % 10000)),
        c.isDigit = true := fun c member =>
      isDigit_of_mem_paddedDigits (mem_of_mem_withoutTrailingZeros member)
    rw [if_neg exactly, unsignedUnits_append (inhabited _) allDigits decimals (.inr rfl),
      wholeValue, decimalsValue_withoutTrailingZeros (length_paddedDigits _ _),
      digitsValue_paddedDigits_four (Nat.mod_lt _ (by decide))]
    congr 1
    omega

theorem unsignedChars_eq_cons (units : Nat) :
    ∃ c rest, unsignedChars units = c :: rest ∧ c.isDigit = true := by
  cases digits : Nat.toDigits 10 (units / 10000) with
  | nil => exact absurd digits Nat.toDigits_ne_nil
  | cons c rest =>
    refine ⟨c, _, by rw [unsignedChars, digits, List.cons_append], ?_⟩
    exact isDigit_of_mem_toDigits (n := units / 10000) (by simp [digits])

/-- What can be read without a sign does not begin with one. -/
theorem noSign_of_unsignedUnits {cs : List Char} {units : Nat} (read : unsignedUnits cs = .ok units)
    (rest : List Char) : cs = '-' :: rest → False := by
  rintro rfl
  simp only [unsignedUnits, wholeDigits] at read
  split at read
  · contradiction
  · simp at read

/-- A text is read as its sign and what is read behind it, if its whole part is not too long. -/
theorem parse_of_units (negative : Bool) {cs : List Char} {units : Nat}
    (read : unsignedUnits cs = .ok units) (few : (wholeDigits cs).length ≤ mostDigits) :
    parse (String.ofList ((if negative then ['-'] else []) ++ cs)) =
      .ok (ofUnits (if negative then -(units : Int) else units)) := by
  cases negative with
  | true => simp [parse, read, Nat.not_lt.mpr few]
  | false =>
    -- the characters are those of the branch without a sign, because they do not begin with one
    have noSign := noSign_of_unsignedUnits read
    simp [parse, read, Nat.not_lt.mpr few]

/-- A number is written with at most nineteen digits before the point. So reading what was
written never breaks off. -/
theorem length_wholeDigits_unsignedChars (a : Fixed) :
    (wholeDigits (unsignedChars a.units.natAbs)).length ≤ mostDigits := by
  have bounded : a.units.natAbs / 10000 < 10 ^ 19 := by
    have below := a.least_le
    have above := a.le_greatest
    simp only [least, greatest] at below above
    omega
  have few : (Nat.toDigits 10 (a.units.natAbs / 10000)).length ≤ 19 :=
    Nat.toDigits_length 10 _ 19 (by decide) bounded
  have before : wholeDigits (unsignedChars a.units.natAbs) =
      Nat.toDigits 10 (a.units.natAbs / 10000) := by
    refine wholeDigits_append (fun c member => isDigit_of_mem_toDigits member) ?_
    split
    · exact .inl rfl
    · exact .inr ⟨_, rfl⟩
  rw [before]
  exact few.trans (by decide)

/-- The written form of a number is read back as that number. Nothing is cut, because four
decimals are written at most. -/
@[simp] theorem parse_text (a : Fixed) : parse a.text = .ok a := by
  have read := parse_of_units (decide (a.units < 0)) (unsignedUnits_unsignedChars a.units.natAbs)
    (length_wholeDigits_unsignedChars a)
  have signed : (if a.units < 0 then -(a.units.natAbs : Int) else a.units.natAbs) = a.units := by
    split <;> omega
  simp only [decide_eq_true_eq] at read
  rwa [← toList_text, String.ofList_toList, signed, ofUnits_units] at read

/-- A numeral in a source stands for the number whose written form it is. -/
@[simp] theorem ofLiteral_text (a : Fixed) : ofLiteral a.text = .ok a := by
  simp [ofLiteral]

end YololChip.Fixed
