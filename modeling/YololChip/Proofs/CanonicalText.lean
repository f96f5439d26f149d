import Mathlib.Tactic.Ring
import YololChip.Proofs.NumeralGrammar

/-!
# Written forms are canonical

A number is written in one way only: without needless zeros on either side of the point, without a
point if there is no decimal, and without a sign on zero. As the written form is read back as the
number, different numbers have different texts.
-/

namespace YololChip

/-- A numeral that has nothing which could be left out: the whole part does not start with a
zero unless it is one, the decimals do not end in one, and zero has no sign. There are no more
decimals than a number keeps, so no digit of it is without effect. -/
structure Numeral.Canonical (n : Numeral) : Prop where
  whole : n.whole = ['0'] ∨ n.whole ≠ [] ∧ n.whole.head? ≠ some '0'
  decimals : ∀ ds, n.decimals? = some ds → 1 ≤ ds.length ∧ ds.length ≤ 4 ∧ ds.getLast? ≠ some '0'
  sign : n.negative = true → n.value ≠ 0

namespace Fixed

/-! ### Zeros -/

/-- The digits of a number that is not zero do not start with a zero.

Proof: the first digit is that of the number itself, if it has only one, and that of its tenth part
otherwise. -/
theorem head?_toDigits {n : Nat} (positive : 0 < n) : (Nat.toDigits 10 n).head? ≠ some '0' := by
  induction n using Nat.strongRecOn with
  | ind n inductionHypothesis =>
    by_cases single : n < 10
    · rw [Nat.toDigits_of_lt_base single, List.head?_singleton, Ne, Option.some.injEq,
        Nat.digitChar_eq_zero]
      exact positive.ne'
    · have tenth := inductionHypothesis (n / 10) (by omega) (by omega)
      rw [Nat.toDigits_of_base_le (by decide) (Nat.not_lt.mp single), List.head?_append]
      cases first : (Nat.toDigits 10 (n / 10)).head? with
      | none => exact absurd (List.head?_eq_none_iff.mp first) Nat.toDigits_ne_nil
      | some c => rwa [first] at tenth

/-- The whole part of a number is written as a zero or does not start with one. This is what
keeps leading zeros out of written numbers. -/
theorem toDigits_zero_or_head? (n : Nat) :
    Nat.toDigits 10 n = ['0'] ∨
      Nat.toDigits 10 n ≠ [] ∧ (Nat.toDigits 10 n).head? ≠ some '0' := by
  rcases n.eq_zero_or_pos with rfl | positive
  · exact .inl rfl
  · exact .inr ⟨Nat.toDigits_ne_nil, head?_toDigits positive⟩

/-- Without the zeros at their end digits do not end in a zero. -/
theorem getLast?_withoutTrailingZeros (digits : List Char) :
    (withoutTrailingZeros digits).getLast? ≠ some '0' := by
  intro last
  have stops := List.head?_dropWhile_not (· == '0') digits.reverse
  rw [withoutTrailingZeros, List.getLast?_reverse] at last
  rw [last] at stops
  contradiction

/-- Of digits that are not all zeros some are left without the zeros at their end. -/
theorem withoutTrailingZeros_ne_nil {digits : List Char} (four : digits.length = 4)
    (notZero : digitsValue digits ≠ 0) : withoutTrailingZeros digits ≠ [] := by
  intro none
  rw [← decimalsValue_withoutTrailingZeros four, none] at notZero
  contradiction

@[simp] theorem digitsValue_replicate_zero (count : Nat) :
    digitsValue (List.replicate count '0') = 0 := by
  induction count with
  | zero => rfl
  | succ count inductionHypothesis =>
    rw [List.replicate_succ', digitsValue_append_singleton, inductionHypothesis]
    rfl

/-- The zeros at the end of digits count only for the places of the others. So the value is kept
if the count of places is. -/
theorem digitsValue_withoutTrailingZeros (digits : List Char) :
    digitsValue (withoutTrailingZeros digits) *
      10 ^ (digits.length - (withoutTrailingZeros digits).length) = digitsValue digits := by
  conv => rhs; rw [← withoutTrailingZeros_append digits]
  rw [digitsValue_append, List.length_replicate, digitsValue_replicate_zero, Nat.add_zero]

/-! ### Numerals of numbers -/

/-- The parts of the written form of a number. The whole part is written in full and the
decimals are padded to four before their last zeros are taken away, so a point with nothing
behind it is never written. -/
def numeral (a : Fixed) : Numeral where
  negative := decide (a.units < 0)
  whole := Nat.toDigits 10 (a.units.natAbs / 10000)
  decimals? :=
    if a.units.natAbs % 10000 = 0 then none
    else some (withoutTrailingZeros (paddedDigits 4 (a.units.natAbs % 10000)))
  digits := by
    intro c member
    rcases List.mem_append.mp member with whole | decimal
    · exact isDigit_of_mem_toDigits whole
    · split at decimal
      · contradiction
      · exact isDigit_of_mem_paddedDigits (mem_of_mem_withoutTrailingZeros decimal)
  inhabited := List.append_ne_nil_of_left_ne_nil Nat.toDigits_ne_nil _

theorem text_numeral (a : Fixed) : a.numeral.text = a.text := by
  rw [← String.ofList_toList (s := a.text), toList_text, Numeral.text, unsignedChars]
  simp only [numeral, Numeral.tail, decide_eq_true_eq]
  by_cases exactly : a.units.natAbs % 10000 = 0 <;> simp only [exactly, if_true, if_false]

/-- The decimals of a number are the digits of its ten-thousandths without the zeros at their end;
if it has none of them, no digit is left. -/
theorem decimals_numeral (a : Fixed) :
    a.numeral.decimals = withoutTrailingZeros (paddedDigits 4 (a.units.natAbs % 10000)) := by
  rw [Numeral.decimals, numeral]
  by_cases exactly : a.units.natAbs % 10000 = 0
  · simp only [exactly, if_true]
    decide
  · simp only [exactly, if_false, Option.getD_some]

/-- The digits of a number are its ten-thousandths, in units of the place of the last one. -/
theorem digitsValue_numeral (a : Fixed) :
    digitsValue (a.numeral.whole ++ a.numeral.decimals) * 10000 =
      a.units.natAbs * 10 ^ a.numeral.decimals.length := by
  have whole : digitsValue a.numeral.whole = a.units.natAbs / 10000 := by
    rw [numeral, digitsValue_eq, Nat.ofDigitChars_ten_toDigits]
  have places := length_withoutTrailingZeros_le (paddedDigits 4 (a.units.natAbs % 10000))
  have value := digitsValue_withoutTrailingZeros (paddedDigits 4 (a.units.natAbs % 10000))
  rw [← decimals_numeral, length_paddedDigits] at places value
  rw [digitsValue_paddedDigits_four (Nat.mod_lt _ (by decide))] at value
  rw [digitsValue_append, whole]
  generalize a.numeral.decimals = decimals at places value ⊢
  have filled : 10 ^ decimals.length * 10 ^ (4 - decimals.length) = 10000 := by
    rw [← pow_add, Nat.add_sub_cancel' places]
    rfl
  calc (a.units.natAbs / 10000 * 10 ^ decimals.length + digitsValue decimals) * 10000
      = (10000 * (a.units.natAbs / 10000) +
          digitsValue decimals * 10 ^ (4 - decimals.length)) * 10 ^ decimals.length := by
        rw [← filled]
        ring
    _ = a.units.natAbs * 10 ^ decimals.length := by rw [value, Nat.div_add_mod]

theorem value_numeral (a : Fixed) : a.numeral.value = a.value := by
  have magnitude : a.numeral.magnitude = a.units.natAbs / 10000 := by
    rw [Numeral.magnitude, ← digitsValue_eq, div_eq_div_iff (by positivity) (by norm_num)]
    exact_mod_cast digitsValue_numeral a
  rw [Numeral.value, magnitude, value, scale]
  by_cases negative : a.units < 0
  · have size : (a.units.natAbs : ℤ) = -a.units := by omega
    have signed : a.numeral.negative = true := decide_eq_true negative
    rw [if_pos signed, ← Int.cast_natCast, size]
    push_cast
    ring
  · have size : (a.units.natAbs : ℤ) = a.units := by omega
    have unsigned : ¬a.numeral.negative = true := mt of_decide_eq_true negative
    rw [if_neg unsigned, ← Int.cast_natCast, size]
    rfl

/-- The numeral of a number has a point if there is a part behind it. -/
theorem isSome_decimals?_numeral (a : Fixed) :
    a.numeral.decimals?.isSome = true ↔ ¬scale ∣ a.units := by
  have divides : scale ∣ a.units ↔ a.units.natAbs % 10000 = 0 := by
    rw [scale, ← Int.natAbs_dvd_natAbs]
    exact Nat.dvd_iff_mod_eq_zero
  rw [divides, numeral]
  split <;> simp [*]

theorem canonical_numeral (a : Fixed) : a.numeral.Canonical := by
  constructor
  · exact toDigits_zero_or_head? _
  · intro ds found
    simp only [numeral] at found
    split at found
    · contradiction
    next notWhole =>
    obtain rfl := Option.some.inj found
    have four := length_paddedDigits 4 (a.units.natAbs % 10000)
    have notZero : digitsValue (paddedDigits 4 (a.units.natAbs % 10000)) ≠ 0 := by
      rwa [digitsValue_paddedDigits_four (Nat.mod_lt _ (by decide))]
    refine ⟨?_, ?_, getLast?_withoutTrailingZeros _⟩
    · exact List.length_pos_iff.mpr (withoutTrailingZeros_ne_nil four notZero)
    · rw [← four]
      exact length_withoutTrailingZeros_le _
  · intro negative isZero
    have below : a.units < 0 := of_decide_eq_true negative
    rw [value_numeral, value_eq_zero_iff] at isZero
    omega

/-- The written form of a number is read back as the number, over the whole range. It is the
canonical numeral of its value, with a point just if there is a part behind it. So numbers with the
same text are equal. -/
theorem text_canonical :
    (∀ a : Fixed, parse a.text = .ok a ∧
      ∃ n : Numeral, n.text = a.text ∧ n.value = a.value ∧ n.Canonical ∧
        (n.decimals?.isSome = true ↔ ¬scale ∣ a.units)) ∧
    ∀ a b : Fixed, a.text = b.text ↔ a = b := by
  constructor
  · intro a
    exact ⟨parse_text a, a.numeral, text_numeral a, value_numeral a, canonical_numeral a,
      isSome_decimals?_numeral a⟩
  · intro a b
    constructor
    · intro same
      have read := parse_text a
      rw [same, parse_text] at read
      exact (Except.ok.inj read).symm
    · rintro rfl
      rfl

/-- The end of the range that has no counterpart is written with all its digits. -/
example : (ofUnits least).text = "-922337203685477.5808" := by decide

end Fixed

end YololChip
