import Mathlib.Data.Rat.Floor
import YololChip.Fixed.Basic

/-!
# The values of numbers

A number stands for a fraction: its count of units by ten thousand. The other way, a fraction
becomes a number in two moves: what does not fit four decimals is cut toward zero, and what then
lies outside the range is moved to the nearer end of it. `Fixed.ofExact` is these two moves, each
made once. What is `ofExact` of an exact result has therefore lost nothing else on the way,
however large or fine the steps in between were.
-/

namespace YololChip.Fixed

/-! ### Cutting -/

/-- A fraction without what stands behind its point: the next whole number toward zero. -/
def towardZero (q : ℚ) : ℤ := if q < 0 then ⌈q⌉ else ⌊q⌋

@[simp] theorem towardZero_intCast (n : ℤ) : towardZero n = n := by
  unfold towardZero
  split
  · exact Int.ceil_intCast n
  · exact Int.floor_intCast n

theorem towardZero_neg (q : ℚ) : towardZero (-q) = -towardZero q := by
  unfold towardZero
  rcases lt_trichotomy q 0 with negative | rfl | positive
  · have notBelow : ¬-q < 0 := not_lt.mpr (neg_nonneg.mpr negative.le)
    rw [if_pos negative, if_neg notBelow, Int.floor_neg]
  · simp
  · rw [if_pos (neg_neg_iff_pos.mpr positive), if_neg (not_lt.mpr positive.le), Int.ceil_neg]

/-- A quotient that is cut is the quotient of whole numbers that goes toward zero.

Proof: without signs both are the quotient of natural numbers, and each sign changes the sign of
both. -/
theorem towardZero_div (a b : ℤ) : towardZero (a / b) = a.tdiv b := by
  have unsigned (n d : ℕ) : towardZero ((n : ℚ) / d) = (n : ℤ).tdiv d := by
    have notBelow : ¬(n / d : ℚ) < 0 := not_lt.mpr (by positivity)
    rw [towardZero, if_neg notBelow, Rat.floor_natCast_div_natCast, ← Int.ofNat_tdiv,
      Int.natCast_ediv]
  obtain ⟨n, rfl | rfl⟩ := a.eq_nat_or_neg <;> obtain ⟨d, rfl | rfl⟩ := b.eq_nat_or_neg
  all_goals simp only [Int.cast_neg, Int.cast_natCast, neg_div, div_neg, towardZero_neg, unsigned,
    Int.neg_tdiv, Int.tdiv_neg]

/-! ### Values -/

/-- The fraction that a number stands for. Every number is such a fraction exactly, so nothing
is lost here; what is lost is lost in `ofExact`. -/
def value (a : Fixed) : ℚ := a.units / scale

/-- The number of a fraction: cut toward zero after four decimals, then moved into the range.
The order of the two does not matter, because the ends of the range have four decimals. -/
def ofExact (q : ℚ) : Fixed := ofUnits (towardZero (q * scale))

theorem scale_pos : (0 : ℚ) < scale := by decide

theorem scale_ne_zero : (scale : ℚ) ≠ 0 := scale_pos.ne'

@[simp] theorem value_mul_scale (a : Fixed) : a.value * scale = a.units :=
  div_mul_cancel₀ _ scale_ne_zero

/-- A fraction that is a count of units becomes that count, moved into the range. -/
theorem ofExact_of_units {q : ℚ} {units : ℤ} (same : q * scale = units) :
    ofExact q = ofUnits units := by
  rw [ofExact, same, towardZero_intCast]

/-- A fraction that is a quotient of units becomes that quotient, cut toward zero and then moved
into the range. -/
theorem ofExact_of_div {q : ℚ} {a b : ℤ} (same : q * scale = a / b) :
    ofExact q = ofUnits (a.tdiv b) := by
  rw [ofExact, same, towardZero_div]

@[simp] theorem value_neg_iff (a : Fixed) : a.value < 0 ↔ a.units < 0 := by
  rw [value, div_lt_iff₀ scale_pos, zero_mul, Int.cast_lt_zero]

/-- A value is not below zero if the count of units is not. -/
@[simp] theorem value_nonneg_iff (a : Fixed) : 0 ≤ a.value ↔ 0 ≤ a.units := by
  rw [← not_lt, value_neg_iff, not_lt]

@[simp] theorem value_pos_iff (a : Fixed) : 0 < a.value ↔ 0 < a.units := by
  rw [value, lt_div_iff₀ scale_pos, zero_mul, Int.cast_pos]

@[simp] theorem value_eq_zero_iff (a : Fixed) : a.value = 0 ↔ a.units = 0 := by
  rw [value, div_eq_zero_iff, or_iff_left scale_ne_zero, Int.cast_eq_zero]

theorem value_le_iff (a b : Fixed) : a.value ≤ b.value ↔ a ≤ b := by
  rw [value, value, div_le_div_iff_of_pos_right scale_pos, Int.cast_le]
  rfl

theorem value_inj {a b : Fixed} : a.value = b.value ↔ a = b := by
  rw [value, value, div_left_inj' scale_ne_zero, Int.cast_inj, Fixed.ext_iff]

end YololChip.Fixed
