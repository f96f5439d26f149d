import Mathlib.Data.Nat.Sqrt
import Mathlib.Order.Bounds.Defs
import Mathlib.Tactic.Ring
import YololChip.Chip.Behaviour
import YololChip.Proofs.ExactValues

/-!
# Arithmetic loses what does not fit, once

A sum, difference, product or quotient of numbers is the exact one of their values, cut toward zero
after four decimals and then moved into the range; so are the negative of a number and its distance
from zero. Nothing else is lost, and nothing wraps. A remainder is exact: of the numbers that differ
from the dividend by whole multiples of the divisor it is the one below the divisor, with the
dividend's sign. A square root is the greatest number whose square is not above, and only a
negative number has none.
-/

namespace YololChip

namespace Fixed

variable (a b : Fixed)

/-! ### Sums, products and quotients -/

theorem add_eq_ofExact : a + b = ofExact (a.value + b.value) := by
  have units : (a.value + b.value) * scale = (a.units + b.units : ℤ) := by
    rw [add_mul, value_mul_scale, value_mul_scale, Int.cast_add]
  exact (ofExact_of_units units).symm

theorem sub_eq_ofExact : a - b = ofExact (a.value - b.value) := by
  have units : (a.value - b.value) * scale = (a.units - b.units : ℤ) := by
    rw [sub_mul, value_mul_scale, value_mul_scale, Int.cast_sub]
  exact (ofExact_of_units units).symm

theorem mul_eq_ofExact : a * b = ofExact (a.value * b.value) := by
  have units : a.value * b.value * scale = (a.units * b.units : ℤ) / scale := by
    rw [eq_div_iff scale_ne_zero, Int.cast_mul, ← value_mul_scale a, ← value_mul_scale b]
    ring
  exact (ofExact_of_div units).symm

/-- A quotient is the exact one, and zero if the divisor is zero. -/
theorem div_eq_ofExact : a / b = if b.value = 0 then zero else ofExact (a.value / b.value) := by
  have units : a.value / b.value * scale = (a.units * scale : ℤ) / b.units := by
    rw [value, value, div_div_div_cancel_right₀ scale_ne_zero, Int.cast_mul, div_mul_eq_mul_div]
  simp only [value_eq_zero_iff, ofExact_of_div units]
  rfl

theorem neg_eq_ofExact : -a = ofExact (-a.value) := by
  have units : -a.value * scale = (-a.units : ℤ) := by
    rw [neg_mul, value_mul_scale, Int.cast_neg]
  exact (ofExact_of_units units).symm

theorem magnitude_eq_ofExact : a.magnitude = ofExact |a.value| := by
  have units : |a.value| * scale = (a.units.natAbs : ℤ) := by
    rw [← abs_of_pos scale_pos, ← abs_mul, value_mul_scale, Int.natCast_natAbs, Int.cast_abs]
  exact (ofExact_of_units units).symm

end Fixed

/-! ### Remainders -/

/-- Whether a fraction is what is left of a dividend when whole multiples of a divisor are taken
away from it: it is below the divisor in size, and is zero or has the sign of the dividend.
There is one such fraction if the divisor is not zero, and none otherwise. -/
structure IsRemainder (dividend divisor left : ℚ) : Prop where
  multiple : ∃ count : ℤ, dividend - left = count * divisor
  smaller : |left| < |divisor|
  sign : left = 0 ∨ 0 < left ∧ 0 < dividend ∨ left < 0 ∧ dividend < 0

/-- Only one fraction is left.

Proof: two of them have no different signs, so they are less than the divisor apart; and they are a
multiple of it apart. -/
theorem IsRemainder.unique {dividend divisor left other : ℚ}
    (remains : IsRemainder dividend divisor left)
    (remainsToo : IsRemainder dividend divisor other) : left = other := by
  obtain ⟨count, taken⟩ := remains.multiple
  obtain ⟨countToo, takenToo⟩ := remainsToo.multiple
  have apart : left - other = (countToo - count : ℤ) * divisor := by
    rw [Int.cast_sub, sub_mul, ← taken, ← takenToo]
    ring
  have near : |left - other| < |divisor| := by
    obtain ⟨above, below⟩ := abs_lt.mp remains.smaller
    obtain ⟨aboveToo, belowToo⟩ := abs_lt.mp remainsToo.smaller
    rw [abs_sub_lt_iff]
    rcases remains.sign with rfl | ⟨_, _⟩ | ⟨_, _⟩ <;>
      rcases remainsToo.sign with rfl | ⟨_, _⟩ | ⟨_, _⟩ <;> constructor <;> linarith
  by_cases same : countToo = count
  · rw [same, sub_self, Int.cast_zero, zero_mul] at apart
    exact sub_eq_zero.mp apart
  · have once : (1 : ℚ) ≤ |((countToo - count : ℤ) : ℚ)| := by
      exact_mod_cast Int.one_le_abs (sub_ne_zero.mpr same)
    rw [apart, abs_mul] at near
    exact absurd near (not_lt.mpr (le_mul_of_one_le_left (abs_nonneg divisor) once))

namespace Fixed

theorem tmod_between (a b : ℤ) : 0 ≤ a.tmod b ∧ a.tmod b ≤ a ∨ a ≤ a.tmod b ∧ a.tmod b ≤ 0 := by
  have size := Int.natAbs_tmod a b
  have smaller := Nat.mod_le a.natAbs b.natAbs
  rcases le_total 0 a with nonneg | nonpos
  · have sign := Int.tmod_nonneg b nonneg
    omega
  · have sign := Int.tmod_nonneg b (neg_nonneg.mpr nonpos)
    rw [Int.neg_tmod] at sign
    omega

/-- The remainder of units is not moved, because it is no further from zero than the dividend. -/
theorem units_mod (a : Fixed) {b : Fixed} (nonzero : b.units ≠ 0) :
    (a % b).units = a.units.tmod b.units := by
  have between := tmod_between a.units b.units
  have inside : least ≤ 0 ∧ 0 ≤ greatest := by decide
  have above := a.least_le
  have below := a.le_greatest
  have left : a % b = ofUnits (a.units.tmod b.units) := if_neg nonzero
  rw [left, units_ofUnits, saturate_of_mem (by omega) (by omega)]

theorem isRemainder_mod (a : Fixed) {b : Fixed} (nonzero : b.units ≠ 0) :
    IsRemainder a.value b.value (a % b).value := by
  have units := units_mod a nonzero
  constructor
  · refine ⟨a.units.tdiv b.units, ?_⟩
    have taken : a.units - (a % b).units = a.units.tdiv b.units * b.units := by
      rw [units]
      exact sub_eq_of_eq_add (Int.tdiv_mul_add_tmod a.units b.units).symm
    rw [value, value, value, ← sub_div, ← mul_div_assoc]
    congr 1
    exact_mod_cast taken
  · have size := Int.natAbs_tmod a.units b.units
    have below := Nat.mod_lt a.units.natAbs (Int.natAbs_pos.mpr nonzero)
    have smaller : |(a % b).units| < |b.units| := by
      rw [units, Int.abs_eq_natAbs, Int.abs_eq_natAbs]
      omega
    rw [value, value, abs_div, abs_div, div_lt_div_iff_of_pos_right (abs_pos.mpr scale_ne_zero)]
    exact_mod_cast smaller
  · rw [value_eq_zero_iff, value_pos_iff, value_pos_iff, value_neg_iff, value_neg_iff, units]
    have between := tmod_between a.units b.units
    omega

/-! ### Square roots -/

/-- The digits of a root make up the greatest number whose square is not above.

Proof: induction over the digits. The root of a quarter, doubled, is the root or one below it. -/
theorem rootDigits_spec {digits n : ℕ} (small : n < 4 ^ digits) :
    rootDigits digits n * rootDigits digits n ≤ n ∧
      n < (rootDigits digits n + 1) * (rootDigits digits n + 1) := by
  induction digits generalizing n with
  | zero =>
    obtain rfl : n = 0 := by omega
    decide
  | succ digits inductionHypothesis =>
    have fewer : n / 4 < 4 ^ digits := by
      rw [pow_succ] at small
      omega
    obtain ⟨notAbove, above⟩ := inductionHypothesis fewer
    rw [rootDigits]
    generalize rootDigits digits (n / 4) = root at notAbove above ⊢
    have doubled : 2 * root * (2 * root) = 4 * (root * root) := by ring
    have next : (root + 1) * (root + 1) = root * root + 2 * root + 1 := by ring
    have odd : (2 * root + 1) * (2 * root + 1) = 4 * (root * root) + 4 * root + 1 := by ring
    have even : (2 * root + 1 + 1) * (2 * root + 1 + 1) = 4 * (root * root) + 8 * root + 4 := by
      ring
    split <;> omega

/-- The root of a natural number is the one that the library takes. -/
theorem wholeRoot_eq_sqrt (n : ℕ) : wholeRoot n = n.sqrt := by
  have small : n < 4 ^ (n.log2 / 2 + 1) :=
    calc n < 2 ^ (n.log2 + 1) := Nat.lt_log2_self
      _ ≤ 2 ^ (2 * (n.log2 / 2 + 1)) := Nat.pow_le_pow_right (by decide) (by omega)
      _ = 4 ^ (n.log2 / 2 + 1) := pow_mul 2 2 _
  exact Nat.eq_sqrt.mpr (rootDigits_spec small)

/-- The square of a value is compared with a value as their units are. -/
theorem sq_value_le_iff (s a : Fixed) :
    s.value ^ 2 ≤ a.value ↔ s.units * s.units ≤ a.units * scale := by
  have square : s.value ^ 2 * (scale * scale) = (s.units * s.units : ℤ) := by
    rw [Int.cast_mul, ← value_mul_scale s]
    ring
  have other : a.value * (scale * scale) = (a.units * scale : ℤ) := by
    rw [Int.cast_mul, ← value_mul_scale a, mul_assoc]
  rw [← mul_le_mul_iff_left₀ (mul_pos scale_pos scale_pos), square, other, Int.cast_le]

/-- A number that is not negative has a square root: the greatest number whose square is not
above it.

Proof: the square of what is cut is the product of the units with the units of one, so the root of
the product is the root in units. It is far inside the range. -/
theorem exists_sqrt {a : Fixed} (nonneg : 0 ≤ a.units) :
    ∃ r, a.sqrt = .ok r ∧ IsGreatest {s : Fixed | s.value ^ 2 ≤ a.value} r := by
  have inRange : a.units ≤ 9223372036854775807 := a.le_greatest
  have scaled : a.units * scale = a.units * 10000 := rfl
  have product : ((a.units * scale).toNat : ℤ) = a.units * scale := Int.toNat_of_nonneg (by omega)
  generalize count : (a.units * scale).toNat = n at product
  have small : n.sqrt < 9223372036854775808 := Nat.sqrt_lt.mpr (by omega)
  have unmoved : saturate n.sqrt = n.sqrt :=
    saturate_of_mem (show (-9223372036854775808 : ℤ) ≤ _ by omega)
      (show _ ≤ (9223372036854775807 : ℤ) by omega)
  refine ⟨ofUnits n.sqrt, ?_, ?_, ?_⟩
  · rw [sqrt, if_neg (by omega), count, wholeRoot_eq_sqrt]
  · change (ofUnits n.sqrt).value ^ 2 ≤ a.value
    rw [sq_value_le_iff, units_ofUnits, unmoved, ← product]
    exact_mod_cast Nat.sqrt_le n
  · intro s square
    replace square := (sq_value_le_iff s a).mp square
    rw [← product] at square
    change s.units ≤ saturate n.sqrt
    rw [unmoved]
    rcases le_total s.units 0 with nonpos | positive
    · omega
    · lift s.units to ℕ using positive with root
      exact_mod_cast Nat.le_sqrt.mpr (by exact_mod_cast square)

end Fixed

/-! ### Operators -/

/-- Whether operators calculate exactly with two numbers: what they make of them is the exact
result, cut toward zero after four decimals and then moved into the range. A quotient and a
remainder by zero are zero; any other remainder is exact. Only the square root is ever refused, and
only for a negative number. -/
structure Operators.Calculates (ops : Operators) (a b : Fixed) : Prop where
  add : ops.applyBinary .add (.num a) (.num b) = .ok (.num (.ofExact (a.value + b.value)))
  sub : ops.applyBinary .sub (.num a) (.num b) = .ok (.num (.ofExact (a.value - b.value)))
  mul : ops.applyBinary .mul (.num a) (.num b) = .ok (.num (.ofExact (a.value * b.value)))
  div : ops.applyBinary .div (.num a) (.num b) =
    .ok (.num (if b.value = 0 then .zero else .ofExact (a.value / b.value)))
  neg : ops.applyUnary .neg (.num a) = .ok (.num (.ofExact (-a.value)))
  abs : ops.applyUnary .abs (.num a) = .ok (.num (.ofExact |a.value|))
  mod : ∃ r, ops.applyBinary .mod (.num a) (.num b) = .ok (.num r) ∧
    if b.value = 0 then r = .zero
    else ∀ left, IsRemainder a.value b.value left ↔ left = r.value
  sqrt : if a.value < 0 then ops.applyUnary .sqrt (.num a) = .error (.domain (.negativeRoot a))
    else ∃ r, ops.applyUnary .sqrt (.num a) = .ok (.num r) ∧
      IsGreatest {s : Fixed | s.value ^ 2 ≤ a.value} r

/-- The operators of a chip calculate exactly with all numbers, at both ends of the range and with
all signs. -/
theorem Operators.default_calculates (a b : Fixed) : Operators.default.Calculates a b where
  add := by rw [← Fixed.add_eq_ofExact]; rfl
  sub := by rw [← Fixed.sub_eq_ofExact]; rfl
  mul := by rw [← Fixed.mul_eq_ofExact]; rfl
  div := by rw [← Fixed.div_eq_ofExact]; rfl
  neg := by rw [← Fixed.neg_eq_ofExact]; rfl
  abs := by rw [← Fixed.magnitude_eq_ofExact]; rfl
  mod := by
    refine ⟨a % b, rfl, ?_⟩
    split
    · next isZero => exact if_pos (b.value_eq_zero_iff.mp isZero)
    · next nonzero =>
      have remains := Fixed.isRemainder_mod a (mt b.value_eq_zero_iff.mpr nonzero)
      intro left
      constructor
      · exact fun remainsToo => remainsToo.unique remains
      · rintro rfl
        exact remains
  sqrt := by
    have applied : Operators.default.applyUnary .sqrt (.num a) =
        Behaviour.onNumber .sqrt Fixed.sqrt (.num a) := rfl
    rw [applied, Behaviour.onNumber]
    split
    · next negative =>
      have refused : a.sqrt = .error (.negativeRoot a) := if_pos (a.value_neg_iff.mp negative)
      rw [refused]
    · next nonneg =>
      obtain ⟨r, taken, greatest⟩ := Fixed.exists_sqrt (not_lt.mp (mt a.value_neg_iff.mpr nonneg))
      exact ⟨r, by rw [taken], greatest⟩

end YololChip
