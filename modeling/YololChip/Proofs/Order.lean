import YololChip.Proofs.ExactArithmetic
import YololChip.Proofs.Factorials
import YololChip.Proofs.Rounding

/-!
# Order

What is lost of an exact result is lost in order: cutting toward zero and moving into the range
never put the smaller of two fractions above the other one. So numbers in order have results in
order wherever the exact results are, be they cut, moved or both: sums, differences, products and
quotients, the latter two turned round by a negative operand, and also what is rounded. Bounds that
are themselves in order keep numbers in order, although a bound outside the range is moved. (The
distances of numbers from zero need not be in order, nor what is left of them in a division.)

Square roots and factorials of numbers that are not negative are in order too. A root is the
greatest number of those whose square is not above, and more numbers are such for the greater of
two. The factorial of the greater part before the point has all factors of the other one.
-/

namespace YololChip

namespace Fixed

/-! ### Cutting and moving -/

theorem towardZero_mono {p q : ℚ} (ordered : p ≤ q) : towardZero p ≤ towardZero q := by
  unfold towardZero
  by_cases lower : p < 0
  · rw [if_pos lower]
    by_cases upper : q < 0
    · rw [if_pos upper]
      exact Int.ceil_mono ordered
    · rw [if_neg upper]
      have notAbove : ⌈p⌉ ≤ 0 := Int.ceil_le.mpr (by exact_mod_cast lower.le)
      exact notAbove.trans (Int.floor_nonneg.mpr (not_lt.mp upper))
  · rw [if_neg lower, if_neg (not_lt.mpr ((not_lt.mp lower).trans ordered))]
    exact Int.floor_mono ordered

@[gcongr] theorem ofExact_mono {p q : ℚ} (ordered : p ≤ q) : ofExact p ≤ ofExact q :=
  saturate_mono (towardZero_mono (mul_le_mul_of_nonneg_right ordered scale_pos.le))

variable {a b : Fixed}

@[gcongr] theorem value_mono (ordered : a ≤ b) : a.value ≤ b.value :=
  div_le_div_of_nonneg_right (Int.cast_le.mpr ordered) scale_pos.le

/-! ### Arithmetic -/

theorem add_mono (ordered : a ≤ b) (c : Fixed) : a + c ≤ b + c := by
  rw [add_eq_ofExact, add_eq_ofExact]
  gcongr

theorem sub_mono (ordered : a ≤ b) (c : Fixed) : a - c ≤ b - c := by
  rw [sub_eq_ofExact, sub_eq_ofExact]
  gcongr

theorem sub_anti (ordered : a ≤ b) (c : Fixed) : c - b ≤ c - a := by
  rw [sub_eq_ofExact, sub_eq_ofExact]
  gcongr

/-- The negatives of numbers in order are in the other order. -/
theorem neg_anti (ordered : a ≤ b) : -b ≤ -a := by
  rw [neg_eq_ofExact, neg_eq_ofExact]
  gcongr

/-- Products with a number that is not negative are in order. -/
theorem mul_mono (ordered : a ≤ b) {c : Fixed} (nonneg : 0 ≤ c.value) : a * c ≤ b * c := by
  rw [mul_eq_ofExact, mul_eq_ofExact]
  gcongr

/-- Products with a negative number are in the other order. Cutting toward zero turns round with
the sign, so the order is still exact. -/
theorem mul_anti (ordered : a ≤ b) {c : Fixed} (negative : c.value < 0) : b * c ≤ a * c := by
  rw [mul_eq_ofExact, mul_eq_ofExact]
  apply ofExact_mono
  exact mul_le_mul_of_nonpos_right (value_mono ordered) negative.le

/-- Quotients by a number that is not negative are in order; by zero they are all zero. -/
theorem div_mono (ordered : a ≤ b) {c : Fixed} (nonneg : 0 ≤ c.value) : a / c ≤ b / c := by
  rw [div_eq_ofExact, div_eq_ofExact]
  by_cases isZero : c.value = 0
  · rw [if_pos isZero, if_pos isZero]
    exact Int.le_refl _
  · rw [if_neg isZero, if_neg isZero]
    gcongr

theorem div_anti (ordered : a ≤ b) {c : Fixed} (negative : c.value < 0) : b / c ≤ a / c := by
  rw [div_eq_ofExact, div_eq_ofExact, if_neg negative.ne, if_neg negative.ne]
  apply ofExact_mono
  exact div_le_div_of_nonpos_of_le negative.le (value_mono ordered)

/-! ### Rounding and bounds -/

theorem floor_mono (ordered : a ≤ b) : a.floor ≤ b.floor := by
  rw [floor_eq_ofWhole, floor_eq_ofWhole]
  exact ofWhole_mono (Int.floor_mono (value_mono ordered))

theorem ceiling_mono (ordered : a ≤ b) : a.ceiling ≤ b.ceiling := by
  rw [ceiling_eq_ofWhole, ceiling_eq_ofWhole]
  exact ofWhole_mono (Int.ceil_mono (value_mono ordered))

theorem whole_mono (ordered : a ≤ b) : a.whole ≤ b.whole := by
  rw [whole_eq_towardZero, whole_eq_towardZero]
  exact towardZero_mono (value_mono ordered)

theorem clamp_mono (ordered : a ≤ b) {low high : ℤ} (bounds : low ≤ high) :
    a.clamp low (some high) ≤ b.clamp low (some high) := by
  change (a.clamp low (some high)).units ≤ (b.clamp low (some high)).units
  rw [units_clamp_some a bounds, units_clamp_some b bounds]
  exact max_le_max_left _ (min_le_min_left _ ordered)

theorem clamp_none_mono (ordered : a ≤ b) (low : ℤ) : a.clamp low none ≤ b.clamp low none := by
  change (a.clamp low none).units ≤ (b.clamp low none).units
  rw [units_clamp_none, units_clamp_none]
  exact max_le_max_left _ ordered

/-! ### Roots and factorials -/

/-- Square roots of numbers that are not negative are in order. A root is the greatest number
whose square is not above, which is in order. -/
theorem sqrt_mono (ordered : a ≤ b) (nonneg : 0 ≤ a.value) :
    ∃ r s, a.sqrt = .ok r ∧ b.sqrt = .ok s ∧ r ≤ s := by
  rw [value_nonneg_iff] at nonneg
  obtain ⟨r, lesser, root, _⟩ := exists_sqrt nonneg
  obtain ⟨s, greater, _, above⟩ := exists_sqrt (nonneg.trans ordered)
  exact ⟨r, s, lesser, greater, above (root.trans (value_mono ordered))⟩

/-- Factorials of numbers that are not negative are in order. -/
theorem factorial_mono (ordered : a ≤ b) (nonneg : 0 ≤ a.value) :
    ∃ r s, a.factorial = .ok r ∧ b.factorial = .ok s ∧ r ≤ s := by
  rw [value_nonneg_iff] at nonneg
  have factors : a.whole.toNat.factorial ≤ b.whole.toNat.factorial :=
    Nat.factorial_le (Int.toNat_le_toNat (whole_mono ordered))
  refine ⟨_, _, factorial_eq_ofWhole nonneg, factorial_eq_ofWhole (nonneg.trans ordered), ?_⟩
  exact ofWhole_mono (Int.ofNat_le.mpr factors)

/-! ### All together -/

/-- Whether exact operations on two numbers have results in order: in the order of the numbers, or
in the other one where a sign turns it round. Roots and factorials have results of numbers that are
not negative. -/
structure StaysOrdered (a b : Fixed) : Prop where
  add : ∀ c, a + c ≤ b + c
  sub : ∀ c, a - c ≤ b - c
  subFrom : ∀ c, c - b ≤ c - a
  neg : -b ≤ -a
  mul : ∀ c : Fixed, 0 ≤ c.value → a * c ≤ b * c
  mulNegative : ∀ c : Fixed, c.value < 0 → b * c ≤ a * c
  div : ∀ c : Fixed, 0 ≤ c.value → a / c ≤ b / c
  divNegative : ∀ c : Fixed, c.value < 0 → b / c ≤ a / c
  floor : a.floor ≤ b.floor
  ceiling : a.ceiling ≤ b.ceiling
  whole : a.whole ≤ b.whole
  clamp : ∀ low high, low ≤ high → a.clamp low (some high) ≤ b.clamp low (some high)
  clampBelow : ∀ low, a.clamp low none ≤ b.clamp low none
  sqrt : 0 ≤ a.value → ∃ r s, a.sqrt = .ok r ∧ b.sqrt = .ok s ∧ r ≤ s
  factorial : 0 ≤ a.value → ∃ r s, a.factorial = .ok r ∧ b.factorial = .ok s ∧ r ≤ s

/-- Numbers in order have results in order, at the ends of the range too. -/
theorem staysOrdered (ordered : a ≤ b) : a.StaysOrdered b where
  add := add_mono ordered
  sub := sub_mono ordered
  subFrom := sub_anti ordered
  neg := neg_anti ordered
  mul _ := mul_mono ordered
  mulNegative _ := mul_anti ordered
  div _ := div_mono ordered
  divNegative _ := div_anti ordered
  floor := floor_mono ordered
  ceiling := ceiling_mono ordered
  whole := whole_mono ordered
  clamp _ _ := clamp_mono ordered
  clampBelow := clamp_none_mono ordered
  sqrt := sqrt_mono ordered
  factorial := factorial_mono ordered

/-- A half and the greatest number have results in order, although most of the latter are moved. -/
theorem staysOrdered_to_greatest :
    ofUnits 5000 ≤ ofUnits greatest ∧ (ofUnits 5000).StaysOrdered (ofUnits greatest) := by
  have ordered : ofUnits 5000 ≤ ofUnits greatest := by decide
  exact ⟨ordered, staysOrdered ordered⟩

end Fixed

end YololChip
