import YololChip.Proofs.ExactValues
import YololChip.Run.Interpreter

/-!
# Rounding

The floor of a number is the floor of its value, and its ceiling the ceiling of its value, as far as
the range holds them. Near an end of the range the neighbouring whole number lies outside, and the
end stands for it, although it is not whole. Even so a number lies between its floor and its
ceiling, and what is rounded stays as it is when it is rounded again.

The ceiling is the floor seen from the other side of zero. That holds at the lower end too, where
the negative of a number is moved: no whole number lies between the upper end and the place that it
is moved from.

Bounds that are in order bring a number to the middle one of it and them, where a bound outside the
range is the end. A goto rounds its number down, and then brings it between the lines of the chip.
-/

namespace YololChip

namespace Fixed

/-! ### Rounding as values are rounded -/

/-- The floor of a fraction in units is the quotient of the units, rounded down. Everything else
about rounding is said in units and comes back by this. -/
theorem floor_div_scale (units : ℤ) : ⌊(units / scale : ℚ)⌋ = units / scale :=
  Rat.floor_intCast_div_natCast units 10000

variable (a : Fixed)

/-- The floor of a value is the quotient of the units, rounded down. -/
theorem floor_value : ⌊a.value⌋ = a.units / scale := floor_div_scale a.units

/-- The ceiling of a value is the quotient of the units, rounded up. -/
theorem ceil_value : ⌈a.value⌉ = -(-a.units / scale) := by
  have other := floor_div_scale (-a.units)
  rw [Int.cast_neg, neg_div, Int.floor_neg] at other
  rw [← other, neg_neg]
  rfl

theorem floor_eq_ofWhole : a.floor = ofWhole ⌊a.value⌋ := by
  rw [floor_value]
  rfl

theorem ceiling_eq_ofWhole : a.ceiling = ofWhole ⌈a.value⌉ := by
  rw [ceil_value]
  rfl

/-- The part before the point is what the value is without its decimals. Below zero that is the
ceiling. -/
theorem whole_eq_towardZero : a.whole = towardZero a.value := (towardZero_div a.units scale).symm

/-! ### The ends of the range -/

/-- The floor of a number is never above the range, and below it only at its lower end. -/
theorem units_floor : a.floor.units = max least (a.units / scale * scale) := by
  have below := a.le_greatest
  unfold floor
  rw [units_ofUnits]
  unfold saturate greatest least scale at *
  omega

/-- The ceiling of a number is never below the range, and above it only at its upper end. -/
theorem units_ceiling : a.ceiling.units = min greatest (-(-a.units / scale) * scale) := by
  have above := a.least_le
  unfold ceiling
  rw [units_ofUnits]
  unfold saturate greatest least scale at *
  omega

theorem floor_le : a.floor ≤ a := by
  have above := a.least_le
  change a.floor.units ≤ a.units
  rw [units_floor]
  unfold scale
  omega

theorem le_ceiling : a ≤ a.ceiling := by
  have below := a.le_greatest
  change a.units ≤ a.ceiling.units
  rw [units_ceiling]
  unfold scale
  omega

theorem floor_floor : a.floor.floor = a.floor := by
  ext
  have floor := a.units_floor
  rw [units_floor a.floor, floor]
  unfold least scale
  omega

theorem ceiling_ceiling : a.ceiling.ceiling = a.ceiling := by
  ext
  have ceiling := a.units_ceiling
  rw [units_ceiling a.ceiling, ceiling]
  unfold greatest scale
  omega

variable {a}

/-- Units that are not above the range can change their sign before they are moved into it. -/
theorem neg_ofUnits {units : ℤ} (below : units ≤ greatest) : -ofUnits units = ofUnits (-units) := by
  ext
  change saturate (-saturate units) = saturate (-units)
  unfold saturate greatest least at *
  omega

theorem units_neg (notLeast : a.units ≠ least) : (-a).units = -a.units := by
  have above := a.least_le
  have below := a.le_greatest
  apply saturate_of_mem
  · unfold greatest least at *
    omega
  · unfold greatest least at *
    omega

/-- The ceiling is the floor seen from the other side of zero.

Proof: for the least number both sides are computed. The negative of any other number is exact, so
its floor is not above the range and can change its sign before it is moved. -/
theorem ceiling_eq_neg_floor_neg (a : Fixed) : a.ceiling = -(-a).floor := by
  by_cases lowest : a.units = least
  · obtain rfl : a = ofUnits least := by
      ext
      exact lowest
    decide
  · have inside := (-a).le_greatest
    rw [units_neg lowest] at inside
    have rounded : -a.units / scale * scale ≤ greatest :=
      (Int.ediv_mul_le _ (by decide)).trans inside
    rw [floor, units_neg lowest, neg_ofUnits rounded, ceiling, neg_mul]

/-! ### Bounds -/

theorem ofWhole_mono {m n : ℤ} (ordered : m ≤ n) : ofWhole m ≤ ofWhole n :=
  saturate_mono (mul_le_mul_of_nonneg_right ordered (by decide))

/-- A number that is not above a whole value is not above the number of that value. -/
theorem le_ofWhole {value : ℤ} (notAbove : a.units ≤ value * scale) : a ≤ ofWhole value := by
  have kept := saturate_mono notAbove
  rwa [saturate_of_mem a.least_le a.le_greatest] at kept

/-- A number that is not below a whole value is not below the number of that value. -/
theorem ofWhole_le {value : ℤ} (notBelow : value * scale ≤ a.units) : ofWhole value ≤ a := by
  have kept := saturate_mono notBelow
  rwa [saturate_of_mem a.least_le a.le_greatest] at kept

/-- Without an upper bound a number becomes the greater of it and the lower bound, which is moved
into the range. -/
theorem units_clamp_none (a : Fixed) (low : ℤ) :
    (a.clamp low none).units = max (ofWhole low).units a.units := by
  rw [clamp]
  by_cases below : a.units < low * scale
  · rw [if_pos below, max_eq_left (le_ofWhole below.le)]
  · rw [if_neg below, max_eq_right (ofWhole_le (not_lt.mp below))]

/-- Between bounds in order a number becomes the middle one of it and the bounds, which are moved
into the range. -/
theorem units_clamp_some (a : Fixed) {low high : ℤ} (bounds : low ≤ high) :
    (a.clamp low (some high)).units =
      max (ofWhole low).units (min (ofWhole high).units a.units) := by
  rw [clamp]
  by_cases below : a.units < low * scale
  · rw [if_pos below, max_eq_left ((min_le_right _ _).trans (le_ofWhole below.le))]
  · have notBelow := ofWhole_le (not_lt.mp below)
    rw [if_neg below]
    by_cases above : high * scale < a.units
    · rw [min_eq_left (ofWhole_le above.le), max_eq_right (ofWhole_mono bounds)]
      exact congrArg units (if_pos above)
    · rw [min_eq_right (le_ofWhole (not_lt.mp above)), max_eq_right notBelow]
      exact congrArg units (if_neg above)

end Fixed

namespace Chip

/-- A goto leads to the line of the number's floor, or to the nearer end of the chip.

Proof: the bounds of the chip are far inside the range, so the floor between them is not moved. It
is positive, so the part before the point is the quotient. -/
theorem targetLine_eq (a : Fixed) :
    targetLine a = max 1 (min (mostLines : Int) (a.units / Fixed.scale)) := by
  have first : (Fixed.ofWhole 1).units = 1 * Fixed.scale := by decide
  have last : (Fixed.ofWhole (mostLines : Int)).units = mostLines * Fixed.scale := by decide
  have count : (mostLines : Int) = 20 := rfl
  have bounded := a.floor.units_clamp_some (show 1 ≤ (mostLines : Int) by decide)
  rw [first, last, a.units_floor, count] at bounded
  rw [targetLine, Fixed.whole, count, Int.tdiv_eq_ediv_of_nonneg]
  · rw [bounded]
    unfold Fixed.least Fixed.scale
    omega
  · rw [bounded]
    unfold Fixed.scale
    omega

/-- A goto moves the chip to the line of the value's floor, or to the nearer end of the chip, and
changes nothing else. -/
theorem goTo_eq (chip : Chip) (a : Fixed) :
    chip.goTo a = { chip with nextLine := max 1 (min (mostLines : Int) ⌊a.value⌋) } := by
  rw [goTo, targetLine_eq, Fixed.floor_value]

end Chip

/-! ### Every number -/

/-- Whether a number is rounded as its value is, except that the nearer end of the range stands for
what lies outside; whether the number lies between its floor and its ceiling, which is the floor
seen from the other side of zero, and neither is moved by rounding again; and whether a goto to the
number sets, and tells, the line of its value's floor. -/
structure Fixed.Rounds (a : Fixed) : Prop where
  floor : a.floor.units = max least (⌊a.value⌋ * scale)
  ceiling : a.ceiling.units = min greatest (⌈a.value⌉ * scale)
  floor_le : a.floor ≤ a
  le_ceiling : a ≤ a.ceiling
  ceiling_eq : a.ceiling = -(-a).floor
  floor_again : a.floor.floor = a.floor
  ceiling_again : a.ceiling.ceiling = a.ceiling
  goTo : ∀ chip : Chip,
    chip.goTo a = { chip with nextLine := max 1 (min (mostLines : Int) ⌊a.value⌋) }
  jump : ∀ {ω : Type} (loc : Option Location) (m : Machine ω),
    Interpreter.jump loc (.num a) m =
      (.jumped (max 1 (min (mostLines : Int) ⌊a.value⌋)), { m with chip := m.chip.goTo a })

/-- All numbers are rounded so, those near the ends of the range too. -/
theorem Fixed.rounds (a : Fixed) : a.Rounds where
  floor := by rw [units_floor, floor_value]
  ceiling := by rw [units_ceiling, ceil_value]
  floor_le := floor_le a
  le_ceiling := le_ceiling a
  ceiling_eq := ceiling_eq_neg_floor_neg a
  floor_again := floor_floor a
  ceiling_again := ceiling_ceiling a
  goTo chip := chip.goTo_eq a
  jump loc m := by
    have line : (m.chip.goTo a).nextLine = max 1 (min (mostLines : Int) ⌊a.value⌋) := by
      rw [Chip.goTo_eq]
    rw [← line]
    rfl

/-- The ceiling of the greatest number is the number itself, which is not whole. -/
example : (Fixed.ofUnits Fixed.greatest).ceiling = Fixed.ofUnits Fixed.greatest := by decide

end YololChip
