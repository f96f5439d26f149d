import Mathlib.Data.Nat.Factorial.Basic
import YololChip.Chip.Behaviour
import YololChip.Proofs.ExactValues

/-!
# Factorials

A factorial is multiplied up factor by factor, and is given up as soon as a partial product passes
the whole numbers of the range. That takes a few factors only, however large the number, and loses
nothing: no factor is zero, so a product that has passed the limit does not come back below it, and
the full product is moved to the same end of the range.
-/

namespace YololChip

namespace Fixed

/-- A product that is given up above a limit is the full product, if that is within the limit.

Proof: induction over the factors that are left, for all partial products within the limit. A
partial product that passes the limit divides the full one. -/
theorem boundedProduct_eq {limit product : ℕ} (count factor : ℕ) (within : product ≤ limit) :
    boundedProduct limit count factor product =
      if limit < product * factor.ascFactorial count then none
      else some (product * factor.ascFactorial count) := by
  induction count generalizing factor product with
  | zero =>
    rw [Nat.ascFactorial_zero, Nat.mul_one, if_neg (Nat.not_lt.mpr within)]
    rfl
  | succ count inductionHypothesis =>
    have full : product * factor.ascFactorial (count + 1) =
        product * factor * (factor + 1).ascFactorial count := by
      rw [Nat.mul_assoc, Nat.succ_ascFactorial, Nat.ascFactorial_succ]
    rw [boundedProduct, full]
    by_cases passes : limit < product * factor
    · have above : limit < product * factor * (factor + 1).ascFactorial count :=
        passes.trans_le (Nat.le_mul_of_pos_right _ (Nat.ascFactorial_pos factor count))
      rw [if_pos passes, if_pos above]
    · rw [if_neg passes]
      exact inductionHypothesis (factor + 1) (Nat.not_lt.mp passes)

theorem ascFactorial_two (k : ℕ) : Nat.ascFactorial 2 (k - 1) = k.factorial := by
  cases k with
  | zero => rfl
  | succ k =>
    have product := Nat.factorial_mul_ascFactorial 1 k
    rwa [Nat.factorial_one, Nat.one_mul, Nat.add_comm 1 k] at product

/-- A whole number above the last one of the range is moved to the upper end. -/
theorem ofWhole_of_above {value : ℤ} (above : greatest / scale < value) :
    ofWhole value = ofUnits greatest := by
  ext
  change saturate (value * scale) = saturate greatest
  unfold saturate greatest least scale at *
  omega

/-- The factorial of a number that is not negative is that of the part before the point, moved into
the range.

Proof: a product that was given up is above the whole numbers of the range. -/
theorem factorial_eq_ofWhole {a : Fixed} (nonneg : 0 ≤ a.units) :
    a.factorial = .ok (ofWhole a.whole.toNat.factorial) := by
  have within : 1 ≤ (greatest / scale).toNat := by decide
  have limit : ((greatest / scale).toNat : ℤ) = greatest / scale := by decide
  rw [factorial, if_neg (Int.not_lt.mpr nonneg), boundedProduct_eq _ 2 within, ascFactorial_two,
    Nat.one_mul]
  generalize a.whole.toNat.factorial = product
  by_cases passes : (greatest / scale).toNat < product
  · rw [if_pos passes, ofWhole_of_above (limit ▸ Int.ofNat_lt.mpr passes)]
  · rw [if_neg passes]

end Fixed

/-- The operator for factorials refuses exactly the negative numbers, as an operator error. For any
other number it gives the full factorial of the part before the point, moved into the range once,
although the chip stops multiplying early. -/
theorem Operators.factorial_saturates (a : Fixed) :
    let result := Operators.default.applyUnary .factorial (.num a)
    if a.value < 0 then
      ∃ cause, result = .error cause ∧ cause.kind = .operator ∧
        cause = .domain (.negativeFactorial a)
    else ∃ k : ℕ, a.whole = k ∧ result = .ok (.num (.ofUnits (Fixed.scale * k.factorial))) := by
  intro result
  have applied : result = Behaviour.onNumber .factorial Fixed.factorial (.num a) := rfl
  rw [applied, Behaviour.onNumber]
  by_cases negative : a.value < 0
  · have refused : a.factorial = .error (.negativeFactorial a) :=
      if_pos (a.value_neg_iff.mp negative)
    rw [if_pos negative, refused]
    exact ⟨_, rfl, rfl, rfl⟩
  · have nonneg : 0 ≤ a.units := a.value_nonneg_iff.mp (not_lt.mp negative)
    have whole : (a.whole.toNat : ℤ) = a.whole :=
      Int.toNat_of_nonneg (Int.tdiv_nonneg nonneg (by decide))
    rw [if_neg negative, Fixed.factorial_eq_ofWhole nonneg]
    refine ⟨a.whole.toNat, whole.symm, ?_⟩
    rw [Int.mul_comm]
    rfl

end YololChip
