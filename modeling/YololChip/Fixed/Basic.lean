/-!
# Fixed-point numbers

A number of a chip is a count of ten-thousandths that lies in the signed 64-bit
range. Every number is made by `Fixed.ofUnits`, which moves a count outside the
range to the nearer end of it, so no operation wraps and none leaves the range.

`Fixed.whole` is the part before the point, `Fixed.floor` and `Fixed.ceiling`
are the neighbouring whole numbers, as far as the range holds them.
-/

namespace YololChip

/-- The number of units in one. -/
def Fixed.scale : Int := 10000

/-- The least count of units that a number can hold. -/
def Fixed.least : Int := -9223372036854775808

/-- The greatest count of units that a number can hold. -/
def Fixed.greatest : Int := 9223372036854775807

/-- A number with four decimal places, held as its count of ten-thousandths. The bounds are part
of it, so a number outside the range cannot be made, and two numbers of one count are equal. -/
@[ext]
structure Fixed where
  units : Int
  least_le : Fixed.least ≤ units
  le_greatest : units ≤ Fixed.greatest
deriving DecidableEq

namespace Fixed

/-- The member of the range that is nearest to a count of units: the count itself inside the
range, and an end of it outside. -/
def saturate (units : Int) : Int :=
  if greatest < units then greatest else if units < least then least else units

/-- Saturation does not stay below the range. -/
theorem least_le_saturate (units : Int) : least ≤ saturate units := by
  unfold saturate least greatest
  split
  · omega
  · split <;> omega

/-- Saturation does not stay above the range. -/
theorem saturate_le_greatest (units : Int) : saturate units ≤ greatest := by
  unfold saturate least greatest
  split
  · omega
  · split <;> omega

/-- A count inside the range is kept. -/
theorem saturate_of_mem {units : Int} (above : least ≤ units) (below : units ≤ greatest) :
    saturate units = units := by
  unfold saturate
  split
  · omega
  · split <;> omega

/-- Counts in order are still in order in the range. -/
theorem saturate_mono {m n : Int} (ordered : m ≤ n) : saturate m ≤ saturate n := by
  unfold saturate greatest least
  omega

/-- The number of the given units, moved into the range. All numbers are made by it. -/
def ofUnits (units : Int) : Fixed :=
  ⟨saturate units, least_le_saturate units, saturate_le_greatest units⟩

/-- A number holds its count of units, moved into the range. -/
@[simp] theorem units_ofUnits (units : Int) : (ofUnits units).units = saturate units := rfl

/-- A number is the number of its own units, because they lie in the range. -/
@[simp] theorem ofUnits_units (a : Fixed) : ofUnits a.units = a := by
  ext
  exact saturate_of_mem a.least_le a.le_greatest

def ofWhole (value : Int) : Fixed := ofUnits (value * scale)

/-- The number with the given whole part and count of ten-thousandths. The whole part is moved
into the range before the ten-thousandths are added, so a great whole part with a negative rest
stays below the greatest number. -/
def ofParts (whole tenThousandths : Int) : Fixed :=
  ofUnits (saturate (whole * scale) + tenThousandths)

/-- The number zero, which stands for false. -/
def zero : Fixed := ofUnits 0

/-- The number one, which stands for true. -/
def one : Fixed := ofUnits scale

instance : Inhabited Fixed := ⟨zero⟩

instance : LT Fixed := ⟨fun a b => a.units < b.units⟩

instance : LE Fixed := ⟨fun a b => a.units ≤ b.units⟩

instance (a b : Fixed) : Decidable (a < b) := inferInstanceAs (Decidable (a.units < b.units))

instance (a b : Fixed) : Decidable (a ≤ b) := inferInstanceAs (Decidable (a.units ≤ b.units))

/-- The part before the point, cut toward zero. It need not be the floor: the two differ below
zero. -/
def whole (a : Fixed) : Int := a.units.tdiv scale

/-- The greatest whole number that is not above, as far as the range holds it. At its lower end
the range holds none, and the least number is its own floor. -/
def floor (a : Fixed) : Fixed := ofUnits (a.units / scale * scale)

/-- The least whole number that is not below, as far as the range holds it. At its upper end the
range holds none, and the greatest number is its own ceiling. -/
def ceiling (a : Fixed) : Fixed := ofUnits (-(-a.units / scale) * scale)

/-- The number moved between two whole bounds; without a second bound there is
no upper one. The lower bound is looked at first. -/
def clamp (a : Fixed) (low : Int) (high : Option Int) : Fixed :=
  if a.units < low * scale then ofWhole low
  else match high with
    | none => a
    | some high => if high * scale < a.units then ofWhole high else a

end Fixed

end YololChip
