import YololChip.Fixed.Basic

/-!
# Exact arithmetic on fixed-point numbers

Each operation works on exact integers, cuts what does not fit four decimals
toward zero, and then moves the result into the range. A division or a remainder
by zero is zero. Only two operations can refuse: the factorial and the square root of
a negative number.
-/

namespace YololChip

/-- A number on which an operation has no value. Division by zero is not among them: it has the
value zero. -/
inductive DomainFault where
  | negativeFactorial (operand : Fixed)
  | negativeRoot (operand : Fixed)
  | arcsineOutside (operand : Fixed)
  | arccosineOutside (operand : Fixed)
  | unrealPower (base exponent : Fixed)
deriving DecidableEq

namespace Fixed

instance : Add Fixed := ⟨fun a b => ofUnits (a.units + b.units)⟩

instance : Sub Fixed := ⟨fun a b => ofUnits (a.units - b.units)⟩

instance : Mul Fixed := ⟨fun a b => ofUnits ((a.units * b.units).tdiv scale)⟩

instance : Div Fixed :=
  ⟨fun a b => if b.units = 0 then zero else ofUnits ((a.units * scale).tdiv b.units)⟩

instance : Mod Fixed :=
  ⟨fun a b => if b.units = 0 then zero else ofUnits (a.units.tmod b.units)⟩

instance : Neg Fixed := ⟨fun a => ofUnits (-a.units)⟩

/-- The distance from zero; that of the least number is the greatest number. -/
def magnitude (a : Fixed) : Fixed := ofUnits a.units.natAbs

/-- The product `factor * (factor + 1) * ...` of `count` factors, multiplied into `product`, or
nothing as soon as a partial product passes `limit`. So the product stays small, however many
factors are asked for. -/
def boundedProduct (limit : Nat) : (count factor product : Nat) → Option Nat
  | 0, _, product => some product
  | count + 1, factor, product =>
    if limit < product * factor then none
    else boundedProduct limit count (factor + 1) (product * factor)

/-- The factorial of the part before the point; what is behind it does not count. A product that
passes the range is given up early and is the greatest number. -/
def factorial (a : Fixed) : Except DomainFault Fixed :=
  if a.units < 0 then .error (.negativeFactorial a)
  else
    match boundedProduct (greatest / scale).toNat (a.whole.toNat - 1) 2 1 with
    | none => .ok (ofUnits greatest)
    | some product => .ok (ofWhole product)

/-- The integer square root of a number below `4 ^ digits`, one binary digit of the root for
each two of the number. The digits before the last are the root of the number without its last
two. -/
def rootDigits : (digits : Nat) → Nat → Nat
  | 0, _ => 0
  | digits + 1, n =>
    let root := 2 * rootDigits digits (n / 4)
    if (root + 1) * (root + 1) ≤ n then root + 1 else root

/-- The greatest natural number whose square is at most the given one. -/
def wholeRoot (n : Nat) : Nat := rootDigits (n.log2 / 2 + 1) n

/-- The square root, cut to four decimals. It is taken of the exact count of units, so no
precision is lost before the cut. -/
def sqrt (a : Fixed) : Except DomainFault Fixed :=
  if a.units < 0 then .error (.negativeRoot a)
  else .ok (ofUnits (wholeRoot (a.units * scale).toNat))

end Fixed

end YololChip
