/-!
# Double-precision numbers

A double is held as its 64 bits, so that two doubles are equal exactly when their
bits are and every fact about them is a fact about natural numbers. The value of
a finite double is `mantissa * 2 ^ exponent`.

`Double.ofRatio` is the double nearest to a quotient of natural numbers, and
`Double.nearestWhole` the integer nearest to a double. Both send a tie to the even
neighbour.
-/

namespace YololChip

/-- The quotient rounded to the nearest natural number; a tie goes to the even one. -/
def roundHalfEven (numerator denominator : Nat) : Nat :=
  let quotient := numerator / denominator
  let rest := 2 * (numerator % denominator)
  if rest < denominator then quotient
  else if rest = denominator ∧ quotient % 2 = 0 then quotient
  else quotient + 1

/-- Rounding moves a quotient by half a unit at most. -/
theorem roundHalfEven_near (numerator : Nat) {denominator : Nat} (positive : 0 < denominator) :
    2 * numerator ≤ 2 * (denominator * roundHalfEven numerator denominator) + denominator ∧
      2 * (denominator * roundHalfEven numerator denominator) ≤ 2 * numerator + denominator := by
  have divided := Nat.div_add_mod numerator denominator
  have rest := Nat.mod_lt numerator positive
  have next : denominator * (numerator / denominator + 1) =
      denominator * (numerator / denominator) + denominator := Nat.mul_succ _ _
  unfold roundHalfEven
  simp only
  split
  · omega
  · split <;> omega

/-- A double-precision number, held as its bits. So the two zeros differ, and a double that is
no number is equal to itself. -/
structure Double where
  bits : UInt64
deriving DecidableEq

namespace Double

/-- The least exponent of a finite double. -/
def leastExponent : Int := -1074

/-- The number of mantissas that share an exponent: two to the power 52. -/
def blockSize : Nat := 0x10000000000000

/-- The place of the sign: two to the power 63. -/
def signBit : Nat := 0x8000000000000000

/-- The bits of an infinity without its sign. -/
def infinityBits : Nat := 2047 * blockSize

/-- The double with the given sign and the given bits below the sign. -/
def ofMagnitude (negative : Bool) (magnitude : Nat) : Double :=
  ⟨((if negative then signBit else 0) + magnitude).toUInt64⟩

def magnitude (d : Double) : Nat := d.bits.toNat % signBit

def isNegative (d : Double) : Bool := signBit ≤ d.bits.toNat

/-- Whether the bits stand for no number. -/
def isNaN (d : Double) : Bool := infinityBits < d.magnitude

/-- Whether the bits stand for an infinity of either sign. -/
def isInfinite (d : Double) : Bool := d.magnitude = infinityBits

/-- The integer that, times a power of two, is the absolute value of a finite double. -/
def mantissa (d : Double) : Nat :=
  let fraction := d.magnitude % blockSize
  if d.magnitude / blockSize = 0 then fraction else blockSize + fraction

/-- The power of two beside the mantissa. -/
def exponent (d : Double) : Int :=
  let field : Nat := d.magnitude / blockSize
  if field = 0 then leastExponent else (field : Int) - 1075

/-- The exponent at which a positive quotient has a mantissa of 53 bits, or the least exponent
if that is greater. The lengths of the two numbers tell it up to one, and one comparison tells
which it is. -/
def ratioExponent (numerator denominator : Nat) : Int :=
  let estimate := (numerator.log2 : Int) - denominator.log2 - 52
  max leastExponent
    (if numerator <<< (-estimate).toNat < (blockSize * denominator) <<< estimate.toNat then
      estimate - 1
    else estimate)

/-- The double nearest to `numerator / denominator`. Counting the mantissa on from the
start of its exponent's block also serves the smallest doubles, which have a short
mantissa, and a mantissa that rounding carries into the next exponent. -/
def ofRatio (negative : Bool) (numerator denominator : Nat) : Double :=
  if numerator = 0 then ofMagnitude negative 0
  else
    let exponent := ratioExponent numerator denominator
    let mantissa := roundHalfEven (numerator <<< (-exponent).toNat) (denominator <<< exponent.toNat)
    let block := (exponent - leastExponent).toNat
    ofMagnitude negative (min infinityBits (block * blockSize + mantissa))

/-- The integer nearest to a finite double; a tie goes to the even one. -/
def nearestWhole (d : Double) : Int :=
  let whole := roundHalfEven (d.mantissa <<< d.exponent.toNat) (1 <<< (-d.exponent).toNat)
  if d.isNegative then -(whole : Int) else whole

/-- The machine number of the same bits, on which the functions of the machine are taken. -/
def toFloat (d : Double) : Float := Float.ofBits d.bits

/-- The bits of a machine number. -/
def ofFloat (x : Float) : Double := ⟨x.toBits⟩

end Double

end YololChip
