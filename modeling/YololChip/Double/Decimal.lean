import YololChip.Double.Basic

/-!
# Decimal forms of doubles

`Double.ofDecimal` is the double nearest to a decimal. `Double.shortest` goes the
other way: of the decimals that are read back as the given double it takes those
with the fewest digits, and of these the nearest. `Double.text` lays the digits out.
-/

namespace YololChip

/-- The decimal `digits * 10 ^ exponent`. -/
structure Decimal where
  digits : Nat
  exponent : Int
deriving DecidableEq

/-- Moves up to `count` zeros at the end of the digits into the exponent. -/
def Decimal.normal : (count : Nat) → Decimal → Decimal
  | 0, d => d
  | count + 1, d =>
    if d.digits % 10 = 0 then normal count ⟨d.digits / 10, d.exponent + 1⟩ else d

def tenPower (exponent : Nat) : Nat := Nat.pow 10 exponent

namespace Double

/-- Beyond this power of ten every decimal is infinite, and below its inverse zero. -/
def decimalRange : Int := 400

/-- The double nearest to a decimal. Decimals far beyond the range are told by their size, so
that no great power of ten is worked out for them. -/
def ofDecimal (negative : Bool) (d : Decimal) : Double :=
  if d.digits = 0 then ofMagnitude negative 0
  else
    let size := ((toString d.digits).length : Int) + d.exponent
    if decimalRange < size then ofMagnitude negative infinityBits
    else if size < -decimalRange then ofMagnitude negative 0
    else ofRatio negative (d.digits * tenPower d.exponent.toNat) (tenPower (-d.exponent).toNat)

/-- The reals that are read as one double: from `low` to `high` in steps of
`1 / scale`, with the ends if `closed`; `value` is the double itself. -/
structure Rounding where
  low : Nat
  value : Nat
  high : Nat
  scale : Nat
  closed : Bool

/-- The interval around a finite double reaches half way to its neighbours. The lower
neighbour of a power of two is only half as far away as the upper one. -/
def rounding (d : Double) : Rounding :=
  let quarter := d.exponent - 2
  let below := if d.mantissa = blockSize ∧ d.exponent ≠ leastExponent then 1 else 2
  let size (n : Nat) := n <<< quarter.toNat
  { low := size (4 * d.mantissa - below)
    value := size (4 * d.mantissa)
    high := size (4 * d.mantissa + 2)
    scale := 1 <<< (-quarter).toNat
    closed := d.mantissa % 2 = 0 }

/-- Whether `n * 10 ^ exponent` is read as the double. -/
def Rounding.holds (r : Rounding) (n : Nat) (exponent : Int) : Bool :=
  let point := n * tenPower exponent.toNat * r.scale
  let unit := tenPower (-exponent).toNat
  if r.closed then r.low * unit ≤ point && point ≤ r.high * unit
  else r.low * unit < point && point < r.high * unit

/-- The decimal with the given exponent that is nearest to the double, if it or the
one on the other side of the double is read back. -/
def Rounding.onGrid (r : Rounding) (exponent : Int) : Option Decimal :=
  let unit := r.scale * tenPower exponent.toNat
  let scaled := r.value * tenPower (-exponent).toNat
  let below := scaled / unit
  let nearest := roundHalfEven scaled unit
  let other := if nearest = below then below + 1 else below
  if r.holds nearest exponent then some ⟨nearest, exponent⟩
  else if r.holds other exponent then some ⟨other, exponent⟩
  else none

/-- The least power of ten above the double. -/
def Rounding.size (r : Rounding) : Int :=
  if r.scale ≤ r.value then (toString (r.value / r.scale)).length
  else 1 - ((toString (r.scale / r.value)).length : Int)

/-- The shortest decimal that is read back as the given positive finite double. Grids are tried
from the coarsest on, one more digit at a time; seventeen digits always suffice. -/
def shortest (d : Double) : Decimal :=
  let r := d.rounding
  let found := (List.range 17).findSome? fun (count : Nat) => r.onGrid (r.size - (count + 1 : Nat))
  Decimal.normal 20 (found.getD ⟨0, 0⟩)

/-- The digits of a decimal laid out: with an exponent of two or more digits if
the decimal is below `10 ^ -4` or not below `10 ^ 16`, and otherwise with at least one
digit on each side of the point. -/
def layout (d : Decimal) : String :=
  let digits := (toString d.digits).toList
  let zeros (n : Int) := List.replicate n.toNat '0'
  let size := (digits.length : Int) + d.exponent
  if size ≤ -4 ∨ 16 < size then
    let power := toString (size - 1).natAbs
    String.ofList (digits.take 1) ++
      (if digits.length = 1 then "" else "." ++ String.ofList (digits.drop 1)) ++
      (if size - 1 < 0 then "e-" else "e+") ++
      (if power.length = 1 then "0" ++ power else power)
  else if size ≤ 0 then String.ofList ('0' :: '.' :: (zeros (-size) ++ digits))
  else if d.exponent < 0 then
    String.ofList (digits.take size.toNat ++ '.' :: digits.drop size.toNat)
  else String.ofList (digits ++ zeros d.exponent ++ ['.', '0'])

/-- The text of a double. What is no finite number has a name, which is not the one that JSON
gives it. -/
def text (d : Double) : String :=
  if d.isNaN then "nan"
  else (if d.isNegative then "-" else "") ++
    (if d.isInfinite then "inf" else if d.magnitude = 0 then "0.0" else layout d.shortest)

end Double

end YololChip
