import YololChip.Double.Basic
import YololChip.Fixed.Arithmetic

/-!
# Elementary functions on fixed-point numbers

Powers and trigonometry go through doubles: the number becomes the double nearest to
it, the function is taken there, and the result is rounded to the nearest unit.
Angles are in degrees.
-/

namespace YololChip.Fixed

/-- The double nearest to a number. Numbers far from zero have more digits than a double, so
several of them share one. -/
def toDouble (a : Fixed) : Double :=
  Double.ofRatio (a.units < 0) a.units.natAbs scale.toNat

/-- The number nearest to a double, which is scaled in double precision first; a tie goes to the
even count of units. An infinity is an end of the range, and a double that is no number is none. -/
def ofDouble? (d : Double) : Option Fixed :=
  let scaled := Double.ofFloat (d.toFloat * Float.ofInt scale)
  if scaled.isNaN then none
  else if scaled.isInfinite then some (ofUnits (if scaled.isNegative then least else greatest))
  else some (ofUnits scaled.nearestWhole)

/-- A function on doubles taken at a number. The function itself is the machine's, and nothing
is known of it but its type. A result that is no number is zero. -/
def through (f : Float → Float) (a : Fixed) : Fixed :=
  (ofDouble? (Double.ofFloat (f a.toDouble.toFloat))).getD zero

/-- The double nearest to half the circumference of the unit circle. -/
def pi : Float := Float.ofBits 0x400921FB54442D18

def radians (degrees : Float) : Float := degrees * (pi / 180)

def degrees (radians : Float) : Float := radians * (180 / pi)

def sin (a : Fixed) : Fixed := through (fun x => (radians x).sin) a

def cos (a : Fixed) : Fixed := through (fun x => (radians x).cos) a

def tan (a : Fixed) : Fixed := through (fun x => (radians x).tan) a

/-- Whether a number lies outside the interval from minus one to one, where no angle has it as
its sine or cosine. -/
def isOutsideUnit (a : Fixed) : Bool := scale < a.units.natAbs

/-- The angle between minus ninety and ninety degrees with the given sine. -/
def arcsin (a : Fixed) : Except DomainFault Fixed :=
  if a.isOutsideUnit then .error (.arcsineOutside a)
  else .ok (through (fun x => degrees x.asin) a)

/-- The angle between zero and 180 degrees with the given cosine. -/
def arccos (a : Fixed) : Except DomainFault Fixed :=
  if a.isOutsideUnit then .error (.arccosineOutside a)
  else .ok (through (fun x => degrees x.acos) a)

/-- The angle between minus ninety and ninety degrees with the given tangent. -/
def arctan (a : Fixed) : Fixed := through (fun x => degrees x.atan) a

/-- The power, refused where it is no real number. It goes through doubles also if both numbers
are whole. -/
def pow (base exponent : Fixed) : Except DomainFault Fixed :=
  match ofDouble? (Double.ofFloat (base.toDouble.toFloat.pow exponent.toDouble.toFloat)) with
  | some a => .ok a
  | none => .error (.unrealPower base exponent)

end YololChip.Fixed
