import YololChip.Fixed.Basic

/-!
# Numerals

The written form of a number: an optional minus sign, digits, and optionally a
point with more digits, with at least one digit in all. `Fixed.parse` reads every
such text, `Fixed.text` writes the shortest one. Digits after the fourth decimal
are cut.

Whole numbers are only read of so many digits. At a longer row reading breaks off. That is
no fault of the text, so nothing that stands in for malformed text stands in for it, and
no reader records it: whatever is being read is not read.
-/

namespace YololChip

/-- What is wrong with a text that is no numeral. Points are counted first, then it is asked
whether there are digits, and last whether there is anything else. -/
inductive NumeralFault where
  | tooManyPoints
  | noDigits
  | invalidDigit
deriving DecidableEq

/-- A text that was to be read as a number and is no numeral. -/
structure FormatError where
  fault : NumeralFault
  text : String
deriving DecidableEq

/-- The most digits of which a whole number is read, leading zeros included. The digits behind
a point are not counted: only the first four of them are read, as a number of their own. -/
def mostDigits : Nat := 4300

/-- Why reading gives nothing. What is read is refused with an error of the reader's own, or
reading breaks off at a whole number of more digits than are read. A reader makes an error
of its own of what its parts refuse, and hands on unchanged that they broke off. -/
inductive ReadFault (ε : Type) where
  | refused (error : ε)
  | overlong (digits : Nat)
deriving DecidableEq

/-- Reports what a part refuses in the terms of the whole. That reading broke off at so many
digits is reported as it was. -/
def ReadFault.map {ε δ : Type} (report : ε → δ) : ReadFault ε → ReadFault δ
  | refused error => refused (report error)
  | overlong digits => overlong digits

def FormatError.message (e : FormatError) : String :=
  match e.fault with
  | .tooManyPoints => "Too many decimal points in '" ++ e.text ++ "'"
  | .noDigits => "No digits in '" ++ e.text ++ "'"
  | .invalidDigit => "Invalid digit in '" ++ e.text ++ "'"

namespace Fixed

/-- The value of a decimal digit. Of other characters it has no meaning, and callers ask before. -/
def digitValue (c : Char) : Nat := c.toNat - '0'.toNat

/-- The natural number that a row of decimal digits writes. -/
def digitsValue (digits : List Char) : Nat :=
  digits.foldl (fun value c => value * 10 + digitValue c) 0

/-- The first four decimals as a count of ten-thousandths; missing ones are zeros, and further
ones are cut. -/
def decimalsValue (digits : List Char) : Nat :=
  digitsValue ((digits ++ ['0', '0', '0', '0']).take 4)

/-- What stands before the point of an unsigned text, or all of it if there is none. -/
def wholeDigits (cs : List Char) : List Char := cs.takeWhile (· != '.')

/-- The units of an unsigned numeral, or what is wrong with it. They are exact, and not yet
moved into any range. -/
def unsignedUnits (cs : List Char) : Except NumeralFault Nat :=
  let whole := wholeDigits cs
  let decimals := (cs.dropWhile (· != '.')).drop 1
  if decimals.contains '.' then .error .tooManyPoints
  else if whole.isEmpty && decimals.isEmpty then .error .noDigits
  else if whole.all Char.isDigit && decimals.all Char.isDigit then
    .ok (digitsValue whole * scale.toNat + decimalsValue decimals)
  else .error .invalidDigit

/-- Reads a numeral. The sign is taken off first, and counts for the units of all the rest. A
text that is no numeral is refused whatever its length; only of one that is a numeral is the
whole part looked at, and too many digits in it break the reading off. -/
def parse (text : String) : Except (ReadFault FormatError) Fixed :=
  let read (negative : Bool) (cs : List Char) : Except (ReadFault FormatError) Fixed :=
    match unsignedUnits cs with
    | .error fault => .error (.refused ⟨fault, text⟩)
    | .ok units =>
      if mostDigits < (wholeDigits cs).length then .error (.overlong (wholeDigits cs).length)
      else .ok (ofUnits (if negative then -(units : Int) else units))
  match text.toList with
  | '-' :: cs => read true cs
  | cs => read false cs

/-- The number that literal text stands for: text that is no numeral is zero. A numeral with too
many digits before its point stands for nothing; the error is how many they are. -/
def ofLiteral (text : String) : Except Nat Fixed :=
  match parse text with
  | .ok a => .ok a
  | .error (.refused _) => .ok zero
  | .error (.overlong digits) => .error digits

/-- The last `places` decimal digits of a natural number, with leading zeros. -/
def paddedDigits : (places : Nat) → Nat → List Char
  | 0, _ => []
  | places + 1, n => paddedDigits places (n / 10) ++ [Nat.digitChar (n % 10)]

/-- A row of digits without the zeros at its end, which may be all of it. -/
def withoutTrailingZeros (digits : List Char) : List Char :=
  digits.reverse.dropWhile (· == '0') |>.reverse

/-- The written form: no point without decimals, no zero at the end of the decimals, and no sign
on zero. So every number has one, and it is the shortest. -/
def text (a : Fixed) : String :=
  let sign := if a.units < 0 then "-" else ""
  let whole := a.units.natAbs / scale.toNat
  let rest := a.units.natAbs % scale.toNat
  if rest = 0 then sign ++ toString whole
  else sign ++ toString whole ++ "." ++ String.ofList (withoutTrailingZeros (paddedDigits 4 rest))

end Fixed

end YololChip
