import YololChip.Fixed.Numeral
import YololChip.Text.Quoted

/-!
# Values

What a variable holds: a number or a text. Every value has a text, which is what
operators on texts and comparisons across kinds see. Only the number zero is false.
-/

namespace YololChip

/-- A value of a chip. -/
inductive Value where
  | num (value : Fixed)
  | str (value : String)
deriving DecidableEq

namespace Value

def unset : Value := num .zero

/-- The text of a value: a number's numeral, or the text itself. A number and its numeral have
the same text and are two values. -/
def text : Value → String
  | num a => a.text
  | str s => s

/-- The number one for truth, and zero for falsehood. -/
def ofBool (flag : Bool) : Value := num (if flag then .one else .zero)

/-- Whether a value counts as false: only the number zero does, and no text, not even the empty
one. -/
def isFalse (v : Value) : Bool := v = num .zero

/-- The form in which messages show a number. -/
def displayNumber (a : Fixed) : String := "Number('" ++ a.text ++ "')"

/-- The form in which messages show a value. -/
def display : Value → String
  | num a => "Value(type='NUM', value=" ++ displayNumber a ++ ")"
  | str s => "Value(type='STR', value=" ++ Text.quoted s ++ ")"

end Value

end YololChip
