import YololChip.Text.Printable

/-!
# Quoted texts

A text between quotes, as messages show it. The quotes are single unless the text has
a single quote and no double one. The quote, the backslash and characters that
do not show as themselves are escaped.
-/

namespace YololChip.Text

/-- The last `places` hexadecimal digits of a number. -/
def hexDigits : (places : Nat) → Nat → List Char
  | 0, _ => []
  | places + 1, n => hexDigits places (n / 16) ++ [Nat.digitChar (n % 16)]

/-- The quote around a text: the single one, unless the text has it and does not have the double
one. -/
def quoteFor (cs : List Char) : Char :=
  if cs.contains '\'' && !cs.contains '"' then '"' else '\''

/-- One character between quotes. The other quote stands as it is, and so does what shows as
itself; everything else is written by its code point, in as few digits as there are forms for. -/
def quotedChar (quote c : Char) : List Char :=
  if c = quote ∨ c = '\\' then ['\\', c]
  else if c = '\n' then ['\\', 'n']
  else if c = '\r' then ['\\', 'r']
  else if c = '\t' then ['\\', 't']
  else if isPrintable c then [c]
  else if c.toNat < 0x100 then '\\' :: 'x' :: hexDigits 2 c.toNat
  else if c.toNat < 0x10000 then '\\' :: 'u' :: hexDigits 4 c.toNat
  else '\\' :: 'U' :: hexDigits 8 c.toNat

def quoted (s : String) : String :=
  let cs := s.toList
  let quote := quoteFor cs
  String.ofList (quote :: cs.flatMap (quotedChar quote) ++ [quote])

end YololChip.Text
