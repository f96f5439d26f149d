import YololChip.Double.Decimal
import YololChip.Fixed.Numeral
import YololChip.Json.Basic
import YololChip.Text.Quoted

/-!
# Writing JSON

`Json.write` gives the text of a value in ASCII: on one line, or with an indentation
of its own for each level. `Json.quote` writes one string. `Json.display` is the other
written form of a value, the one in which messages show it.
-/

namespace YololChip.Json

/-- A sixteen-bit unit as an escape. -/
def unitEscape (unit : Nat) : List Char := '\\' :: 'u' :: Text.hexDigits 4 unit

/-- One character inside a written string. What is not ASCII is written by its sixteen-bit
units, of which some characters have two. -/
def quotedChar (c : Char) : List Char :=
  if c = '"' then ['\\', '"']
  else if c = '\\' then ['\\', '\\']
  else if c = '\n' then ['\\', 'n']
  else if c = '\r' then ['\\', 'r']
  else if c = '\t' then ['\\', 't']
  else if c = '\x08' then ['\\', 'b']
  else if c = '\x0c' then ['\\', 'f']
  else if ' ' ≤ c ∧ c ≤ '~' then [c]
  else if c.toNat < 0x10000 then unitEscape c.toNat
  else
    unitEscape (0xd800 + (c.toNat - 0x10000) / 0x400) ++
      unitEscape (0xdc00 + (c.toNat - 0x10000) % 0x400)

/-- A string between quotes, in ASCII. Reading it back gives the string again, whatever
characters it has. -/
def quote (s : String) : String :=
  String.ofList ('"' :: s.toList.flatMap quotedChar ++ ['"'])

/-- The text of a double, which has names for what is no finite number. -/
def doubleText (d : Double) : String :=
  if d.isNaN then "NaN"
  else if d.isInfinite then (if d.isNegative then "-Infinity" else "Infinity")
  else d.text

/-- What stands around and between the parts of a list or an object: on one line, or
with a line for each part. -/
structure Layout where
  opening : String
  separator : String
  closing : String

/-- The layout at a level of nesting. A negative indentation counts as none, which still gives
each part a line. -/
def layout (indent : Option Int) (level : Nat) : Layout :=
  match indent with
  | none => ⟨"", ", ", ""⟩
  | some width =>
    let line (level : Nat) := String.ofList ('\n' :: List.replicate (width.toNat * level) ' ')
    ⟨line (level + 1), "," ++ line (level + 1), line level⟩

/-- Parts between brackets; without parts the brackets stand alone. -/
def bracketed (left right : String) (layout : Layout) (parts : List String) : String :=
  if parts.isEmpty then left ++ right
  else left ++ layout.opening ++ layout.separator.intercalate parts ++ layout.closing ++ right

mutual

/-- The text of a value at a level of nesting. The level only counts for the indentation. -/
def writeAt (indent : Option Int) (level : Nat) : Json → String
  | .null => "null"
  | .bool value => if value then "true" else "false"
  | .whole value => toString value
  | .double value => doubleText value
  | .text value => quote value
  | .list items => bracketed "[" "]" (layout indent level) (writeItems indent (level + 1) items)
  | .object fields =>
    bracketed "\x7b" "\x7d" (layout indent level) (writeFields indent (level + 1) fields)

def writeItems (indent : Option Int) (level : Nat) : List Json → List String
  | [] => []
  | item :: items => writeAt indent level item :: writeItems indent level items

def writeFields (indent : Option Int) (level : Nat) : List (String × Json) → List String
  | [] => []
  | (name, value) :: fields =>
    (quote name ++ ": " ++ writeAt indent level value) :: writeFields indent level fields

end

/-- The text of a value: on one line, or with the given indentation. -/
def write (indent : Option Int) (value : Json) : String := writeAt indent 0 value

mutual

/-- The form in which messages show a value. It is not JSON: constants have other names, and
texts are quoted in another way. -/
def display : Json → String
  | .null => "None"
  | .bool value => if value then "True" else "False"
  | .whole value => toString value
  | .double value => value.text
  | .text value => Text.quoted value
  | .list items => "[" ++ ", ".intercalate (displayItems items) ++ "]"
  | .object fields => "\x7b" ++ ", ".intercalate (displayFields fields) ++ "\x7d"

def displayItems : List Json → List String
  | [] => []
  | item :: items => display item :: displayItems items

def displayFields : List (String × Json) → List String
  | [] => []
  | (name, value) :: fields =>
    (Text.quoted name ++ ": " ++ display value) :: displayFields fields

end

/-- The text that a value stands for where a text is called for: its own characters if it is
one, and else the form in which messages show it. That it can be written is asked before, by
`overlong?`. -/
def asText : Json → String
  | .text value => value
  | value => display value

mutual

/-- The number of digits of the first whole number in a value that has more of them than whole
numbers are written with. No text that is read as JSON gives such a value, because
reading breaks off at the number; a value made by other means may be one. -/
def overlong? : Json → Option Nat
  | .whole value =>
    let digits := (Nat.toDigits 10 value.natAbs).length
    if mostDigits < digits then some digits else none
  | .list items => overlongItem? items
  | .object fields => overlongField? fields
  | .null | .bool _ | .double _ | .text _ => none

/-- The number of digits of the first such number in the items of a list. -/
def overlongItem? : List Json → Option Nat
  | [] => none
  | item :: items => (overlong? item).or (overlongItem? items)

/-- The number of digits of the first such number in the fields of an object. -/
def overlongField? : List (String × Json) → Option Nat
  | [] => none
  | (_, value) :: fields => (overlong? value).or (overlongField? fields)

end

end YololChip.Json
