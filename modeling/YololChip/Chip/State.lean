import YololChip.Bindings
import YololChip.Chip.Value
import YololChip.Json.Writer
import YololChip.Source.ParseError

/-!
# The state of a chip

The variables of a chip, the line it runs next, and the text of its last error. Variables of
the chip and data fields are kept apart, each in the order of first assignment.
-/

namespace YololChip

/-- A chip between two lines. The two kinds of variables are in lists of their own, and a name
may stand in both. Nothing here says that a name stands in a list once, or that the next line is
one of the twenty; `write`, `goTo` and `advance` keep it so. -/
structure Chip where
  name : String
  locals : List (String × Value)
  fields : List (String × Value)
  nextLine : Int
  error : String

namespace Chip

/-- A chip without variables, at its first line. -/
def fresh (name : String) : Chip := ⟨name, [], [], 1, ""⟩

def bindings (chip : Chip) : Scope → List (String × Value)
  | .chip => chip.locals
  | .field => chip.fields

/-- The value of a variable that is set, from the list of its scope. -/
def read? (chip : Chip) (v : Variable) : Option Value :=
  Bindings.find? v.name (chip.bindings v.scope)

/-- The value of a variable; one that is not set reads as zero. -/
def read (chip : Chip) (v : Variable) : Value := (chip.read? v).getD .unset

/-- Sets a variable, in its place if it is set already, and otherwise behind all others of its
scope. -/
def write (chip : Chip) (v : Variable) (value : Value) : Chip :=
  match v.scope with
  | .chip => { chip with locals := Bindings.put v.name value chip.locals }
  | .field => { chip with fields := Bindings.put v.name value chip.fields }

/-- Forgets the variables of the chip. Data fields stay. -/
def resetLocals (chip : Chip) : Chip := { chip with locals := [] }

/-- The line that a goto to a number leads to: its floor, moved between the first line and the
last, so every number leads to a line. -/
def targetLine (a : Fixed) : Int := (a.floor.clamp 1 (some mostLines)).whole

/-- Moves to the line that a number names. -/
def goTo (chip : Chip) (a : Fixed) : Chip := { chip with nextLine := targetLine a }

/-- Moves to the following line; after the last comes the first. From outside of the lines it
leads back into them. -/
def advance (chip : Chip) : Chip := { chip with nextLine := chip.nextLine % mostLines + 1 }

/-- All variables, those of the chip first. A field takes the place of a variable of the same
name, which no two have that are named as the source names them. -/
def allBindings (chip : Chip) : List (String × Value) := Bindings.putAll chip.locals chip.fields

/-- A value as a written constant: a number by its numeral, and a text in quotes and in ASCII. -/
def written : Value → String
  | .num a => a.text
  | .str s => Json.quote s

/-- A text of at most eighty characters; of a longer one the first 77 and three dots. -/
def shortened (s : String) : String :=
  if 80 < s.length then String.ofList (s.toList.take 77) ++ "..." else s

/-- The short form of a value in a snapshot. -/
def snapshotText (value : Value) : String :=
  (match value with | .num _ => "NUM:" | .str _ => "STR:") ++ shortened (written value)

/-- The variables with the short forms of their values, those of the chip first and in the order
of first assignment. -/
def snapshot (chip : Chip) : List (String × String) :=
  Bindings.putAll (chip.locals.map fun (name, value) => (name, snapshotText value))
    (chip.fields.map fun (name, value) => (name, snapshotText value))

/-- Bindings in the order of their names, which compare by their characters. Bindings of one
name would stay in their order. -/
def sorted (bindings : List (String × Value)) : List (String × Value) :=
  bindings.mergeSort fun a b => decide (a.1 ≤ b.1)

/-- A variable and its value, as lists of variables show them. -/
def assignmentText (name : String) (value : Value) : String := name ++ " = " ++ written value

/-- The variables by name, those of the chip first. -/
def listing (chip : Chip) : List String :=
  (sorted chip.locals ++ sorted chip.fields).map fun (name, value) => assignmentText name value

end Chip

end YololChip
