import YololChip.Bindings
import YololChip.Double.Basic

/-!
# JSON values

A JSON value keeps whole numbers apart from numbers with a point or an exponent, and
keeps the fields of an object in the order of their first mention.
-/

namespace YololChip

/-- A JSON value. A whole number has any size, and one with a point or an exponent is the double
nearest to it. Fields of one name do not occur twice in what is read, but nothing here says so. -/
inductive Json where
  | null
  | bool (value : Bool)
  | whole (value : Int)
  | double (value : Double)
  | text (value : String)
  | list (items : List Json)
  | object (fields : List (String × Json))

namespace Json

/-- The value of a field of an object, and of several of one name the first. -/
def field? (name : String) (fields : List (String × Json)) : Option Json :=
  Bindings.find? name fields

/-- Whether a value counts as absent where a default may stand for it: null, false,
zero, and whatever is empty. -/
def isVoid : Json → Bool
  | null => true
  | bool value => !value
  | whole value => value = 0
  | double value => value.magnitude = 0
  | text value => value.isEmpty
  | list items => items.isEmpty
  | object fields => fields.isEmpty

end Json

end YololChip
