import YololChip.Cylon.Export

/-!
# Programs from Cylon documents

A document is read node by node, and the first fault in the order of reading is the one that
is reported. Unknown fields are passed over, names are taken in any letter case, numbers
may be JSON numbers or numerals, and three trigonometric operators have a second
name. An absent comment or else part may also be null or empty.

A number of too many digits is no fault of the document: reading breaks off at it. So it does
where a fault would have to show a value with such a number.
-/

namespace YololChip.Cylon

/-- What was read, or why nothing was. -/
abbrev Reading (α : Type) : Type := Except (ReadFault DocumentFault) α

def refuse {α : Type} (fault : DocumentFault) : Reading α := .error (.refused fault)

/-- Refuses a document with a fault that shows a value. The report is made up at once, so a value
that cannot be written breaks the reading off in the place of the fault. -/
def refuseShowing {α : Type} (fault : Json → DocumentFault) (value : Json) : Reading α :=
  match value.overlong? with
  | some digits => .error (.overlong digits)
  | none => refuse (fault value)

/-- The text that a value stands for, if it can be written. -/
def textOf (value : Json) : Reading String :=
  match value.overlong? with
  | some digits => .error (.overlong digits)
  | none => .ok value.asText

def objectOf (what : String) : Json → Reading (List (String × Json))
  | .object fields => .ok fields
  | _ => refuse (.notAnObject what)

/-- The type that a node states. A node that states none is as one that states null. -/
def typeOf (fields : List (String × Json)) : Json := (Json.field? "type" fields).getD .null

/-- A field that a node must have, whatever its value is. The fault of a field that is missing
shows the node's type. -/
def required (fields : List (String × Json)) (name : String) : Reading Json :=
  match Json.field? name fields with
  | some value => .ok value
  | none =>
    refuseShowing (.missingField name) ((Json.field? "type" fields).getD (.text "node"))

def text? : Json → Option String
  | .text value => some value
  | _ => none

/-- The fields of a node of the given type, which must be stated as a text. -/
def typed (expected : String) (data : Json) : Reading (List (String × Json)) := do
  let fields ← objectOf expected data
  if text? (typeOf fields) = some expected then return fields
  else refuseShowing (.wrongType expected) (typeOf fields)

/-- An optional field. What is absent or void counts as the given value; what is void is not
only what is empty, but also false and zero. -/
def optional (fields : List (String × Json)) (name : String) (absent : Json) : Json :=
  match Json.field? name fields with
  | some value => if value.isVoid then absent else value
  | none => absent

/-- The operator that a symbol writes. What is no text writes none. -/
def operator {α : Type} (ofSymbol? : String → Option α) (symbol : Json) : Reading α :=
  match (text? symbol).bind ofSymbol? with
  | some op => .ok op
  | none => refuseShowing .unknownOperator symbol

/-- The second names of operators. -/
def alias? : String → Option UnaryOperator
  | "asin" => some .arcsin
  | "acos" => some .arccos
  | "atan" => some .arctan
  | _ => none

/-- The operator on one operand that a symbol or a second name writes. Documents are written
with the symbols only. -/
def unary? (symbol : String) : Option UnaryOperator :=
  (UnaryOperator.ofSymbol? symbol).or (alias? symbol)

/-- A name that is not empty. Which characters it has does not matter, so a document may name
variables that no source can. -/
def nonEmptyName (fault : DocumentFault) (data : Json) : Reading String :=
  match text? data with
  | some name => if name.isEmpty then refuse fault else .ok name
  | none => refuse fault

/-- The number that a numeral writes. A text that is no numeral is refused here, although in a
line of source it would be zero. -/
def numberOf (text : String) : Reading Fixed :=
  match Fixed.parse text with
  | .ok value => .ok value
  | .error fault => .error (fault.map .invalidNumber)

/-- Reads an expression that nests at most `depth` levels. The parts of a node are read in a fixed
order, whatever the order of its fields, so the first fault in that order is reported. -/
def readExpr : (depth : Nat) → Json → Reading Expr
  | 0, _ => refuse .tooDeep
  | depth + 1, data => do
    let fields ← objectOf "expression" data
    match text? (typeOf fields) with
    | some "expression::group" =>
      return .group none (← readExpr depth (← required fields "group"))
    | some "expression::binary_op" =>
      let op ← operator BinaryOperator.ofSymbol? (← required fields "operator")
      let left ← readExpr depth (← required fields "left")
      let right ← readExpr depth (← required fields "right")
      return .binary none op left right
    | some "expression::unary_op" =>
      let op ← operator unary? (← required fields "operator")
      return .unary none op (← readExpr depth (← required fields "operand"))
    | some "expression::number" =>
      return .number none (← numberOf (← textOf (← required fields "num")))
    | some "expression::string" => return .text none (← textOf (← required fields "str"))
    | some "expression::identifier" =>
      let name ← nonEmptyName .emptyName (← required fields "name")
      return .var none (Variable.named name)
    | _ => refuseShowing .unknownExpression (typeOf fields)

/-- The items of a list of statements. -/
def itemsOf : Json → Reading (List Json)
  | .list items => .ok items
  | _ => refuse .statementsNotAList

/-- Reads a list of statements with a reader of one, up to the first that is refused. -/
def readAll (one : Json → Reading Stmt) : List Json → Reading (List Stmt)
  | [] => .ok []
  | item :: rest => do
    let first ← one item
    return first :: (← readAll one rest)

/-- Reads a statement that nests at most `depth` levels. The else part of an if statement
is read before its condition and its body. -/
def readStmt : (depth : Nat) → Json → Reading Stmt
  | 0, _ => refuse .tooDeep
  | depth + 1, data => do
    let fields ← objectOf "statement" data
    match text? (typeOf fields) with
    | some "statement::goto" =>
      return .jump none (← readExpr depth (← required fields "expression"))
    | some "statement::if" =>
      let otherwise ← readAll (readStmt depth) (← itemsOf (optional fields "else_body" (.list [])))
      let condition ← readExpr depth (← required fields "condition")
      let body ← readAll (readStmt depth) (← itemsOf (← required fields "body"))
      return .branch none condition body (if otherwise.isEmpty then none else some otherwise)
    | some "statement::assignment" =>
      let name ← nonEmptyName .emptyTarget (← required fields "identifier")
      let op ← operator AssignOperator.ofSymbol? (← required fields "operator")
      let value ← readExpr depth (← required fields "value")
      return .assign none (.var none (Variable.named name)) op value
    | some "statement::expression" =>
      return .expression none (← readExpr depth (← required fields "expression"))
    | _ => refuseShowing .unknownStatement (typeOf fields)

/-- Reads the line with the given number. A comment comes to stand at its end, and an empty one
is none. -/
def readLine (number : Nat) (data : Json) : Reading Line := do
  let fields ← typed "line" data
  let code ← readAll (readStmt Grammar.nestingLimit) (← itemsOf (← required fields "code"))
  match text? (optional fields "comment" (.text "")) with
  | none => refuse .commentNotText
  | some comment =>
    let comments : List Stmt := if comment.isEmpty then [] else [.comment none comment]
    return ⟨none, code ++ comments, number⟩

/-- Reads lines, the first of which has the given number. -/
def readLines (number : Nat) : List Json → Reading (List Line)
  | [] => .ok []
  | data :: rest => do
    let first ← readLine number data
    return first :: (← readLines (number + 1) rest)

/-- Reads a program from its document. The version is looked at before the program, and the
number of its lines before any of them. A program that is read has no errors in it. -/
def toProgram (document : Json) : Reading Program := do
  let fields ← objectOf "document" document
  let version := (Json.field? "version" fields).getD .null
  if text? version ≠ some formatVersion then refuseShowing .version version
  let program ← typed "program" (← required fields "program")
  match ← required program "lines" with
  | .list lines =>
    if mostLines < lines.length then refuse (.tooManyLines lines.length)
    return ⟨none, ← readLines 1 lines, []⟩
  | _ => refuse .linesNotAList

/-- Reads a program from the text of its document. A text that is no JSON is refused in the
words of the JSON reader. -/
def read (text : String) : Reading Program :=
  match Json.read Grammar.nestingLimit text with
  | .error fault => .error (fault.map .invalidJson)
  | .ok document => toProgram document

end YololChip.Cylon
