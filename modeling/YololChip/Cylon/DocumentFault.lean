import YololChip.Json.Reader
import YololChip.Json.Writer
import YololChip.Fixed.Numeral
import YololChip.Source.ParseError

/-!
# Faults of documents

Why a Cylon document stands for no program, and why a tree has no document.
-/

namespace YololChip

/-- What is wrong with a document, or with a tree that is to become one. The parts of a document
that a fault shows are kept whole, and only its message writes them. -/
inductive DocumentFault where
  | invalidJson (error : Json.ReadError)
  | notAnObject (what : String)
  | version (found : Json)
  | linesNotAList
  | tooManyLines (count : Nat)
  | tooDeep
  | commentNotText
  | statementsNotAList
  | unknownStatement (type : Json)
  | unknownExpression (type : Json)
  | emptyTarget
  | emptyName
  | unknownOperator (symbol : Json)
  | invalidNumber (error : FormatError)
  | wrongType (expected : String) (found : Json)
  | missingField (name : String) (type : Json)
  | targetNotVariable
  | commentInside

def DocumentFault.message : DocumentFault → String
  | invalidJson .tooDeep => "JSON nested too deeply"
  | invalidJson error => "Invalid JSON: " ++ error.message
  | notAnObject what => what ++ " must be an object"
  | version found => "Unsupported Cylon AST version " ++ found.display
  | linesNotAList => "program.lines must be a list"
  | tooManyLines count =>
    "program has " ++ toString count ++ " lines, a chip holds at most " ++ toString mostLines
  | tooDeep => "expression nested too deeply"
  | commentNotText => "line.comment must be a string"
  | statementsNotAList => "statement list must be a list"
  | unknownStatement type => "Unknown statement type " ++ type.display
  | unknownExpression type => "Unknown expression type " ++ type.display
  | emptyTarget => "assignment.identifier must be a non-empty string"
  | emptyName => "identifier.name must be a non-empty string"
  | unknownOperator symbol => "Unknown operator " ++ symbol.display
  | invalidNumber error => "Invalid number: " ++ error.message
  | wrongType expected found =>
    "Expected node of type " ++ Text.quoted expected ++ ", found " ++ found.display
  | missingField name type =>
    "Missing field " ++ Text.quoted name ++ " in " ++ type.display
  | targetNotVariable => "Assignment target must be an identifier"
  | commentInside => "Cannot export Comment as a statement"

end YololChip
