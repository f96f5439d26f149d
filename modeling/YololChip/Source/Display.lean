import YololChip.Fixed.Numeral
import YololChip.Source.Tree
import YololChip.Text.Quoted

/-!
# Expressions in messages

The form in which an error message shows an expression: the kind of each node with its
parts by name, and no locations.
-/

namespace YololChip

def Scope.display : Scope → String
  | .chip => "<IdentifierKind.LOCAL: 'local'>"
  | .field => "<IdentifierKind.FIELD: 'field'>"

def BinaryOperator.display (op : BinaryOperator) : String :=
  "<BinaryOperator." ++ op.tag ++ ": '" ++ op.symbol ++ "'>"

def UnaryOperator.display (op : UnaryOperator) : String :=
  "<UnaryOperator." ++ op.tag ++ ": '" ++ op.symbol ++ "'>"

/-- The form in which messages show an expression. It is made up for every expression, however
deep; that a report of a deep one cannot be made is told by `EvalCause.isShowable`. -/
def Expr.display : Expr → String
  | number _ value => "Literal(value=Number('" ++ value.text ++ "'), literal_type='NUM')"
  | text _ value => "Literal(value=" ++ Text.quoted value ++ ", literal_type='STR')"
  | var _ target =>
    "Identifier(name=" ++ Text.quoted target.name ++ ", kind=" ++ target.scope.display ++ ")"
  | group _ inner => "Group(expression=" ++ inner.display ++ ")"
  | binary _ op left right =>
    "BinaryOp(operator=" ++ op.display ++ ", left=" ++ left.display ++ ", right=" ++
      right.display ++ ")"
  | unary _ op operand =>
    "UnaryOp(operator=" ++ op.display ++ ", operand=" ++ operand.display ++ ")"

end YololChip
