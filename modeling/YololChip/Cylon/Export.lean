import YololChip.Cylon.DocumentFault
import YololChip.Source.Program

/-!
# Programs as Cylon documents

Cylon is the JSON format in which tools exchange programs. A line's document holds its
comment apart from its code, so where in a line a comment stands is not kept; of
several comments the last is. A comment inside an if statement has no form, nor has an
assignment to anything but a variable. A program that nests deeper than documents may is
not written.
-/

namespace YololChip.Cylon

def formatVersion : String := "0.3.0"

/-- The name under which documents say who wrote them. -/
def exporterName : String := "yolol-interpreter"

/-- A node of a document: its type, and its fields. The type comes first. -/
def node (type : String) (fields : List (String × Json)) : Json :=
  .object (("type", .text type) :: fields)

/-- The node of an expression. Every expression has one; numbers are written as numerals, so
that no reader rounds them. -/
def ofExpr : Expr → Json
  | .group _ inner => node "expression::group" [("group", ofExpr inner)]
  | .binary _ op left right =>
    node "expression::binary_op"
      [("operator", .text op.symbol), ("left", ofExpr left), ("right", ofExpr right)]
  | .unary _ op operand =>
    node "expression::unary_op" [("operator", .text op.symbol), ("operand", ofExpr operand)]
  | .number _ value => node "expression::number" [("num", .text value.text)]
  | .text _ value => node "expression::string" [("str", .text value)]
  | .var _ target => node "expression::identifier" [("name", .text target.name)]

mutual

/-- The node of a statement. A comment has none, which matters inside an if statement only: the
comments of a line are taken out before. -/
def ofStmt : Stmt → Except DocumentFault Json
  | .jump _ target => .ok (node "statement::goto" [("expression", ofExpr target)])
  | .branch _ condition body otherwise =>
    match ofStmts body, ofElse otherwise with
    | .ok body, .ok otherwise =>
      .ok (node "statement::if"
        [("condition", ofExpr condition), ("body", .list body), ("else_body", .list otherwise)])
    | .error fault, _ => .error fault
    | _, .error fault => .error fault
  | .assign _ (.var _ target) op value =>
    .ok (node "statement::assignment"
      [("identifier", .text target.name), ("operator", .text op.symbol), ("value", ofExpr value)])
  | .assign _ _ _ _ => .error .targetNotVariable
  | .expression _ value => .ok (node "statement::expression" [("expression", ofExpr value)])
  | .comment _ _ => .error .commentInside

def ofStmts : List Stmt → Except DocumentFault (List Json)
  | [] => .ok []
  | s :: rest =>
    match ofStmt s, ofStmts rest with
    | .ok first, .ok others => .ok (first :: others)
    | .error fault, _ => .error fault
    | _, .error fault => .error fault

/-- The nodes of an else part, of which there are none if it is absent. So an absent and an
empty one are written alike. -/
def ofElse : Option (List Stmt) → Except DocumentFault (List Json)
  | none => .ok []
  | some block => ofStmts block

end

def isComment : Stmt → Bool
  | .comment _ _ => true
  | _ => false

/-- The text of the last comment among statements, or nothing. The others are not written. -/
def lastComment : List Stmt → String
  | [] => ""
  | .comment _ text :: rest => if rest.any isComment then lastComment rest else text
  | _ :: rest => lastComment rest

/-- The node of a line. The comments are parted from the rest, so a line with one in the middle
is read back with it at the end. -/
def ofLine (statements : List Stmt) : Except DocumentFault Json :=
  match ofStmts (statements.filter (!isComment ·)) with
  | .error fault => .error fault
  | .ok code =>
    .ok (node "line" [("comment", .text (lastComment statements)), ("code", .list code)])

def ofLines : List Line → Except DocumentFault (List Json)
  | [] => .ok []
  | line :: rest =>
    match ofLine line.statements with
    | .error fault => .error fault
    | .ok first =>
      match ofLines rest with
      | .error fault => .error fault
      | .ok others => .ok (first :: others)

/-- The document of a program. -/
def ofProgram (program : Program) : Except DocumentFault Json :=
  match ofLines program.lines with
  | .error fault => .error fault
  | .ok lines =>
    .ok (.object
      [("version", .text formatVersion),
       ("metadata", .object [("exporter", .text exporterName)]),
       ("program", node "program" [("lines", .list lines)])])

/-- The text of a program's document: on one line, or with the given indentation. A program that
nests too deeply is refused before anything else is looked at. -/
def write (program : Program) (indent : Option Int) : Except DocumentFault String :=
  if Grammar.nestingLimit < program.depth then .error .tooDeep
  else match ofProgram program with
  | .error fault => .error fault
  | .ok document => .ok (document.write indent)

end YololChip.Cylon
