import YololChip.Cylon.Import
import YololChip.Proofs.JsonText
import YololChip.Proofs.Numerals
import YololChip.Proofs.Portable

/-!
# What a document carries

The document of a portable tree exists, and reading it gives the tree back without its
locations. A document never nests less deep than its tree, so a document that is not
too deep is read in full.

The writer and the reader are separate recursions over the same nodes. They meet in
`Carries`, which says of one tree and one document that the first is written as the
second and the second is read as the first, and which every node passes on.
-/

namespace YololChip.Cylon

/-- Two stages succeed together exactly if the first succeeds and the second succeeds
on its result. -/
theorem bind_eq_ok {ε α β : Type} {first : Except ε α} {next : α → Except ε β} {result : β} :
    (first >>= next) = .ok result ↔ ∃ value, first = .ok value ∧ next value = .ok result := by
  cases first with
  | error fault => simp [bind, Except.bind]
  | ok value => simp [bind, Except.bind]

@[simp] theorem ok_bind {ε α β : Type} (value : α) (next : α → Except ε β) :
    (Except.ok value >>= next) = next value := rfl

@[simp] theorem pure_eq_ok {ε α : Type} (value : α) : (pure value : Except ε α) = .ok value := rfl

/-! ### Fields of nodes -/

@[simp] theorem field?_cons (name key : String) (value : Json) (rest : List (String × Json)) :
    Json.field? name ((key, value) :: rest) =
      if key = name then some value else Json.field? name rest := rfl

@[simp] theorem objectOf_object (what : String) (fields : List (String × Json)) :
    objectOf what (.object fields) = .ok fields := rfl

@[simp] theorem objectOf_node (what type : String) (fields : List (String × Json)) :
    objectOf what (node type fields) = .ok (("type", .text type) :: fields) := rfl

@[simp] theorem typeOf_cons (type : Json) (fields : List (String × Json)) :
    typeOf (("type", type) :: fields) = type := rfl

@[simp] theorem text?_text (value : String) : text? (.text value) = some value := rfl

@[simp] theorem refuse_ne_ok {α : Type} (fault : DocumentFault) (value : α) :
    refuse fault ≠ .ok value := nofun

/-- A refusal that shows a value is no result, whether the value can be shown or not. -/
@[simp] theorem refuseShowing_ne_ok {α : Type} (fault : Json → DocumentFault) (shown : Json)
    (value : α) : refuseShowing fault shown ≠ .ok value := by
  unfold refuseShowing
  split <;> nofun

/-- A text can always be written, so it is given where a text is called for. -/
@[simp] theorem textOf_text (value : String) : textOf (.text value) = .ok value := rfl

@[simp] theorem numberOf_text (value : Fixed) : numberOf value.text = .ok value := by
  rw [numberOf, Fixed.parse_text]

@[simp] theorem required_of_field {fields : List (String × Json)} {name : String} {value : Json}
    (found : Json.field? name fields = some value) : required fields name = .ok value := by
  rw [required, found]

/-- A symbol of a document finds the operator that it was written for. -/
@[simp] theorem unary?_symbol (op : UnaryOperator) : unary? op.symbol = some op := by
  simp [unary?]

/-! ### Expressions -/

/-- A document nests as deep as the expression that it holds. Each node of an expression is one
object, so nothing is added. -/
theorem depth_ofExpr (e : Expr) : (ofExpr e).depth = e.depth := by
  induction e with
  | number | text | var => rfl
  | group _ _ inductionHypothesis =>
    simp [ofExpr, node, Json.depth, Json.depthFields, Expr.depth, inductionHypothesis]
  | binary _ _ _ _ left right =>
    simp [ofExpr, node, Json.depth, Json.depthFields, Expr.depth, left, right]
  | unary _ _ _ inductionHypothesis =>
    simp [ofExpr, node, Json.depth, Json.depthFields, Expr.depth, inductionHypothesis]

/-- The document of an expression is built from texts and objects, and no object names
a field twice. -/
theorem plain_ofExpr (e : Expr) : (ofExpr e).Plain := by
  induction e with
  | number | text | var => simp [ofExpr, node, Json.Plain, Json.PlainFields]
  | group _ _ inductionHypothesis =>
    simp [ofExpr, node, Json.Plain, Json.PlainFields, inductionHypothesis]
  | binary _ _ _ _ left right => simp [ofExpr, node, Json.Plain, Json.PlainFields, left, right]
  | unary _ _ _ inductionHypothesis =>
    simp [ofExpr, node, Json.Plain, Json.PlainFields, inductionHypothesis]

@[simp] theorem ofExpr_bare (e : Expr) : ofExpr e.bare = ofExpr e := by
  induction e with
  | number | text | var => rfl
  | group _ _ inductionHypothesis => rw [Expr.bare, ofExpr, ofExpr, inductionHypothesis]
  | binary _ _ _ _ left right => rw [Expr.bare, ofExpr, ofExpr, left, right]
  | unary _ _ _ inductionHypothesis => rw [Expr.bare, ofExpr, ofExpr, inductionHypothesis]

/-- An expression whose variables are settled is read back from its document.

Proof: induction over the expression. A number is read from the digits that write it, an
operator is found by its symbol, and a settled variable is named again by its name. -/
theorem readExpr_ofExpr {e : Expr} {depth : Nat} (settled : e.Settled) (enough : e.depth ≤ depth) :
    readExpr depth (ofExpr e) = .ok e.bare := by
  induction e generalizing depth with
  | number loc value =>
    obtain ⟨depth, rfl⟩ := Nat.exists_eq_add_of_le' enough
    simp [ofExpr, Expr.depth, readExpr, Expr.bare]
  | text loc value =>
    obtain ⟨depth, rfl⟩ := Nat.exists_eq_add_of_le' enough
    simp [ofExpr, Expr.depth, readExpr, Expr.bare]
  | var loc target =>
    obtain ⟨depth, rfl⟩ := Nat.exists_eq_add_of_le' enough
    simp [ofExpr, Expr.depth, readExpr, nonEmptyName, Expr.bare, settled.1, settled.2]
  | group loc inner inductionHypothesis =>
    obtain ⟨depth, rfl⟩ : ∃ more, depth = more + 1 :=
      ⟨depth - 1, by rw [Expr.depth] at enough; omega⟩
    have read := inductionHypothesis settled (Nat.le_of_succ_le_succ enough)
    simp [ofExpr, readExpr, Expr.bare, read]
  | binary loc op left right leftHypothesis rightHypothesis =>
    obtain ⟨depth, rfl⟩ : ∃ more, depth = more + 1 :=
      ⟨depth - 1, by rw [Expr.depth] at enough; omega⟩
    rw [Expr.depth] at enough
    have readLeft := leftHypothesis settled.1 (show left.depth ≤ depth by omega)
    have readRight := rightHypothesis settled.2 (show right.depth ≤ depth by omega)
    simp [ofExpr, readExpr, operator, Expr.bare, readLeft, readRight]
  | unary loc op operand inductionHypothesis =>
    obtain ⟨depth, rfl⟩ : ∃ more, depth = more + 1 :=
      ⟨depth - 1, by rw [Expr.depth] at enough; omega⟩
    have read := inductionHypothesis settled (Nat.le_of_succ_le_succ enough)
    simp [ofExpr, readExpr, operator, Expr.bare, read]

/-! ### Statements -/

/-- A statement and the document that carries it: the one is written as the other, and this is
read as the statement without its locations, at every depth that is deep enough. The document is
one that survives being written as text. -/
structure Carries (s : Stmt) (j : Json) : Prop where
  written : ofStmt s = .ok j
  plain : j.Plain
  deeper : s.depth ≤ j.depth
  read : ∀ {depth : Nat}, s.depth ≤ depth → readStmt depth j = .ok s.bare

/-- A block and the items that carry it, one for each statement in their order. -/
structure CarriesAll (block : List Stmt) (items : List Json) : Prop where
  written : ofStmts block = .ok items
  plain : Json.PlainItems items
  deeper : Stmt.depthAll block ≤ Json.depthItems items
  read : ∀ {depth : Nat}, Stmt.depthAll block ≤ depth →
    readAll (readStmt depth) items = .ok (Stmt.bareAll block)

/-- An else part and the items that carry it. An absent one is carried by no items, so an empty
one could not be told from it; no reader gives an empty one. -/
structure CarriesElse (otherwise : Option (List Stmt)) (items : List Json) : Prop where
  written : ofElse otherwise = .ok items
  plain : Json.PlainItems items
  deeper : Stmt.depthElse otherwise ≤ Json.depthItems items
  read : ∀ {depth : Nat}, Stmt.depthElse otherwise ≤ depth → ∃ block,
    readAll (readStmt depth) items = .ok block ∧
      (if block.isEmpty then none else some block) = Stmt.bareElse otherwise

theorem optional_list {fields : List (String × Json)} {name : String} {items : List Json}
    (found : Json.field? name fields = some (.list items)) :
    optional fields name (.list []) = .list items := by
  cases items with
  | nil => simp [optional, found, Json.isVoid]
  | cons item items => simp [optional, found, Json.isVoid]

/-- What carries the parts of an if statement carries the statement. -/
theorem Carries.branch {loc : Option Location} {condition : Expr} {body : List Stmt}
    {otherwise : Option (List Stmt)} {bodyItems elseItems : List Json}
    (settled : condition.Settled) (bodyCarried : CarriesAll body bodyItems)
    (elseCarried : CarriesElse otherwise elseItems) :
    Carries (.branch loc condition body otherwise) (node "statement::if"
      [("condition", ofExpr condition), ("body", .list bodyItems),
        ("else_body", .list elseItems)]) where
  written := by simp [ofStmt, bodyCarried.written, elseCarried.written]
  plain := by
    simp [node, Json.Plain, Json.PlainFields, plain_ofExpr, bodyCarried.plain, elseCarried.plain]
  deeper := by
    have deeperBody := bodyCarried.deeper
    have deeperElse := elseCarried.deeper
    simp only [node, Json.depth, Json.depthFields, depth_ofExpr, Stmt.depth]
    omega
  read := by
    intro depth enough
    rw [Stmt.depth] at enough
    obtain ⟨depth, rfl⟩ : ∃ more, depth = more + 1 := ⟨depth - 1, by omega⟩
    obtain ⟨block, readElse, same⟩ := elseCarried.read
      (show Stmt.depthElse otherwise ≤ depth by omega)
    have readBody := bodyCarried.read (show Stmt.depthAll body ≤ depth by omega)
    have readCondition := readExpr_ofExpr settled (show condition.depth ≤ depth by omega)
    have elseField : optional [("type", .text "statement::if"), ("condition", ofExpr condition),
        ("body", .list bodyItems), ("else_body", .list elseItems)] "else_body" (.list []) =
          .list elseItems := optional_list (by simp)
    simp [readStmt, elseField, itemsOf, readElse, readCondition, readBody, Stmt.bare, ← same]

theorem Carries.assign {loc place : Option Location} {target : Variable} {op : AssignOperator}
    {value : Expr} (named : target.Settled) (settled : value.Settled) :
    Carries (.assign loc (.var place target) op value) (node "statement::assignment"
      [("identifier", .text target.name), ("operator", .text op.symbol),
        ("value", ofExpr value)]) where
  written := rfl
  plain := by simp [node, Json.Plain, Json.PlainFields, plain_ofExpr]
  deeper := by
    have positive : 1 ≤ value.depth := by cases value <;> simp [Expr.depth]
    simp only [node, Json.depth, Json.depthFields, depth_ofExpr, Stmt.depth, Expr.depth]
    omega
  read := by
    intro depth enough
    rw [Stmt.depth] at enough
    obtain ⟨depth, rfl⟩ : ∃ more, depth = more + 1 := ⟨depth - 1, by omega⟩
    have readValue := readExpr_ofExpr settled (show value.depth ≤ depth by omega)
    simp [readStmt, nonEmptyName, operator, named.1, named.2, readValue, Stmt.bare, Expr.bare]

theorem Carries.jump {loc : Option Location} {target : Expr} (settled : target.Settled) :
    Carries (.jump loc target) (node "statement::goto" [("expression", ofExpr target)]) where
  written := rfl
  plain := by simp [node, Json.Plain, Json.PlainFields, plain_ofExpr]
  deeper := by simp [node, Json.depth, Json.depthFields, depth_ofExpr, Stmt.depth]
  read := by
    intro depth enough
    rw [Stmt.depth] at enough
    obtain ⟨depth, rfl⟩ : ∃ more, depth = more + 1 := ⟨depth - 1, by omega⟩
    have readTarget := readExpr_ofExpr settled (show target.depth ≤ depth by omega)
    simp [readStmt, readTarget, Stmt.bare]

theorem Carries.expression {loc : Option Location} {value : Expr} (settled : value.Settled) :
    Carries (.expression loc value)
      (node "statement::expression" [("expression", ofExpr value)]) where
  written := rfl
  plain := by simp [node, Json.Plain, Json.PlainFields, plain_ofExpr]
  deeper := by simp [node, Json.depth, Json.depthFields, depth_ofExpr, Stmt.depth]
  read := by
    intro depth enough
    rw [Stmt.depth] at enough
    obtain ⟨depth, rfl⟩ : ∃ more, depth = more + 1 := ⟨depth - 1, by omega⟩
    have readValue := readExpr_ofExpr settled (show value.depth ≤ depth by omega)
    simp [readStmt, readValue, Stmt.bare]

/-- What carries the first statement and the others carries them all. -/
theorem CarriesAll.cons {s : Stmt} {rest : List Stmt} {j : Json} {items : List Json}
    (first : Carries s j) (others : CarriesAll rest items) :
    CarriesAll (s :: rest) (j :: items) where
  written := by simp [ofStmts, first.written, others.written]
  plain := ⟨first.plain, others.plain⟩
  deeper := by
    have deeperFirst := first.deeper
    have deeperOthers := others.deeper
    simp only [Stmt.depthAll, Json.depthItems]
    omega
  read := by
    intro depth enough
    rw [Stmt.depthAll, Nat.max_le] at enough
    simp [readAll, first.read enough.1, others.read enough.2, Stmt.bareAll]

/-- What carries a block that is not empty carries it as an else part. -/
theorem CarriesAll.toElse {block : List Stmt} {items : List Json} (inhabited : block ≠ [])
    (carried : CarriesAll block items) : CarriesElse (some block) items where
  written := carried.written
  plain := carried.plain
  deeper := carried.deeper
  read := by
    intro depth enough
    refine ⟨_, carried.read enough, ?_⟩
    cases block with
    | nil => exact absurd rfl inhabited
    | cons s rest => simp [Stmt.bareAll, Stmt.bareElse]

mutual

theorem exists_carries : (s : Stmt) → s.Portable → ∃ j, Carries s j
  | .comment _ _, portable => False.elim portable
  | .branch _ _ body otherwise, portable => by
    obtain ⟨settled, portableBody, portableElse⟩ := portable
    obtain ⟨bodyItems, bodyCarried⟩ := exists_carriesAll body portableBody
    obtain ⟨elseItems, elseCarried⟩ := exists_carriesElse otherwise portableElse
    exact ⟨_, .branch settled bodyCarried elseCarried⟩
  | .jump _ _, portable => ⟨_, .jump portable⟩
  | .assign _ target _ _, portable => by
    cases target with
    | var => exact ⟨_, .assign portable.1 portable.2⟩
    | _ => exact False.elim portable
  | .expression _ _, portable => ⟨_, .expression portable⟩

/-- Every portable block is carried by the items of a document. -/
theorem exists_carriesAll : (block : List Stmt) → Stmt.PortableAll block →
    ∃ items, CarriesAll block items
  | [], _ => ⟨[], rfl, trivial, Nat.le_refl _, fun _ => rfl⟩
  | s :: rest, portable => by
    obtain ⟨j, first⟩ := exists_carries s portable.1
    obtain ⟨items, others⟩ := exists_carriesAll rest portable.2
    exact ⟨_, .cons first others⟩

/-- Every portable else part is carried by the items of a document. An absent one is carried as
an empty list. -/
theorem exists_carriesElse : (otherwise : Option (List Stmt)) → Stmt.PortableElse otherwise →
    ∃ items, CarriesElse otherwise items
  | none, _ => ⟨[], rfl, trivial, Nat.le_refl _, fun _ => ⟨[], rfl, rfl⟩⟩
  | some block, portable => by
    obtain ⟨items, carried⟩ := exists_carriesAll block portable.2
    exact ⟨items, carried.toElse portable.1⟩

end

mutual

@[simp] theorem ofStmt_bare : (s : Stmt) → ofStmt s.bare = ofStmt s
  | .comment _ _ => rfl
  | .branch _ _ body otherwise => by
    rw [Stmt.bare, ofStmt, ofStmt, ofStmts_bareAll body, ofElse_bareElse otherwise, ofExpr_bare]
  | .jump _ _ => by rw [Stmt.bare, ofStmt, ofStmt, ofExpr_bare]
  | .assign _ target _ _ => by
    cases target <;> simp [Stmt.bare, Expr.bare, ofStmt]
  | .expression _ _ => by rw [Stmt.bare, ofStmt, ofStmt, ofExpr_bare]

@[simp] theorem ofStmts_bareAll : (block : List Stmt) → ofStmts (Stmt.bareAll block) = ofStmts block
  | [] => rfl
  | s :: rest => by rw [Stmt.bareAll, ofStmts, ofStmts, ofStmt_bare s, ofStmts_bareAll rest]

@[simp] theorem ofElse_bareElse :
    (otherwise : Option (List Stmt)) → ofElse (Stmt.bareElse otherwise) = ofElse otherwise
  | none => rfl
  | some block => by rw [Stmt.bareElse, ofElse, ofElse, ofStmts_bareAll block]

end

/-! ### Lines -/

theorem filter_not_isComment {code : List Stmt} (portable : Stmt.PortableAll code) :
    code.filter (!isComment ·) = code := by
  rw [List.filter_eq_self]
  intro s member
  simp [Stmt.not_isComment_of_portable ((Stmt.portableAll_iff code).mp portable s member)]

theorem filter_not_isEmptyComment {code : List Stmt} (portable : Stmt.PortableAll code) :
    code.filter (!·.isEmptyComment) = code := by
  rw [List.filter_eq_self]
  intro s member
  have other := Stmt.not_isComment_of_portable ((Stmt.portableAll_iff code).mp portable s member)
  simp [Stmt.not_isEmptyComment other]

/-- Behind portable code the last comment is that of what follows. -/
theorem lastComment_append {code : List Stmt} (portable : Stmt.PortableAll code)
    (rest : List Stmt) : lastComment (code ++ rest) = lastComment rest := by
  induction code with
  | nil => rfl
  | cons s code inductionHypothesis =>
    have later := inductionHypothesis portable.2
    cases s with
    | comment => exact False.elim portable.1
    | _ => exact later

/-- What the comment of a document becomes at the end of a line. An empty comment and none are
written alike, and both are read as none. -/
def closing (text : String) : List Stmt := if text.isEmpty then [] else [.comment none text]

/-- The comment of a document stands behind the code of a line. -/
theorem closing_closing (text : String) : Stmt.Closing (closing text) text := by
  unfold closing
  split
  · next empty =>
    rw [String.isEmpty_iff.mp empty]
    exact .absent
  · exact .comment none text

/-- The document of a line holds the items of its code, and its comment. -/
theorem ofLine_append {code rest : List Stmt} {text : String} {items : List Json}
    (portable : Stmt.PortableAll code) (closed : Stmt.Closing rest text)
    (written : ofStmts code = .ok items) :
    ofLine (code ++ rest) =
      .ok (node "line" [("comment", .text text), ("code", .list items)]) := by
  have codeOnly : (code ++ rest).filter (!isComment ·) = code := by
    rw [List.filter_append, filter_not_isComment portable]
    cases closed with
    | absent => simp
    | comment => simp [isComment]
  have comment : lastComment (code ++ rest) = text := by
    rw [lastComment_append portable]
    cases closed with
    | absent => rfl
    | comment => simp [lastComment]
  rw [ofLine, codeOnly, comment, written]

theorem carried_append {line : Line} {code rest : List Stmt} {text : String}
    (portable : Stmt.PortableAll code) (closed : Stmt.Closing rest text)
    (same : line.statements = code ++ rest) :
    line.carried.statements = Stmt.bareAll code ++ closing text := by
  have kept : line.carried.statements =
      Stmt.bareAll (code ++ rest.filter (!·.isEmptyComment)) := by
    rw [Line.carried, Line.bare, Line.withoutEmptyComments, same, List.filter_append,
      filter_not_isEmptyComment portable]
  rw [kept, Stmt.bareAll_append]
  cases closed with
  | absent => simp [closing, Stmt.bareAll]
  | comment loc text =>
    by_cases empty : text.isEmpty = true
    · simp [closing, Stmt.isEmptyComment, empty, Stmt.bareAll]
    · simp [closing, Stmt.isEmptyComment, empty, Stmt.bareAll, Stmt.bare]

/-- The deepest statement of two blocks in a row is in one of them. -/
theorem depthAll_append (first second : List Stmt) :
    Stmt.depthAll (first ++ second) = max (Stmt.depthAll first) (Stmt.depthAll second) := by
  induction first with
  | nil => simp [Stmt.depthAll]
  | cons s rest inductionHypothesis =>
    rw [List.cons_append, Stmt.depthAll, Stmt.depthAll, inductionHypothesis, Nat.max_assoc]

/-- A line and the document that carries it. What is read is the line as it is carried, which is
written as the same document again; so a second turn changes nothing. -/
structure CarriesLine (line : Line) (j : Json) : Prop where
  written : ofLine line.statements = .ok j
  rewritten : ofLine line.carried.statements = .ok j
  plain : j.Plain
  deeper : Stmt.depthAll line.statements ≤ j.depth
  read : ∀ number : Nat, line.number = number →
    Stmt.depthAll line.statements ≤ Grammar.nestingLimit → readLine number j = .ok line.carried

theorem exists_carriesLine {line : Line} (portable : line.Portable) : ∃ j, CarriesLine line j := by
  obtain ⟨code, rest, text, portableCode, closed, same⟩ := portable
  obtain ⟨items, carriedCode⟩ := exists_carriesAll code portableCode
  have carried := carried_append portableCode closed same
  have total : Stmt.depthAll line.statements ≤ max (Stmt.depthAll code) 1 := by
    rw [same, depthAll_append]
    cases closed with
    | absent => simp only [Stmt.depthAll]; omega
    | comment => simp only [Stmt.depthAll, Stmt.depth]; omega
  have codeFirst : Stmt.depthAll code ≤ Stmt.depthAll line.statements := by
    rw [same, depthAll_append]
    exact Nat.le_max_left _ _
  refine ⟨node "line" [("comment", .text text), ("code", .list items)], ?_, ?_, ?_, ?_, ?_⟩
  · rw [same]
    exact ofLine_append portableCode closed carriedCode.written
  · have written : ofStmts (Stmt.bareAll code) = .ok items := by
      rw [ofStmts_bareAll, carriedCode.written]
    rw [carried]
    exact ofLine_append portableCode.bare (closing_closing text) written
  · simp [node, Json.Plain, Json.PlainFields, carriedCode.plain]
  · have deeper := carriedCode.deeper
    simp only [node, Json.depth, Json.depthFields]
    omega
  · intro number sameNumber shallow
    have readCode := carriedCode.read (Nat.le_trans codeFirst shallow)
    have comment : optional [("type", .text "line"), ("comment", .text text),
        ("code", .list items)] "comment" (.text "") = .text text := by
      by_cases empty : text = ""
      · simp [optional, Json.isVoid, empty]
      · simp [optional, Json.isVoid, empty]
    have whole : line.carried = ⟨none, Stmt.bareAll code ++ closing text, number⟩ := by
      rw [← carried, ← sameNumber]
      rfl
    simp [readLine, typed, itemsOf, readCode, comment, whole, closing]

/-- Lines and the items that carry them, one for each. A line is read under the number of its
place, so the numbers have to be in order. -/
structure CarriesLines (lines : List Line) (items : List Json) : Prop where
  written : ofLines lines = .ok items
  rewritten : ofLines (lines.map Line.carried) = .ok items
  plain : Json.PlainItems items
  deeper : ∀ line ∈ lines, Stmt.depthAll line.statements ≤ Json.depthItems items
  read : ∀ number : Nat, Line.NumberedFrom number lines →
    (∀ line ∈ lines, Stmt.depthAll line.statements ≤ Grammar.nestingLimit) →
    readLines number items = .ok (lines.map Line.carried)
  length : items.length = lines.length

theorem exists_carriesLines {lines : List Line} (portable : ∀ line ∈ lines, line.Portable) :
    ∃ items, CarriesLines lines items := by
  induction lines with
  | nil => exact ⟨[], rfl, rfl, trivial, by simp, fun _ _ _ => rfl, rfl⟩
  | cons line rest inductionHypothesis =>
    obtain ⟨j, first⟩ := exists_carriesLine (portable line (by simp))
    obtain ⟨items, others⟩ :=
      inductionHypothesis fun other member => portable other (by simp [member])
    refine ⟨j :: items, ?_, ?_, ⟨first.plain, others.plain⟩, ?_, ?_, ?_⟩
    · rw [ofLines, first.written, others.written]
    · rw [List.map_cons, ofLines, first.rewritten, others.rewritten]
    · intro other member
      rw [Json.depthItems]
      rcases List.mem_cons.mp member with rfl | later
      · exact Nat.le_trans first.deeper (Nat.le_max_left _ _)
      · exact Nat.le_trans (others.deeper other later) (Nat.le_max_right _ _)
    · intro number numbered shallow
      have readFirst := first.read number numbered.1 (shallow line (by simp))
      have readOthers := others.read (number + 1) numbered.2 fun other member =>
        shallow other (by simp [member])
      simp [readLines, readFirst, readOthers]
    · rw [List.length_cons, List.length_cons, others.length]

/-! ### Programs -/

/-- A program and the document that carries it. Reading asks that the document nests no deeper
than documents may, which writing does not ask. -/
structure CarriesProgram (p : Program) (document : Json) : Prop where
  written : ofProgram p = .ok document
  rewritten : ofProgram p.carried = .ok document
  plain : document.Plain
  deeper : p.depth ≤ document.depth
  read : document.depth ≤ Grammar.nestingLimit → toProgram document = .ok p.carried

/-- The deepest line of a program bounds every line, and is bounded by what bounds them all. -/
theorem depth_le_iff (p : Program) (limit : Nat) :
    p.depth ≤ limit ↔ ∀ line ∈ p.lines, Stmt.depthAll line.statements ≤ limit := by
  rw [Program.depth]
  induction p.lines with
  | nil => simp
  | cons line rest inductionHypothesis =>
    rw [List.foldr_cons, Nat.max_le, inductionHypothesis]
    simp

theorem exists_carriesProgram {p : Program} (portable : p.Portable) :
    ∃ document, CarriesProgram p document := by
  obtain ⟨items, lines⟩ := exists_carriesLines portable.lines
  have deeper (line : Line) (member : line ∈ p.lines) := lines.deeper line member
  refine ⟨_, by rw [ofProgram, lines.written],
    by rw [ofProgram, Program.carried, lines.rewritten], ?_, ?_, ?_⟩
  · simp [node, Json.Plain, Json.PlainFields, lines.plain]
  · have below : p.depth ≤ Json.depthItems items := (depth_le_iff p _).mpr deeper
    simp only [node, Json.depth, Json.depthFields]
    omega
  · intro shallow
    simp only [node, Json.depth, Json.depthFields] at shallow
    have readLines := lines.read 1 portable.numbered fun line member => by
      have below := deeper line member
      omega
    have most := portable.most
    rw [← lines.length] at most
    simp [toProgram, formatVersion, typed, readLines, Nat.not_lt.mpr most, Program.carried]

/-- Whether the document of a program nests no deeper than documents may. A program that has no
document fits, for nothing is there to nest. -/
def Fits (p : Program) : Prop :=
  ∀ document, ofProgram p = .ok document → document.depth ≤ Grammar.nestingLimit

/-- A program fits if the document that it has, if it has one, is not too deep. Being too deep
can therefore be decided. -/
theorem fits_iff (p : Program) :
    Fits p ↔ (ofProgram p).toOption.all (·.depth ≤ Grammar.nestingLimit) = true := by
  unfold Fits
  cases ofProgram p with
  | error fault => simp [Except.toOption]
  | ok document => simp [Except.toOption]

instance (p : Program) : Decidable (Fits p) := decidable_of_iff _ (fits_iff p).symm

/-- What a document carries of a program nests no deeper than the program. Empty comments and
locations have no depth. -/
theorem depth_carried_le (p : Program) : p.carried.depth ≤ p.depth := by
  apply (depth_le_iff _ _).mpr
  intro carried member
  obtain ⟨line, inside, rfl⟩ := List.mem_map.mp member
  have shallow : ∀ block : List Stmt,
      Stmt.depthAll (block.filter (!·.isEmptyComment)) ≤ Stmt.depthAll block := by
    intro block
    induction block with
    | nil => exact Nat.le_refl _
    | cons s rest inductionHypothesis =>
      rw [List.filter_cons]
      split
      · simp only [Stmt.depthAll]
        omega
      · simp only [Stmt.depthAll]
        omega
  calc Stmt.depthAll line.carried.statements
      = Stmt.depthAll (line.statements.filter (!·.isEmptyComment)) := by
        simp [Line.carried, Line.bare, Line.withoutEmptyComments]
    _ ≤ Stmt.depthAll line.statements := shallow _
    _ ≤ p.depth := (depth_le_iff p _).mp (Nat.le_refl _) line inside

/-- A portable program whose document is not too deep has a text, and the text is read
as what a document carries of the program. What was read has the same texts. -/
theorem exists_write {p : Program} (portable : p.Portable) (fits : Fits p) (indent : Option Int) :
    ∃ text, write p indent = .ok text ∧ read text = .ok p.carried ∧
      ∀ other, write p.carried other = write p other := by
  obtain ⟨document, carries⟩ := exists_carriesProgram portable
  have shallow := fits document carries.written
  have shallowProgram : ¬Grammar.nestingLimit < p.depth :=
    Nat.not_lt.mpr (Nat.le_trans carries.deeper shallow)
  have shallowCarried : ¬Grammar.nestingLimit < p.carried.depth := by
    have below := depth_carried_le p
    omega
  refine ⟨document.write indent, ?_, ?_, ?_⟩
  · rw [write, if_neg shallowProgram, carries.written]
  · rw [read, Json.read_write indent carries.plain shallow]
    exact carries.read shallow
  · intro other
    rw [write, write, if_neg shallowProgram, if_neg shallowCarried, carries.written,
      carries.rewritten]

end YololChip.Cylon
