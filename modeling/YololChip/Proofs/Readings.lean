import YololChip.Proofs.Documents

/-!
# What is read from a document

A program that was read from a document is portable, carries no locations, and nests no
deeper than the document it was read from. So it can be written, and what is read from
that text is the same program.

The reader takes more than the writer writes: unknown fields, second names of operators,
names in any letter case, numbers in other forms. None of this is left in the tree.
-/

namespace YololChip.Cylon

theorem objectOf_eq_ok {what : String} {data : Json} {fields : List (String × Json)} :
    objectOf what data = .ok fields ↔ data = .object fields := by
  cases data <;> simp [objectOf]

theorem required_eq_ok {fields : List (String × Json)} {name : String} {value : Json} :
    required fields name = .ok value ↔ Json.field? name fields = some value := by
  unfold required
  split
  · next found => simp [found]
  · next found => simp [found]

theorem depth_field?_le {fields : List (String × Json)} {name : String} {value : Json}
    (found : Json.field? name fields = some value) : value.depth ≤ Json.depthFields fields := by
  have each := (Json.depthFields_le_iff fields _).mp (Nat.le_refl _)
  exact each _ (Bindings.mem_of_find? found)

theorem depth_required_lt {fields : List (String × Json)} {name : String} {value : Json}
    (found : required fields name = .ok value) : value.depth < (Json.object fields).depth :=
  Nat.lt_succ_of_le (depth_field?_le (required_eq_ok.mp found))

theorem nonEmptyName_eq_ok {fault : DocumentFault} {data : Json} {name : String}
    (read : nonEmptyName fault data = .ok name) : name ≠ "" := by
  unfold nonEmptyName at read
  split at read
  · split at read
    · contradiction
    · next inhabited =>
      rw [← Except.ok.inj read]
      rintro rfl
      exact inhabited rfl
  · contradiction

/-- What is known of an expression that was read from a document: its variables are settled, it
has no locations, and it nests no deeper than the document. -/
structure ReadExpr (e : Expr) (data : Json) : Prop where
  settled : e.Settled
  bare : e.bare = e
  shallow : e.depth ≤ data.depth

/-- What is read as an expression has settled variables and no locations, and nests no
deeper than its document.

Proof: induction over the depth that is allowed. Every variable is made from a name that
is not empty, and every part is read from a field of the node. -/
theorem ReadExpr.of_readExpr {depth : Nat} {data : Json} {e : Expr}
    (read : readExpr depth data = .ok e) : ReadExpr e data := by
  induction depth generalizing data e with
  | zero => contradiction
  | succ depth inductionHypothesis =>
    rw [readExpr, bind_eq_ok] at read
    obtain ⟨fields, object, read⟩ := read
    rw [objectOf_eq_ok] at object
    subst object
    split at read
    · simp only [bind_eq_ok, pure_eq_ok, Except.ok.injEq] at read
      obtain ⟨group, found, inner, readInner, rfl⟩ := read
      obtain ⟨settled, bare, shallow⟩ := inductionHypothesis readInner
      constructor
      · exact settled
      · rw [Expr.bare, bare]
      · exact Nat.lt_of_le_of_lt shallow (depth_required_lt found)
    · simp only [bind_eq_ok, pure_eq_ok, Except.ok.injEq] at read
      obtain ⟨_, _, op, _, leftData, foundLeft, left, readLeft, rightData, foundRight, right,
        readRight, rfl⟩ := read
      obtain ⟨settledLeft, bareLeft, shallowLeft⟩ := inductionHypothesis readLeft
      obtain ⟨settledRight, bareRight, shallowRight⟩ := inductionHypothesis readRight
      constructor
      · exact ⟨settledLeft, settledRight⟩
      · rw [Expr.bare, bareLeft, bareRight]
      · have belowLeft := depth_required_lt foundLeft
        have belowRight := depth_required_lt foundRight
        rw [Expr.depth]
        omega
    · simp only [bind_eq_ok, pure_eq_ok, Except.ok.injEq] at read
      obtain ⟨_, _, op, _, operandData, found, operand, readOperand, rfl⟩ := read
      obtain ⟨settled, bare, shallow⟩ := inductionHypothesis readOperand
      constructor
      · exact settled
      · rw [Expr.bare, bare]
      · exact Nat.lt_of_le_of_lt shallow (depth_required_lt found)
    · simp only [bind_eq_ok, pure_eq_ok, Except.ok.injEq] at read
      obtain ⟨_, _, _, _, _, _, rfl⟩ := read
      exact ⟨trivial, rfl, Nat.succ_le_succ (Nat.zero_le _)⟩
    · simp only [bind_eq_ok, pure_eq_ok, Except.ok.injEq] at read
      obtain ⟨_, _, _, _, rfl⟩ := read
      exact ⟨trivial, rfl, Nat.succ_le_succ (Nat.zero_le _)⟩
    · simp only [bind_eq_ok, pure_eq_ok, Except.ok.injEq] at read
      obtain ⟨nameData, _, name, named, rfl⟩ := read
      exact ⟨Variable.settled_named (nonEmptyName_eq_ok named), rfl,
        Nat.succ_le_succ (Nat.zero_le _)⟩
    · exact absurd read (refuseShowing_ne_ok _ _ _)

/-- What is known of a statement that was read from a document: a document can carry it, it has
no locations, and what it is written as again nests no deeper. -/
structure ReadStmt (s : Stmt) (data : Json) : Prop where
  portable : s.Portable
  bare : s.bare = s
  shallow : ∀ {j : Json}, ofStmt s = .ok j → j.depth ≤ data.depth

/-- What is known of a block that was read from a document: what is known of its statements, for
all of them at once. -/
structure ReadBlock (block : List Stmt) (items : List Json) : Prop where
  portable : Stmt.PortableAll block
  bare : Stmt.bareAll block = block
  shallow : ∀ {written : List Json}, ofStmts block = .ok written →
    Json.depthItems written ≤ Json.depthItems items

/-- What is read item by item is known of the block if it is known of each statement. -/
theorem ReadBlock.of_readAll {one : Json → Reading Stmt}
    (each : ∀ {data : Json} {s : Stmt}, one data = .ok s → ReadStmt s data)
    {items : List Json} {block : List Stmt} (read : readAll one items = .ok block) :
    ReadBlock block items := by
  induction items generalizing block with
  | nil =>
    obtain rfl := Except.ok.inj read
    constructor
    · trivial
    · rfl
    · intro written same
      obtain rfl := Except.ok.inj same
      exact Nat.le_refl _
  | cons item items inductionHypothesis =>
    simp only [readAll, bind_eq_ok, pure_eq_ok, Except.ok.injEq] at read
    obtain ⟨first, readFirst, others, readOthers, rfl⟩ := read
    obtain ⟨portable, bare, shallow⟩ := each readFirst
    obtain ⟨portableOthers, bareOthers, shallowOthers⟩ := inductionHypothesis readOthers
    refine ⟨⟨portable, portableOthers⟩, by rw [Stmt.bareAll, bare, bareOthers], ?_⟩
    intro written same
    unfold ofStmts at same
    split at same
    · next j js one others =>
      rw [← Except.ok.inj same, Json.depthItems, Json.depthItems]
      have below := shallow one
      have belowOthers := shallowOthers others
      omega
    · contradiction
    · contradiction

theorem itemsOf_eq_ok {data : Json} {items : List Json} :
    itemsOf data = .ok items ↔ data = .list items := by
  cases data <;> simp [itemsOf]

/-- The items of an optional list nest less deep than the fields, unless there are none. -/
theorem depth_optional_list {fields : List (String × Json)} {name : String} {items : List Json}
    (found : itemsOf (optional fields name (.list [])) = .ok items) :
    Json.depthItems items < max 1 (Json.depthFields fields) := by
  have none : Json.depthItems [] < max 1 (Json.depthFields fields) :=
    Nat.lt_of_lt_of_le Nat.zero_lt_one (Nat.le_max_left _ _)
  rw [itemsOf_eq_ok] at found
  unfold optional at found
  split at found
  · next value here =>
    split at found
    · rw [← Json.list.inj found]
      exact none
    · have below := depth_field?_le here
      rw [found, Json.depth] at below
      exact Nat.lt_of_lt_of_le below (Nat.le_max_right _ _)
  · rw [← Json.list.inj found]
    exact none

/-- An else part that was read is portable, carries no locations, and nests no deeper than
its items. Without statements it counts as absent. -/
theorem ReadBlock.toElse {block : List Stmt} {items : List Json} (read : ReadBlock block items) :
    Stmt.PortableElse (if block.isEmpty then none else some block) ∧
      Stmt.bareElse (if block.isEmpty then none else some block) =
        (if block.isEmpty then none else some block) ∧
      ∀ {written : List Json},
        ofElse (if block.isEmpty then none else some block) = .ok written →
          Json.depthItems written ≤ Json.depthItems items := by
  obtain ⟨portable, bare, shallow⟩ := read
  cases block with
  | nil =>
    refine ⟨trivial, rfl, ?_⟩
    intro written same
    rw [← Except.ok.inj same]
    exact Nat.zero_le _
  | cons s rest => exact ⟨⟨List.cons_ne_nil _ _, portable⟩, congrArg some bare, shallow⟩

/-- A node with one field of an expression nests one level deeper than the expression. -/
theorem depth_node_ofExpr {type name : String} {e : Expr} {fields : List (String × Json)}
    {data : Json} (found : required fields name = .ok data) (read : ReadExpr e data) :
    (node type [(name, ofExpr e)]).depth ≤ (Json.object fields).depth := by
  have below := depth_required_lt found
  have shallow := read.shallow
  simp only [node, Json.depth, Json.depthFields, depth_ofExpr] at below ⊢
  omega

/-- What is known of an if statement of which the parts are known. The items of its blocks are
one level below its node. -/
theorem ReadStmt.branch {fields : List (String × Json)} {condition : Expr} {conditionData : Json}
    {body otherwise : List Stmt} {bodyItems elseItems : List Json}
    (foundCondition : required fields "condition" = .ok conditionData)
    (conditionKnown : ReadExpr condition conditionData)
    (foundBody : required fields "body" = .ok (.list bodyItems))
    (bodyKnown : ReadBlock body bodyItems)
    (foundElse : itemsOf (optional fields "else_body" (.list [])) = .ok elseItems)
    (elseKnown : ReadBlock otherwise elseItems) :
    ReadStmt (.branch none condition body (if otherwise.isEmpty then none else some otherwise))
      (.object fields) := by
  obtain ⟨portableElse, bareElse, shallowElse⟩ := elseKnown.toElse
  constructor
  · exact ⟨conditionKnown.settled, bodyKnown.portable, portableElse⟩
  · rw [Stmt.bare, conditionKnown.bare, bodyKnown.bare, bareElse]
  · intro j written
    unfold ofStmt at written
    split at written
    · next bodyWritten elseWritten writtenBody writtenElse =>
      have belowCondition := Nat.lt_of_le_of_lt conditionKnown.shallow
        (depth_required_lt foundCondition)
      have belowBody := depth_required_lt foundBody
      have belowElse := depth_optional_list foundElse
      have shallowBody := bodyKnown.shallow writtenBody
      have shallowOtherwise := shallowElse writtenElse
      rw [← Except.ok.inj written]
      simp only [node, Json.depth, Json.depthFields, depth_ofExpr] at belowCondition belowBody ⊢
      omega
    · contradiction
    · contradiction

/-- What is known of an assignment of which the parts are known. -/
theorem ReadStmt.assign {fields : List (String × Json)} {nameData : Json} {name : String}
    {op : AssignOperator} {value : Expr} {valueData : Json}
    (named : nonEmptyName .emptyTarget nameData = .ok name)
    (found : required fields "value" = .ok valueData) (known : ReadExpr value valueData) :
    ReadStmt (.assign none (.var none (Variable.named name)) op value) (.object fields) := by
  constructor
  · exact ⟨Variable.settled_named (nonEmptyName_eq_ok named), known.settled⟩
  · rw [Stmt.bare, known.bare, Expr.bare]
  · intro j written
    have below := Nat.lt_of_le_of_lt known.shallow (depth_required_lt found)
    rw [← Except.ok.inj written]
    simp only [node, Json.depth, Json.depthFields, depth_ofExpr] at below ⊢
    omega

/-- What is read as a statement is portable and has no locations, and its document nests
no deeper than the one it was read from.

Proof: induction over the depth that is allowed, along the kinds of statements. The
statements of a block are settled by the induction hypothesis. -/
theorem ReadStmt.of_readStmt {depth : Nat} {data : Json} {s : Stmt}
    (read : readStmt depth data = .ok s) : ReadStmt s data := by
  induction depth generalizing data s with
  | zero => contradiction
  | succ depth inductionHypothesis =>
    rw [readStmt, bind_eq_ok] at read
    obtain ⟨fields, object, read⟩ := read
    rw [objectOf_eq_ok] at object
    subst object
    split at read
    · simp only [bind_eq_ok, pure_eq_ok, Except.ok.injEq] at read
      obtain ⟨targetData, found, target, readTarget, rfl⟩ := read
      have known := ReadExpr.of_readExpr readTarget
      constructor
      · exact known.settled
      · rw [Stmt.bare, known.bare]
      · intro j written
        rw [← Except.ok.inj written]
        exact depth_node_ofExpr found known
    · simp only [bind_eq_ok, pure_eq_ok, Except.ok.injEq] at read
      obtain ⟨elseItems, foundElse, otherwise, readElse, conditionData, foundCondition, condition,
        readCondition, bodyData, foundBody, bodyItems, listed, body, readBody, rfl⟩ := read
      rw [itemsOf_eq_ok] at listed
      subst listed
      exact .branch foundCondition (.of_readExpr readCondition)
        foundBody (.of_readAll inductionHypothesis readBody)
        foundElse (.of_readAll inductionHypothesis readElse)
    · simp only [bind_eq_ok, pure_eq_ok, Except.ok.injEq] at read
      obtain ⟨_, _, name, named, _, _, op, _, valueData, found, value, readValue, rfl⟩ := read
      exact .assign named found (.of_readExpr readValue)
    · simp only [bind_eq_ok, pure_eq_ok, Except.ok.injEq] at read
      obtain ⟨valueData, found, value, readValue, rfl⟩ := read
      have known := ReadExpr.of_readExpr readValue
      constructor
      · exact known.settled
      · rw [Stmt.bare, known.bare]
      · intro j written
        rw [← Except.ok.inj written]
        exact depth_node_ofExpr found known
    · exact absurd read (refuseShowing_ne_ok _ _ _)

theorem typed_eq_ok {expected : String} {data : Json} {fields : List (String × Json)}
    (found : typed expected data = .ok fields) : data = .object fields := by
  simp only [typed, bind_eq_ok] at found
  obtain ⟨all, object, found⟩ := found
  rw [objectOf_eq_ok] at object
  split at found
  · rw [object, Except.ok.inj found]
  · exact absurd found (refuseShowing_ne_ok _ _ _)

/-- What is known of a line that was read from a document: it is as it would be carried, so
nothing of it is lost when it is written again. -/
structure ReadLine (line : Line) (number : Nat) (data : Json) : Prop where
  portable : line.Portable
  carried : line.carried = line
  number : line.number = number
  shallow : ∀ {j : Json}, ofLine line.statements = .ok j → j.depth ≤ data.depth

/-- What is read as a line is portable code with a comment that has a text, if any. -/
theorem ReadLine.of_readLine {number : Nat} {data : Json} {line : Line}
    (read : readLine number data = .ok line) : ReadLine line number data := by
  simp only [readLine, bind_eq_ok] at read
  obtain ⟨fields, object, codeData, foundCode, items, listed, code, readCode, read⟩ := read
  have object := typed_eq_ok object
  subst object
  rw [itemsOf_eq_ok] at listed
  subst listed
  split at read
  · contradiction
  · next comment found =>
    have same : line = ⟨none, code ++ closing comment, number⟩ := (Except.ok.inj read).symm
    subst same
    have known := ReadBlock.of_readAll ReadStmt.of_readStmt readCode
    have closed := closing_closing comment
    have carried : (Line.carried ⟨none, code ++ closing comment, number⟩).statements = _ :=
      carried_append known.portable closed rfl
    rw [known.bare] at carried
    refine ⟨⟨code, _, comment, known.portable, closed, rfl⟩, ?_, rfl, ?_⟩
    · exact congrArg (Line.mk none · number) carried
    · intro j written
      cases codeWritten : ofStmts code with
      | error fault =>
        obtain ⟨items, carries⟩ := exists_carriesAll code known.portable
        rw [carries.written] at codeWritten
        contradiction
      | ok writtenItems =>
        have whole := ofLine_append known.portable closed codeWritten
        rw [whole] at written
        have below := depth_required_lt foundCode
        have shallow := known.shallow codeWritten
        rw [← Except.ok.inj written]
        simp only [node, Json.depth, Json.depthFields] at below ⊢
        omega

/-- What is known of lines that were read from a document. They are as many as the items, and
numbered in their order. -/
structure ReadLines (lines : List Line) (number : Nat) (items : List Json) : Prop where
  portable : ∀ line ∈ lines, line.Portable
  carried : lines.map Line.carried = lines
  numbered : Line.NumberedFrom number lines
  length : lines.length = items.length
  shallow : ∀ {written : List Json}, ofLines lines = .ok written →
    Json.depthItems written ≤ Json.depthItems items

theorem ReadLines.of_readLines {number : Nat} {items : List Json} {lines : List Line}
    (read : readLines number items = .ok lines) : ReadLines lines number items := by
  induction items generalizing number lines with
  | nil =>
    obtain rfl := Except.ok.inj read
    constructor
    · simp
    · rfl
    · trivial
    · rfl
    · intro written same
      obtain rfl := Except.ok.inj same
      exact Nat.le_refl _
  | cons item items inductionHypothesis =>
    simp only [readLines, bind_eq_ok, pure_eq_ok, Except.ok.injEq] at read
    obtain ⟨first, readFirst, others, readOthers, rfl⟩ := read
    have firstKnown := ReadLine.of_readLine readFirst
    have othersKnown := inductionHypothesis readOthers
    constructor
    · intro line member
      rcases List.mem_cons.mp member with rfl | later
      · exact firstKnown.portable
      · exact othersKnown.portable line later
    · rw [List.map_cons, firstKnown.carried, othersKnown.carried]
    · exact ⟨firstKnown.number, othersKnown.numbered⟩
    · rw [List.length_cons, List.length_cons, othersKnown.length]
    · intro written same
      unfold ofLines at same
      split at same
      · contradiction
      · next j one =>
        split at same
        · contradiction
        · next js rest =>
          have below := firstKnown.shallow one
          have belowOthers := othersKnown.shallow rest
          rw [← Except.ok.inj same, Json.depthItems, Json.depthItems]
          omega

/-- A program that was read from a document is portable, is all that a document carries
of it, and has a document that nests no deeper than the one it was read from. -/
theorem read_program {document : Json} {p : Program} (read : toProgram document = .ok p)
    (shallow : document.depth ≤ Grammar.nestingLimit) : p.Portable ∧ p.carried = p ∧ Fits p := by
  simp only [toProgram, bind_eq_ok] at read
  obtain ⟨fields, object, read⟩ := read
  rw [objectOf_eq_ok] at object
  subst object
  split at read
  · obtain ⟨_, refused, _⟩ := bind_eq_ok.mp read
    exact absurd refused (refuseShowing_ne_ok _ _ _)
  · simp only [bind_eq_ok] at read
    obtain ⟨node, foundNode, programFields, typed, linesData, foundLines, read⟩ := read
    have object := typed_eq_ok typed
    subst object
    split at read
    · next items =>
      split at read
      · contradiction
      · next most =>
        simp only [bind_eq_ok, pure_eq_ok, Except.ok.injEq] at read
        obtain ⟨lines, readLines, rfl⟩ := read
        have known := ReadLines.of_readLines readLines
        refine ⟨⟨known.portable, known.numbered, ?_⟩, ?_, ?_⟩
        · rw [known.length]
          exact Nat.not_lt.mp most
        · exact congrArg (Program.mk none · []) known.carried
        · intro document written
          have belowProgram := depth_required_lt foundNode
          have belowLines := depth_required_lt foundLines
          unfold ofProgram at written
          split at written
          · contradiction
          · next items writtenLines =>
            have below := known.shallow writtenLines
            rw [← Except.ok.inj written]
            simp only [Cylon.node, Json.depth, Json.depthFields]
              at belowProgram belowLines shallow ⊢
            omega
    · contradiction

/-- A program that was read from a text is portable, is all that a document carries of it,
and can be written. -/
theorem read_text {text : String} {p : Program} (found : read text = .ok p) :
    p.Portable ∧ p.carried = p ∧ Fits p := by
  unfold read at found
  split at found
  · contradiction
  · next document parsed => exact read_program found (Json.depth_read parsed)

end YololChip.Cylon
