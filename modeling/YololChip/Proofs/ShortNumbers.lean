import YololChip.Proofs.Documents
import YololChip.Proofs.NumeralGrammar

/-!
# Documents whose numbers are short

Reading a document breaks off where a number has too many digits: at a numeral that cannot be
read, or at a value that a fault would have to show. A document none of whose numbers is so
long is read to its end, or refused with a fault of its own.

That a number is short is said of all parts of a document, so it is handed on to whatever is read
of it. What is read is not known from this, only that reading does not break off.
-/

namespace YololChip

namespace Json

/-! ### Parts -/

/-- Whether a value is a part of another, at any depth. The names of fields are no parts. -/
inductive Occurs : Json → Json → Prop where
  | here (value : Json) : Occurs value value
  | item {items : List Json} {item part : Json} (member : item ∈ items)
      (inside : Occurs part item) : Occurs part (.list items)
  | field {fields : List (String × Json)} {name : String} {value part : Json}
      (member : (name, value) ∈ fields) (inside : Occurs part value) :
    Occurs part (.object fields)

theorem Occurs.trans {first second third : Json} (inner : Occurs first second)
    (outer : Occurs second third) : Occurs first third := by
  induction outer with
  | here => exact inner
  | item member _ inductionHypothesis => exact .item member (inductionHypothesis inner)
  | field member _ inductionHypothesis => exact .field member (inductionHypothesis inner)

mutual

/-- A value that cannot be written has a whole number of too many digits in it. It is the first
one from the left. -/
theorem exists_occurs_of_overlong? {digits : Nat} : (value : Json) →
    value.overlong? = some digits →
      ∃ n, Occurs (.whole n) value ∧ mostDigits < (Nat.toDigits 10 n.natAbs).length
  | .whole n, long => by
    rw [overlong?] at long
    split at long
    · next many => exact ⟨n, .here _, many⟩
    · contradiction
  | .list items, long => by
    obtain ⟨item, member, n, inside, many⟩ := exists_occurs_of_overlongItem? items long
    exact ⟨n, .item member inside, many⟩
  | .object fields, long => by
    obtain ⟨⟨name, value⟩, member, n, inside, many⟩ := exists_occurs_of_overlongField? fields long
    exact ⟨n, .field member inside, many⟩

theorem exists_occurs_of_overlongItem? {digits : Nat} : (items : List Json) →
    overlongItem? items = some digits →
      ∃ item ∈ items, ∃ n, Occurs (.whole n) item ∧ mostDigits < (Nat.toDigits 10 n.natAbs).length
  | item :: rest, long => by
    rw [overlongItem?, Option.or_eq_some_iff] at long
    rcases long with here | ⟨_, later⟩
    · exact ⟨item, List.mem_cons_self, exists_occurs_of_overlong? item here⟩
    · obtain ⟨other, member, inside⟩ := exists_occurs_of_overlongItem? rest later
      exact ⟨other, List.mem_cons_of_mem _ member, inside⟩

theorem exists_occurs_of_overlongField? {digits : Nat} : (fields : List (String × Json)) →
    overlongField? fields = some digits →
      ∃ entry ∈ fields, ∃ n, Occurs (.whole n) entry.2 ∧
        mostDigits < (Nat.toDigits 10 n.natAbs).length
  | (name, value) :: rest, long => by
    rw [overlongField?, Option.or_eq_some_iff] at long
    rcases long with here | ⟨_, later⟩
    · exact ⟨(name, value), List.mem_cons_self, exists_occurs_of_overlong? value here⟩
    · obtain ⟨other, member, inside⟩ := exists_occurs_of_overlongField? rest later
      exact ⟨other, List.mem_cons_of_mem _ member, inside⟩

end

/-- Whether all numbers in a value are short: the whole numbers, wherever they stand, and the
numerals in the fields of number nodes. -/
structure Short (document : Json) : Prop where
  numbers : ∀ n, Occurs (.whole n) document → (Nat.toDigits 10 n.natAbs).length ≤ mostDigits
  numerals : ∀ fields value, Occurs (.object fields) document → field? "num" fields = some value →
    ∀ digits, Fixed.parse value.asText ≠ .error (.overlong digits)

namespace Short

/-- The parts of a value whose numbers are short are such values. -/
theorem part {document part : Json} (short : document.Short) (occurs : Occurs part document) :
    part.Short where
  numbers n inside := short.numbers n (inside.trans occurs)
  numerals fields value inside := short.numerals fields value (inside.trans occurs)

theorem items {items : List Json} (short : (Json.list items).Short) :
    ∀ item ∈ items, item.Short :=
  fun item member => short.part (.item member (.here item))

theorem field {fields : List (String × Json)} (short : (Json.object fields).Short) {name : String}
    {value : Json} (found : field? name fields = some value) : value.Short :=
  short.part (.field (Bindings.mem_of_find? found) (.here value))

/-- What a field stands for if it may be absent: its value, or a value whose numbers are short
too. -/
theorem getD {fields : List (String × Json)} (short : (Json.object fields).Short) (name : String)
    {absent : Json} (shortAbsent : absent.Short) : ((field? name fields).getD absent).Short := by
  cases found : field? name fields with
  | none => exact shortAbsent
  | some value => exact short.field found

theorem overlong?_eq_none {value : Json} (short : value.Short) : value.overlong? = none := by
  cases long : value.overlong? with
  | none => rfl
  | some digits =>
    obtain ⟨n, inside, many⟩ := exists_occurs_of_overlong? value long
    exact absurd (short.numbers n inside) (Nat.not_le.mpr many)

theorem null : Json.null.Short := ⟨nofun, nofun⟩

theorem list {items : List Json} (short : ∀ item ∈ items, item.Short) :
    (Json.list items).Short where
  numbers n occurs := by
    cases occurs with
    | item member inside => exact (short _ member).numbers n inside
  numerals fields value occurs := by
    cases occurs with
    | item member inside => exact (short _ member).numerals fields value inside

/-- The numbers of an object are those of its fields, one of which may be called for as a
numeral. -/
theorem object {fields : List (String × Json)} (short : ∀ entry ∈ fields, entry.2.Short)
    (numeral : ∀ value, field? "num" fields = some value →
      ∀ digits, Fixed.parse value.asText ≠ .error (.overlong digits)) :
    (Json.object fields).Short where
  numbers n occurs := by
    cases occurs with
    | field member inside => exact (short _ member).numbers n inside
  numerals others value occurs := by
    cases occurs with
    | here => exact numeral value
    | field member inside => exact (short _ member).numerals others value inside

theorem whole {n : Int} (few : (Nat.toDigits 10 n.natAbs).length ≤ mostDigits) :
    (Json.whole n).Short where
  numbers m occurs := by
    cases occurs
    exact few
  numerals _ _ occurs := by cases occurs

theorem text (value : String) : (Json.text value).Short := ⟨nofun, nofun⟩

end Short

mutual

/-- Whether all numbers in a value are short, as a check. It looks at every object that has a
field of the name, whatever node the object is, so it may refuse more than a reader would break
off at. -/
def isShort : Json → Bool
  | .whole n => decide ((Nat.toDigits 10 n.natAbs).length ≤ mostDigits)
  | .list items => areShort items
  | .object fields => fieldsShort fields &&
    match field? "num" fields with
    | none => true
    | some value =>
      match Fixed.parse value.asText with
      | .error (.overlong _) => false
      | _ => true
  | .null | .bool _ | .double _ | .text _ => true

def areShort : List Json → Bool
  | [] => true
  | item :: rest => isShort item && areShort rest

def fieldsShort : List (String × Json) → Bool
  | [] => true
  | (_, value) :: rest => isShort value && fieldsShort rest

end

mutual

theorem short_of_isShort : (value : Json) → value.isShort = true → value.Short
  | .whole _, checked => .whole (of_decide_eq_true checked)
  | .list items, checked => .list (short_of_areShort items checked)
  | .object fields, checked => by
    obtain ⟨parts, numeral⟩ := Bool.and_eq_true_iff.mp checked
    refine .object (short_of_fieldsShort fields parts) fun value found digits broken => ?_
    simp only [found, broken] at numeral
    contradiction
  | .null, _ => .null
  | .text value, _ => .text value
  | .bool _, _ => ⟨nofun, nofun⟩
  | .double _, _ => ⟨nofun, nofun⟩

theorem short_of_areShort : (items : List Json) → areShort items = true →
    ∀ item ∈ items, item.Short
  | [], _ => List.forall_mem_nil _
  | item :: rest, checked => by
    obtain ⟨first, others⟩ := Bool.and_eq_true_iff.mp checked
    exact List.forall_mem_cons.mpr ⟨short_of_isShort item first, short_of_areShort rest others⟩

theorem short_of_fieldsShort : (fields : List (String × Json)) → fieldsShort fields = true →
    ∀ entry ∈ fields, entry.2.Short
  | [], _ => List.forall_mem_nil _
  | (_, value) :: rest, checked => by
    obtain ⟨first, others⟩ := Bool.and_eq_true_iff.mp checked
    exact List.forall_mem_cons.mpr
      ⟨short_of_isShort value first, short_of_fieldsShort rest others⟩

end

end Json

namespace Cylon

/-! ### Readings that do not break off -/

/-- Whether a reading gives a result or refuses the document, and does not break off. Which of
the two it does is left open. -/
def Finishes {α : Type} (reading : Reading α) : Prop :=
  ∀ digits, reading ≠ .error (.overlong digits)

namespace Finishes

variable {α β : Type}

theorem ok (value : α) : Finishes (.ok value) := nofun

theorem refuse (fault : DocumentFault) : Finishes (Cylon.refuse fault : Reading α) := nofun

theorem bind {first : Reading α} (finishes : Finishes first) {next : α → Reading β}
    (goesOn : ∀ value, first = .ok value → Finishes (next value)) : Finishes (first >>= next) := by
  cases first with
  | ok value => exact goesOn value rfl
  | error fault =>
    cases fault with
    | refused fault => exact nofun
    | overlong digits => exact absurd rfl (finishes digits)

theorem refuseShowing (fault : Json → DocumentFault) {value : Json} (short : value.Short) :
    Finishes (Cylon.refuseShowing fault value : Reading α) := by
  rw [Cylon.refuseShowing, short.overlong?_eq_none]
  exact refuse _

/-- Nothing goes on behind a refusal, whatever it would have been. -/
theorem refuseShowing_bind (fault : Json → DocumentFault) {value : Json} (short : value.Short)
    (next : α → Reading β) : Finishes (Cylon.refuseShowing fault value >>= next) :=
  (refuseShowing fault short).bind fun _ read => absurd read (refuseShowing_ne_ok _ _ _)

/-- A value whose numbers are short can be written as a text. Writing it is all that could break
off. -/
theorem textOf {value : Json} (short : value.Short) : Finishes (Cylon.textOf value) := by
  rw [Cylon.textOf, short.overlong?_eq_none]
  exact ok _

theorem objectOf {data : Json} (short : data.Short) (what : String)
    {next : List (String × Json) → Reading β}
    (goesOn : ∀ fields, (Json.object fields).Short → Finishes (next fields)) :
    Finishes (Cylon.objectOf what data >>= next) := by
  cases data with
  | object fields => exact goesOn fields short
  | _ => exact refuse _

/-- A field is found, or its absence is told by the type of the node. Neither of the two breaks
off. -/
theorem required {fields : List (String × Json)} (short : (Json.object fields).Short)
    (name : String) {next : Json → Reading β}
    (goesOn : ∀ value, value.Short → Json.field? name fields = some value →
      Finishes (next value)) :
    Finishes (Cylon.required fields name >>= next) := by
  unfold Cylon.required
  cases found : Json.field? name fields with
  | some value => exact goesOn value (short.field found) found
  | none => exact refuseShowing_bind _ (short.getD "type" (.text "node")) _

theorem operator (ofSymbol? : String → Option α) {symbol : Json} (short : symbol.Short) :
    Finishes (Cylon.operator ofSymbol? symbol) := by
  unfold Cylon.operator
  split
  · exact ok _
  · exact refuseShowing _ short

theorem nonEmptyName (fault : DocumentFault) (data : Json) :
    Finishes (Cylon.nonEmptyName fault data) := by
  unfold Cylon.nonEmptyName
  split
  · split
    · exact refuse fault
    · exact ok _
  · exact refuse fault

theorem itemsOf {data : Json} (short : data.Short) {next : List Json → Reading β}
    (goesOn : ∀ items, (∀ item ∈ items, item.Short) → Finishes (next items)) :
    Finishes (Cylon.itemsOf data >>= next) := by
  cases data with
  | list items => exact goesOn items short.items
  | _ => exact refuse _

end Finishes

/-! ### Nodes -/

theorem short_typeOf {fields : List (String × Json)} (short : (Json.object fields).Short) :
    (typeOf fields).Short :=
  short.getD "type" .null

/-- An optional field whose numbers are short stands for such a value, if its absence does. -/
theorem short_optional {fields : List (String × Json)} (short : (Json.object fields).Short)
    (name : String) {absent : Json} (shortAbsent : absent.Short) :
    (optional fields name absent).Short := by
  unfold optional
  cases found : Json.field? name fields with
  | none => exact shortAbsent
  | some value =>
    simp only
    split
    · exact shortAbsent
    · exact short.field found

/-- An expression whose numbers are short is read to its end or refused.

Proof: induction over the depth. -/
theorem finishes_readExpr (depth : Nat) {data : Json} (short : data.Short) :
    Finishes (readExpr depth data) := by
  induction depth generalizing data with
  | zero => exact .refuse _
  | succ depth inductionHypothesis =>
    rw [readExpr]
    refine .objectOf short _ fun fields short => ?_
    have inner (name : String) {next : Expr → Reading Expr} (goesOn : ∀ e, Finishes (next e)) :
        Finishes (required fields name >>= fun data => readExpr depth data >>= next) :=
      .required short name fun value shortValue _ =>
        (inductionHypothesis shortValue).bind fun e _ => goesOn e
    split
    · exact inner "group" fun e => .ok _
    · refine .required short "operator" fun symbol shortSymbol _ => ?_
      refine (Finishes.operator _ shortSymbol).bind fun op _ => ?_
      exact inner "left" fun left => inner "right" fun right => .ok _
    · refine .required short "operator" fun symbol shortSymbol _ => ?_
      refine (Finishes.operator _ shortSymbol).bind fun op _ => ?_
      exact inner "operand" fun operand => .ok _
    · refine .required short "num" fun num shortNum found => ?_
      refine (Finishes.textOf shortNum).bind fun text written => ?_
      refine Finishes.bind ?_ fun value _ => .ok _
      rw [textOf, shortNum.overlong?_eq_none] at written
      obtain rfl := Except.ok.inj written
      rw [numberOf]
      cases read : Fixed.parse num.asText with
      | ok value => exact .ok value
      | error fault =>
        cases fault with
        | refused fault => exact .refuse _
        | overlong digits => exact absurd read (short.numerals fields num (.here _) found digits)
    · refine .required short "str" fun data shortData _ => ?_
      exact (Finishes.textOf shortData).bind fun text _ => .ok _
    · refine .required short "name" fun data _ _ => ?_
      exact (Finishes.nonEmptyName _ data).bind fun name _ => .ok _
    · exact .refuseShowing _ (short_typeOf short)

/-- A row of statements is read to its end or refused, if each of them is. -/
theorem finishes_readAll {one : Json → Reading Stmt} {items : List Json}
    (each : ∀ item ∈ items, Finishes (one item)) : Finishes (readAll one items) := by
  induction items with
  | nil => exact .ok _
  | cons item rest inductionHypothesis =>
    refine (each item List.mem_cons_self).bind fun first _ => ?_
    refine (inductionHypothesis fun other member =>
      each other (List.mem_cons_of_mem _ member)).bind fun block _ => ?_
    exact .ok _

/-- A statement whose numbers are short is read to its end or refused.

Proof: induction over the depth. -/
theorem finishes_readStmt (depth : Nat) {data : Json} (short : data.Short) :
    Finishes (readStmt depth data) := by
  induction depth generalizing data with
  | zero => exact .refuse _
  | succ depth inductionHypothesis =>
    rw [readStmt]
    refine .objectOf short _ fun fields short => ?_
    have expression (name : String) {next : Expr → Reading Stmt}
        (goesOn : ∀ e, Finishes (next e)) :
        Finishes (required fields name >>= fun data => readExpr depth data >>= next) :=
      .required short name fun value shortValue _ =>
        (finishes_readExpr depth shortValue).bind fun e _ => goesOn e
    have block {data : Json} (shortData : data.Short) {next : List Stmt → Reading Stmt}
        (goesOn : ∀ block, Finishes (next block)) :
        Finishes (itemsOf data >>= fun items => readAll (readStmt depth) items >>= next) :=
      .itemsOf shortData fun items shortItems =>
        (finishes_readAll fun item member => inductionHypothesis (shortItems item member)).bind
          fun block _ => goesOn block
    split
    · exact expression "expression" fun target => .ok _
    · refine block (short_optional short _ (.list (List.forall_mem_nil _))) fun otherwise => ?_
      refine expression "condition" fun condition => ?_
      exact .required short "body" fun body shortBody _ => block shortBody fun body => .ok _
    · refine .required short "identifier" fun name _ _ => ?_
      refine (Finishes.nonEmptyName _ name).bind fun name _ => ?_
      refine .required short "operator" fun symbol shortSymbol _ => ?_
      refine (Finishes.operator _ shortSymbol).bind fun op _ => ?_
      exact expression "value" fun value => .ok _
    · exact expression "expression" fun value => .ok _
    · exact .refuseShowing _ (short_typeOf short)

/-- A node of a type that is called for is read, or its type is told. -/
theorem Finishes.typed {β : Type} {data : Json} (short : data.Short) (expected : String)
    {next : List (String × Json) → Reading β}
    (goesOn : ∀ fields, (Json.object fields).Short → Finishes (next fields)) :
    Finishes (Cylon.typed expected data >>= next) := by
  cases data with
  | object fields =>
    unfold Cylon.typed
    rw [objectOf_object, ok_bind]
    split
    · exact goesOn fields short
    · exact refuseShowing_bind _ (short_typeOf short) _
  | _ => exact refuse _

/-- A line whose numbers are short is read to its end or refused. -/
theorem finishes_readLine (number : Nat) {data : Json} (short : data.Short) :
    Finishes (readLine number data) := by
  refine .typed short "line" fun fields short => ?_
  refine .required short "code" fun code shortCode _ => ?_
  refine .itemsOf shortCode fun items shortItems => ?_
  refine (finishes_readAll fun item member =>
    finishes_readStmt _ (shortItems item member)).bind fun code _ => ?_
  split
  · exact .refuse _
  · exact .ok _

/-- Lines whose numbers are short are read to their end or refused. -/
theorem finishes_readLines (number : Nat) {items : List Json}
    (short : ∀ item ∈ items, item.Short) : Finishes (readLines number items) := by
  induction items generalizing number with
  | nil => exact .ok _
  | cons item rest inductionHypothesis =>
    refine (finishes_readLine number (short item List.mem_cons_self)).bind fun line _ => ?_
    refine (inductionHypothesis (number + 1) fun other member =>
      short other (List.mem_cons_of_mem _ member)).bind fun lines _ => ?_
    exact .ok _

/-- A document whose numbers are short is read to its end or refused. Its numbers are the only
things at which reading could break off. -/
theorem finishes_toProgram {document : Json} (short : document.Short) :
    Finishes (toProgram document) := by
  refine .objectOf short _ fun fields short => ?_
  dsimp only
  split
  · exact .refuseShowing_bind _ (short.getD "version" .null) _
  · refine .required short "program" fun program shortProgram _ => ?_
    refine .typed shortProgram "program" fun fields short => ?_
    refine .required short "lines" fun lines shortLines _ => ?_
    split
    · split
      · exact .refuse _
      · exact (finishes_readLines 1 shortLines.items).bind fun lines _ => .ok _
    · exact .refuse _

end Cylon

end YololChip
