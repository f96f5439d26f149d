import YololChip.Proofs.ShortNumbers
import YololChip.Proofs.Stores

/-!
# What does not count in a document

A node of a document is an object, of which only the fields count that its type names. In which
order they stand and what stands beside them does not matter, nor does what is called metadata.
Names may be written in any letter case, three operators have second names, a number has many
numerals, and an absent comment or else part may also be void. Documents that differ in nothing
else are read alike: as the same program, or not at all.

There are three places where objects are no nodes and all their fields count: a text may be
written as any value, and a comment or an else part may be an object as long as it is an empty
one.
-/

namespace YololChip.Cylon

/-! ### Places -/

/-- The kinds of nodes. Which fields count in a node goes by its kind, and for statements and
expressions by the type that it names too. -/
inductive NodeKind where
  | document
  | program
  | line
  | statement
  | expression
deriving DecidableEq

/-- What is called for at a place of a document. A label is a text that stands for itself alone;
a name may be in any case, a sign or a word may be one of several that stand for one operator,
and a numeral may be written in several ways. -/
inductive Place where
  | node (kind : NodeKind)
  | nodes (kind : NodeKind)
  | otherwise
  | comment
  | label
  | name
  | unaryOperator
  | numeral
  | verbatim
deriving DecidableEq

/-- The fields that count in a node of the given type, with what is called for in each. A node
of an unknown type has its type for its only field that counts: it is refused for that. -/
def NodeKind.fields : NodeKind → (type : Option String) → List (String × Place)
  | document, _ => [("version", .label), ("program", .node program)]
  | program, _ => [("type", .label), ("lines", .nodes line)]
  | line, _ => [("type", .label), ("code", .nodes statement), ("comment", .comment)]
  | statement, type => ("type", .label) ::
    match type with
    | some "statement::goto" => [("expression", .node expression)]
    | some "statement::if" =>
      [("condition", .node expression), ("body", .nodes statement), ("else_body", .otherwise)]
    | some "statement::assignment" =>
      [("identifier", .name), ("operator", .label), ("value", .node expression)]
    | some "statement::expression" => [("expression", .node expression)]
    | _ => []
  | expression, type => ("type", .label) ::
    match type with
    | some "expression::group" => [("group", .node expression)]
    | some "expression::binary_op" =>
      [("operator", .label), ("left", .node expression), ("right", .node expression)]
    | some "expression::unary_op" => [("operator", .unaryOperator), ("operand", .node expression)]
    | some "expression::number" => [("num", .numeral)]
    | some "expression::string" => [("str", .verbatim)]
    | some "expression::identifier" => [("name", .name)]
    | _ => []

namespace Place

/-- Whether a place may be left void: absent, null, or empty. All others are refused then. -/
def isOptional : Place → Bool
  | otherwise | comment => true
  | _ => false

/-- Whether a value is of the kind that is called for. What is no list and no object may be a
numeral, and any value may be a text. -/
def accepts : Place → Json → Bool
  | node _, .object _ | nodes _, .list _ | otherwise, .list _ => true
  | otherwise, value => value.isVoid
  | comment, .text _ => true
  | comment, value => value.isVoid
  | label, .text _ | name, .text _ | unaryOperator, .text _ => true
  | numeral, .list _ | numeral, .object _ => false
  | numeral, _ | verbatim, _ => true
  | _, _ => false

end Place

/-- Whether a field is absent or void. Where a place is optional, both come to nothing. -/
def isVoid? : Option Json → Bool
  | none => true
  | some value => value.isVoid

mutual

/-- Values at a place that differ in nothing that counts there. What counts in values of a wrong
kind is that they are of a wrong kind. -/
inductive Alike : Place → Json → Json → Prop where
  | same (place : Place) (value : Json) : Alike place value value
  | misplaced {place : Place} {a b : Json} (here : place.accepts a = false)
    (there : place.accepts b = false) : Alike place a b
  | node {kind : NodeKind} {fields others : List (String × Json)}
    (alike : ∀ entry ∈ kind.fields (text? (typeOf fields)),
      AlikeField entry.2 (Json.field? entry.1 fields) (Json.field? entry.1 others)) :
    Alike (.node kind) (.object fields) (.object others)
  | nodes {kind : NodeKind} {items others : List Json}
    (alike : AlikeItems kind items others) :
    Alike (.nodes kind) (.list items) (.list others)
  | otherwise {items others : List Json}
    (alike : AlikeItems .statement items others) :
    Alike .otherwise (.list items) (.list others)
  | letters {name other : String} (same : SameLetters name other) :
    Alike .name (.text name) (.text other)
  | symbols {symbol other : String} {op : UnaryOperator} (here : unary? symbol = some op)
    (there : unary? other = some op) : Alike .unaryOperator (.text symbol) (.text other)
  | numerals {a b : Json} {value : Fixed} (here : Fixed.parse a.asText = .ok value)
    (there : Fixed.parse b.asText = .ok value) : Alike .numeral a b

/-- Rows of nodes that differ in nothing that counts. They are as many, and in one order. -/
inductive AlikeItems : NodeKind → List Json → List Json → Prop where
  | nil (kind : NodeKind) : AlikeItems kind [] []
  | cons {kind : NodeKind} {a b : Json} {items others : List Json} (first : Alike (.node kind) a b)
    (rest : AlikeItems kind items others) : AlikeItems kind (a :: items) (b :: others)

/-- Fields that differ in nothing that counts. One that is absent is alike to one that is void
only where nothing is called for. -/
inductive AlikeField : Place → Option Json → Option Json → Prop where
  | present {place : Place} {a b : Json} (alike : Alike place a b) :
    AlikeField place (some a) (some b)
  | absent (place : Place) : AlikeField place none none
  | void {place : Place} {a b : Option Json} (optional : place.isOptional = true)
    (here : isVoid? a = true) (there : isVoid? b = true) : AlikeField place a b

end

theorem AlikeItems.refl (kind : NodeKind) (items : List Json) : AlikeItems kind items items := by
  induction items with
  | nil => exact .nil kind
  | cons item rest inductionHypothesis => exact .cons (.same _ item) inductionHypothesis

theorem AlikeField.refl (place : Place) (field : Option Json) : AlikeField place field field := by
  cases field with
  | none => exact .absent place
  | some value => exact .present (.same place value)

/-- Whether the fields that count are alike. Which these are goes by the type of the first node;
since the type is one of them, the second has it too. -/
def AlikeFields (kind : NodeKind) (fields others : List (String × Json)) : Prop :=
  ∀ entry ∈ kind.fields (text? (typeOf fields)),
    AlikeField entry.2 (Json.field? entry.1 fields) (Json.field? entry.1 others)

/-! ### Readings -/

/-- Whether two readings succeed with results that are related, or neither succeeds. One may
refuse its document where the other breaks off, and they may give different reasons. -/
inductive Together {α β : Type} (related : α → β → Prop) : Reading α → Reading β → Prop where
  | read {a : α} {b : β} (results : related a b) : Together related (.ok a) (.ok b)
  | failed (fault other : ReadFault DocumentFault) : Together related (.error fault) (.error other)

namespace Together

variable {α β α' β' : Type} {related : α → β → Prop} {related' : α' → β' → Prop}

theorem bind {first : Reading α} {second : Reading β} {next : α → Reading α'}
    {other : β → Reading β'} (together : Together related first second)
    (behind : ∀ a b, related a b → Together related' (next a) (other b)) :
    Together related' (first >>= next) (second >>= other) := by
  cases together with
  | read results => exact behind _ _ results
  | failed fault other => exact .failed fault other

theorem rfl (reading : Reading α) : Together Eq reading reading := by
  cases reading with
  | ok value => exact .read (Eq.refl value)
  | error fault => exact .failed fault fault

/-- Refusals that show values fail together, whether or not the values can be shown. -/
theorem refuseShowing (fault other : Json → DocumentFault) (value shown : Json) :
    Together related (Cylon.refuseShowing fault value) (Cylon.refuseShowing other shown) := by
  have fails {α : Type} (fault : Json → DocumentFault) (value : Json) :
      ∃ reason, (Cylon.refuseShowing fault value : Reading α) = .error reason := by
    unfold Cylon.refuseShowing
    split
    · exact ⟨_, Eq.refl _⟩
    · exact ⟨_, Eq.refl _⟩
  obtain ⟨reason, fails'⟩ := fails (α := α) fault value
  obtain ⟨second, failsToo⟩ := fails (α := β) other shown
  rw [fails', failsToo]
  exact .failed reason second

end Together

/-! ### Values -/

/-- A text that begins with what is no digit, no point and no minus sign is no numeral. -/
theorem exists_parse_error {text : String} {c : Char} {cs : List Char}
    (begins : text.toList = c :: cs) (noSign : c ≠ '-') (noPoint : c ≠ '.')
    (noDigit : c.isDigit = false) : ∃ error, Fixed.parse text = .error (.refused error) := by
  have refused : ∃ fault, Fixed.unsignedUnits (c :: cs) = .error fault := by
    have whole : Fixed.wholeDigits (c :: cs) = c :: Fixed.wholeDigits cs := by
      simp [Fixed.wholeDigits, noPoint]
    unfold Fixed.unsignedUnits
    rw [whole]
    simp only [List.isEmpty_cons, Bool.false_and, List.all_cons, noDigit, Bool.false_eq_true,
      if_false]
    split
    · exact ⟨_, rfl⟩
    · exact ⟨_, rfl⟩
  obtain ⟨fault, refused⟩ := refused
  refine ⟨⟨fault, text⟩, ?_⟩
  unfold Fixed.parse
  rw [begins]
  split
  · next same => exact absurd (List.cons.inj same).1 noSign
  · simp only [refused]

theorem exists_parse_error_of_refused {a : Json} (refused : Place.numeral.accepts a = false) :
    ∃ error, Fixed.parse a.asText = .error (.refused error) := by
  cases a with
  | list items =>
    have begins : (Json.list items).asText.toList =
        '[' :: (", ".intercalate (Json.displayItems items) ++ "]").toList := by
      simp only [Json.asText, Json.display, String.toList_append]
      rfl
    exact exists_parse_error begins (by decide) (by decide) (by decide)
  | object fields =>
    have begins : (Json.object fields).asText.toList =
        '\x7b' :: (", ".intercalate (Json.displayFields fields) ++ "\x7d").toList := by
      simp only [Json.asText, Json.display, String.toList_append]
      rfl
    exact exists_parse_error begins (by decide) (by decide) (by decide)
  | _ => contradiction

/-- A whole number is written with its sign and its digits. Its digits are as many as those of
its distance from zero. -/
theorem toString_eq (n : Int) : toString n =
    String.ofList ((if decide (n < 0) then ['-'] else []) ++ Nat.toDigits 10 n.natAbs) := by
  cases n with
  | ofNat n =>
    have noSign : ¬ Int.ofNat n < 0 := Int.not_lt.mpr (Int.natCast_nonneg n)
    simp only [decide_eq_true_eq, if_neg noSign, List.nil_append]
    rfl
  | negSucc n =>
    have sign : Int.negSucc n < 0 := Int.negSucc_lt_zero n
    simp only [decide_eq_true_eq, if_pos sign, String.ofList_append]
    rfl

/-- A whole number that cannot be written could not be read either. So it makes no difference
whether a number is given as such or as its numeral. -/
theorem exists_parse_overlong {n : Int} {digits : Nat}
    (long : (Json.whole n).overlong? = some digits) :
    ∃ count, Fixed.parse (Json.whole n).asText = .error (.overlong count) := by
  have many : mostDigits < (Nat.toDigits 10 n.natAbs).length := by
    rw [Json.overlong?] at long
    split at long
    · next many => exact many
    · contradiction
  let numeral : Numeral :=
    { negative := decide (n < 0)
      whole := Nat.toDigits 10 n.natAbs
      decimals? := none
      digits := fun c member => Fixed.isDigit_of_mem_toDigits (by simpa using member)
      inhabited := by simp [Nat.toDigits_ne_nil] }
  have written : (Json.whole n).asText = numeral.text := by
    rw [Numeral.text, Numeral.tail, List.append_nil]
    exact toString_eq n
  exact ⟨_, written ▸ Fixed.parse_longNumeral numeral many⟩

theorem overlong?_of_parse {a : Json} {value : Fixed} (read : Fixed.parse a.asText = .ok value) :
    a.overlong? = none := by
  have refused (never : Place.numeral.accepts a = false) : a.overlong? = none := by
    obtain ⟨error, refused⟩ := exists_parse_error_of_refused never
    cases read.symm.trans refused
  cases a with
  | whole n =>
    cases long : (Json.whole n).overlong? with
    | none => rfl
    | some digits =>
      obtain ⟨count, broken⟩ := exists_parse_overlong long
      cases read.symm.trans broken
  | list | object => exact refused rfl
  | _ => rfl

namespace Alike

variable {a b : Json}

/-- Labels that are alike are the same text, if they are texts. -/
theorem same_text (alike : Alike .label a b) : text? a = text? b := by
  cases alike with
  | same => rfl
  | misplaced here there => cases a <;> cases b <;> first | rfl | contradiction

/-- Symbols of operators on two operands, and of assignments, are known together. -/
theorem together_label {α : Type} (alike : Alike .label a b) (ofSymbol? : String → Option α) :
    Together Eq (operator ofSymbol? a) (operator ofSymbol? b) := by
  unfold Cylon.operator
  rw [alike.same_text]
  split
  · exact .read rfl
  · exact .refuseShowing _ _ _ _

/-- Symbols of operators on one operand are known together. -/
theorem together_unary (alike : Alike .unaryOperator a b) :
    Together Eq (operator unary? a) (operator unary? b) := by
  have same : (text? a).bind unary? = (text? b).bind unary? := by
    cases alike with
    | same => rfl
    | misplaced here there => cases a <;> cases b <;> first | rfl | contradiction
    | symbols here there =>
      simp only [text?, Option.bind_some]
      exact here.trans there.symm
  unfold Cylon.operator
  rw [same]
  split
  · exact .read rfl
  · exact .refuseShowing _ _ _ _

/-- Names lead to the same variable, or are refused together. Names in other letter cases lead
to it too. -/
theorem together_name (alike : Alike .name a b) (fault : DocumentFault) :
    Together (fun name other => Variable.named name = Variable.named other)
      (nonEmptyName fault a) (nonEmptyName fault b) := by
  cases alike with
  | same =>
    unfold Cylon.nonEmptyName
    split
    · split
      · exact .failed _ _
      · exact .read rfl
    · exact .failed _ _
  | misplaced here there =>
    cases a <;> cases b <;> first | exact .failed _ _ | contradiction
  | @letters name other same =>
    have sameLength : name.isEmpty = other.isEmpty := by
      have lengths := congrArg List.length same
      rw [List.length_map, List.length_map] at lengths
      rw [Bool.eq_iff_iff, String.isEmpty_iff, String.isEmpty_iff, ← String.toList_eq_nil_iff,
        ← String.toList_eq_nil_iff, ← List.length_eq_zero_iff, ← List.length_eq_zero_iff, lengths]
    simp only [Cylon.nonEmptyName, text?, sameLength]
    split
    · exact .failed _ _
    · exact .read (Variable.named_of_sameLetters same)

theorem together_numeral (alike : Alike .numeral a b) :
    Together Eq (textOf a >>= numberOf) (textOf b >>= numberOf) := by
  have refused {a : Json} (never : Place.numeral.accepts a = false) :
      ∃ fault, (textOf a >>= numberOf) = .error fault := by
    obtain ⟨error, refused⟩ := exists_parse_error_of_refused never
    unfold textOf
    cases a.overlong? with
    | some digits => exact ⟨_, rfl⟩
    | none =>
      simp only [ok_bind, numberOf, refused]
      exact ⟨_, rfl⟩
  have numeral {a : Json} {value : Fixed} (read : Fixed.parse a.asText = .ok value) :
      (textOf a >>= numberOf) = .ok value := by
    rw [textOf, overlong?_of_parse read]
    simp only [ok_bind, numberOf, read]
  cases alike with
  | same => exact .rfl _
  | misplaced here there =>
    obtain ⟨fault, fails⟩ := refused here
    obtain ⟨other, failsToo⟩ := refused there
    rw [fails, failsToo]
    exact .failed fault other
  | numerals here there =>
    rw [numeral here, numeral there]
    exact .read rfl

theorem same_verbatim (alike : Alike .verbatim a b) : a = b := by
  cases alike with
  | same => rfl
  | misplaced here => contradiction

theorem together_items {kind : NodeKind} (alike : Alike (.nodes kind) a b) :
    Together (AlikeItems kind) (itemsOf a) (itemsOf b) := by
  cases alike with
  | same =>
    cases a with
    | list items => exact .read (.refl kind items)
    | _ => exact .failed _ _
  | misplaced here there => cases a <;> cases b <;> first | exact .failed _ _ | contradiction
  | nodes alike => exact .read alike

end Alike

/-! ### Fields -/

namespace AlikeFields

variable {kind : NodeKind} {fields others : List (String × Json)}

/-- Nodes are objects together, and the fields that count in them are alike. What is no object
on one side is refused on both. -/
theorem together_object {a b : Json} (alike : Alike (.node kind) a b) (what : String) :
    Together (AlikeFields kind) (objectOf what a) (objectOf what b) := by
  cases alike with
  | same =>
    cases a with
    | object fields => exact .read fun entry _ => .refl entry.2 _
    | _ => exact .failed _ _
  | misplaced here there => cases a <;> cases b <;> first | exact .failed _ _ | contradiction
  | node alike => exact .read alike

variable (alike : AlikeFields kind fields others)

include alike

theorem together_required (name : String) (inner : Place)
    (counts : (name, inner) ∈ kind.fields (text? (typeOf fields)))
    (needed : inner.isOptional = false) :
    Together (Alike inner) (required fields name) (required others name) := by
  have field := alike (name, inner) counts
  simp only at field
  unfold Cylon.required
  generalize Json.field? name fields = here, Json.field? name others = there at field
  cases field with
  | present alike => exact .read alike
  | absent => exact .refuseShowing _ _ _ _
  | void optional => exact absurd optional (by simp [needed])

/-- Fields that call for labels have the same text, if they are there and have texts. -/
theorem same_label (name : String)
    (counts : (name, .label) ∈ kind.fields (text? (typeOf fields))) :
    text? ((Json.field? name fields).getD .null) =
      text? ((Json.field? name others).getD .null) := by
  have field := alike (name, .label) counts
  simp only at field
  generalize Json.field? name fields = here, Json.field? name others = there at field
  cases field with
  | present alike => exact alike.same_text
  | absent => rfl
  | void optional => contradiction

theorem same_type (counts : ("type", .label) ∈ kind.fields (text? (typeOf fields))) :
    text? (typeOf fields) = text? (typeOf others) :=
  alike.same_label "type" counts

end AlikeFields

/-- An optional field that is absent or void counts as the given value. Void is absent, null,
empty, zero or false. -/
theorem optional_of_void {fields : List (String × Json)} {name : String} {absent : Json}
    (void : isVoid? (Json.field? name fields) = true) : optional fields name absent = absent := by
  unfold optional
  cases found : Json.field? name fields with
  | none => rfl
  | some value =>
    rw [found] at void
    exact if_pos void

theorem optional_of_present {fields : List (String × Json)} {name : String} {value absent : Json}
    (found : Json.field? name fields = some value) (there : value.isVoid = false) :
    optional fields name absent = value := by
  rw [optional, found]
  exact if_neg (by simp [there])

theorem AlikeField.together_otherwise {fields others : List (String × Json)} {name : String}
    (alike : AlikeField .otherwise (Json.field? name fields) (Json.field? name others)) :
    Together (AlikeItems .statement) (itemsOf (optional fields name (.list [])))
      (itemsOf (optional others name (.list []))) := by
  generalize here : Json.field? name fields = a, there : Json.field? name others = b at alike
  cases alike with
  | absent =>
    rw [optional_of_void (by rw [here]; rfl), optional_of_void (by rw [there]; rfl)]
    exact .read (.nil _)
  | void _ voidHere voidThere =>
    rw [optional_of_void (by rw [here]; exact voidHere),
      optional_of_void (by rw [there]; exact voidThere)]
    exact .read (.nil _)
  | present alike =>
    cases alike with
    | same =>
      have same : optional fields name (.list []) = optional others name (.list []) := by
        rw [optional, optional, here, there]
      rw [same]
      exact Alike.together_items (.same _ _)
    | otherwise alike =>
      rw [optional_list here, optional_list there]
      exact .read alike
    | @misplaced _ a b refusedHere refusedThere =>
      have full {value : Json} (refused : Place.otherwise.accepts value = false) :
          value.isVoid = false ∧ Place.accepts (.nodes .statement) value = false := by
        cases value <;> first | exact ⟨refused, rfl⟩ | contradiction
      rw [optional_of_present here (full refusedHere).1,
        optional_of_present there (full refusedThere).1]
      exact Alike.together_items (.misplaced (full refusedHere).2 (full refusedThere).2)

theorem AlikeField.same_comment {fields others : List (String × Json)} {name : String}
    {absent : Json}
    (alike : AlikeField .comment (Json.field? name fields) (Json.field? name others)) :
    text? (optional fields name absent) = text? (optional others name absent) := by
  generalize here : Json.field? name fields = a, there : Json.field? name others = b at alike
  cases alike with
  | absent => rw [optional, optional, here, there]
  | void _ voidHere voidThere =>
    rw [optional_of_void (by rw [here]; exact voidHere),
      optional_of_void (by rw [there]; exact voidThere)]
  | present alike =>
    cases alike with
    | same => rw [optional, optional, here, there]
    | @misplaced _ a b refusedHere refusedThere =>
      have full {value : Json} (refused : Place.comment.accepts value = false) :
          value.isVoid = false ∧ text? value = none := by
        cases value <;> first | exact ⟨refused, rfl⟩ | contradiction
      rw [optional_of_present here (full refusedHere).1,
        optional_of_present there (full refusedThere).1, (full refusedHere).2,
        (full refusedThere).2]

/-! ### Nodes -/

/-- Whether expressions of some depth that are alike are read together, as the same expression. -/
def ReadsTogether (depth : Nat) : Prop :=
  ∀ {a b : Json}, Alike (.node .expression) a b → Together Eq (readExpr depth a) (readExpr depth b)

/-- Readings that begin with an expression in a field go on together behind it. The field is
that of the same name on both sides. -/
theorem AlikeFields.bind_expression {kind : NodeKind} {fields others : List (String × Json)}
    (alike : AlikeFields kind fields others) {depth : Nat} (reads : ReadsTogether depth)
    {name : String} (counts : (name, .node .expression) ∈ kind.fields (text? (typeOf fields)))
    {α : Type} {next other : Expr → Reading α} (behind : ∀ e, Together Eq (next e) (other e)) :
    Together Eq (required fields name >>= fun data => readExpr depth data >>= next)
      (required others name >>= fun data => readExpr depth data >>= other) := by
  refine (alike.together_required name (.node .expression) counts rfl).bind fun a b inner => ?_
  refine (reads inner).bind fun e _ same => ?_
  rw [← same]
  exact behind e

/-- Expressions that are alike are read together.

Proof: induction over the depth. What counts in a node depends on its type, and the type is the
same in both. -/
theorem together_readExpr (depth : Nat) : ReadsTogether depth := by
  induction depth with
  | zero => exact fun _ => .failed _ _
  | succ depth inductionHypothesis =>
    intro a b alike
    rw [readExpr, readExpr]
    refine (AlikeFields.together_object alike "expression").bind fun fields others alike => ?_
    rw [← alike.same_type (by simp [NodeKind.fields])]
    split
    · next type =>
      exact alike.bind_expression inductionHypothesis (by simp [NodeKind.fields, type])
        fun inner => .rfl _
    · next type =>
      refine (alike.together_required "operator" .label (by simp [NodeKind.fields, type]) rfl).bind
        fun symbol other label => ?_
      refine (label.together_label BinaryOperator.ofSymbol?).bind fun op _ same => ?_
      rw [← same]
      refine alike.bind_expression inductionHypothesis (by simp [NodeKind.fields, type])
        fun left => ?_
      exact alike.bind_expression inductionHypothesis (by simp [NodeKind.fields, type])
        fun right => .rfl _
    · next type =>
      refine (alike.together_required "operator" .unaryOperator
        (by simp [NodeKind.fields, type]) rfl).bind fun symbol other symbols => ?_
      refine symbols.together_unary.bind fun op _ same => ?_
      rw [← same]
      exact alike.bind_expression inductionHypothesis (by simp [NodeKind.fields, type])
        fun operand => .rfl _
    · next type =>
      refine (alike.together_required "num" .numeral (by simp [NodeKind.fields, type]) rfl).bind
        fun data other numerals => ?_
      rw [← bind_assoc, ← bind_assoc]
      refine numerals.together_numeral.bind fun value _ same => ?_
      rw [← same]
      exact .rfl _
    · next type =>
      refine (alike.together_required "str" .verbatim (by simp [NodeKind.fields, type]) rfl).bind
        fun data other texts => ?_
      rw [texts.same_verbatim]
      exact .rfl _
    · next type =>
      refine (alike.together_required "name" .name (by simp [NodeKind.fields, type]) rfl).bind
        fun data other names => ?_
      refine (names.together_name .emptyName).bind fun name other same => ?_
      rw [same]
      exact .rfl _
    · exact .refuseShowing _ _ _ _

/-- Rows of statements that are alike are read together, if a statement is. The first that fails
ends both, though perhaps for different reasons. -/
theorem together_readAll {one : Json → Reading Stmt}
    (reads : ∀ {a b : Json}, Alike (.node .statement) a b → Together Eq (one a) (one b))
    {items others : List Json} (alike : AlikeItems .statement items others) :
    Together Eq (readAll one items) (readAll one others) := by
  induction items generalizing others with
  | nil =>
    cases alike with
    | nil => exact .read rfl
  | cons item rest inductionHypothesis =>
    cases alike with
    | cons first alikeRest =>
      refine (reads first).bind fun s _ same => ?_
      rw [← same]
      refine (inductionHypothesis alikeRest).bind fun block _ sameRest => ?_
      rw [← sameRest]
      exact .rfl _

/-- Readings that begin with a row of statements go on together behind it. -/
theorem bind_items {one : Json → Reading Stmt}
    (reads : ∀ {a b : Json}, Alike (.node .statement) a b → Together Eq (one a) (one b))
    {items others : Reading (List Json)} (alike : Together (AlikeItems .statement) items others)
    {α : Type} {next other : List Stmt → Reading α} (behind : ∀ block,
      Together Eq (next block) (other block)) :
    Together Eq (items >>= fun items => readAll one items >>= next)
      (others >>= fun items => readAll one items >>= other) := by
  refine alike.bind fun items others alike => ?_
  refine (together_readAll reads alike).bind fun block _ same => ?_
  rw [← same]
  exact behind block

/-- Statements that are alike are read together.

Proof: induction over the depth, as for expressions. -/
theorem together_readStmt (depth : Nat) {a b : Json} (alike : Alike (.node .statement) a b) :
    Together Eq (readStmt depth a) (readStmt depth b) := by
  induction depth generalizing a b with
  | zero => exact .failed _ _
  | succ depth inductionHypothesis =>
    have expressions : ReadsTogether depth := together_readExpr depth
    rw [readStmt, readStmt]
    refine (AlikeFields.together_object alike "statement").bind fun fields others alike => ?_
    rw [← alike.same_type (by simp [NodeKind.fields])]
    split
    · next type =>
      exact alike.bind_expression expressions (by simp [NodeKind.fields, type])
        fun target => .rfl _
    · next type =>
      have elseParts := AlikeField.together_otherwise
        (alike ("else_body", .otherwise) (by simp [NodeKind.fields, type]))
      refine bind_items inductionHypothesis elseParts fun otherwise => ?_
      refine alike.bind_expression expressions (by simp [NodeKind.fields, type])
        fun condition => ?_
      refine (alike.together_required "body" (.nodes .statement)
        (by simp [NodeKind.fields, type]) rfl).bind fun body other bodies => ?_
      exact bind_items inductionHypothesis bodies.together_items fun body => .rfl _
    · next type =>
      refine (alike.together_required "identifier" .name
        (by simp [NodeKind.fields, type]) rfl).bind fun data other names => ?_
      refine (names.together_name .emptyTarget).bind fun name other same => ?_
      refine (alike.together_required "operator" .label (by simp [NodeKind.fields, type]) rfl).bind
        fun symbol other label => ?_
      refine (label.together_label AssignOperator.ofSymbol?).bind fun op _ sameOperator => ?_
      rw [← sameOperator, same]
      exact alike.bind_expression expressions (by simp [NodeKind.fields, type])
        fun value => .rfl _
    · next type =>
      exact alike.bind_expression expressions (by simp [NodeKind.fields, type])
        fun value => .rfl _
    · exact .refuseShowing _ _ _ _

theorem together_typed {kind : NodeKind} (counts : ∀ type, ("type", .label) ∈ kind.fields type)
    (expected : String) {a b : Json} (alike : Alike (.node kind) a b) :
    Together (AlikeFields kind) (typed expected a) (typed expected b) := by
  refine (AlikeFields.together_object alike expected).bind fun fields others alike => ?_
  rw [← alike.same_type (counts _)]
  split
  · exact .read alike
  · exact .refuseShowing _ _ _ _

theorem together_readLine (number : Nat) {a b : Json} (alike : Alike (.node .line) a b) :
    Together Eq (readLine number a) (readLine number b) := by
  refine (together_typed (by simp [NodeKind.fields]) "line" alike).bind
    fun fields others alike => ?_
  refine (alike.together_required "code" (.nodes .statement) (by simp [NodeKind.fields]) rfl).bind
    fun code other rows => ?_
  refine bind_items (together_readStmt _) rows.together_items fun code => ?_
  rw [AlikeField.same_comment (alike ("comment", .comment) (by simp [NodeKind.fields]))]
  exact .rfl _

/-- Rows of lines that are alike are as long, and read together. -/
theorem together_readLines (number : Nat) {items others : List Json}
    (alike : AlikeItems .line items others) :
    items.length = others.length ∧
      Together Eq (readLines number items) (readLines number others) := by
  induction items generalizing number others with
  | nil =>
    cases alike with
    | nil => exact ⟨rfl, .read rfl⟩
  | cons item rest inductionHypothesis =>
    cases alike with
    | cons first alikeRest =>
      obtain ⟨sameLength, together⟩ := inductionHypothesis (number + 1) alikeRest
      refine ⟨by rw [List.length_cons, List.length_cons, sameLength], ?_⟩
      refine (together_readLine number first).bind fun line _ same => ?_
      rw [← same]
      refine together.bind fun lines _ sameRest => ?_
      rw [← sameRest]
      exact .rfl _

theorem together_toProgram {a b : Json} (alike : Alike (.node .document) a b) :
    Together Eq (toProgram a) (toProgram b) := by
  refine (AlikeFields.together_object alike "document").bind fun fields others alike => ?_
  have version := alike.same_label "version" (by simp [NodeKind.fields])
  simp only [version]
  split
  · have refused (version other : Json) : Together (fun _ _ : PUnit => False)
        (refuseShowing .version version) (refuseShowing .version other) :=
      .refuseShowing _ _ _ _
    exact (refused _ _).bind fun _ _ never => never.elim
  · refine (alike.together_required "program" (.node .program)
      (by simp [NodeKind.fields]) rfl).bind fun a b programs => ?_
    refine (together_typed (by simp [NodeKind.fields]) "program" programs).bind
      fun fields others alike => ?_
    refine (alike.together_required "lines" (.nodes .line) (by simp [NodeKind.fields]) rfl).bind
      fun a b rows => ?_
    cases rows with
    | same => exact .rfl _
    | misplaced here there =>
      cases a <;> cases b <;> first | exact .failed _ _ | contradiction
    | nodes alike =>
      obtain ⟨sameLength, together⟩ := together_readLines 1 alike
      simp only [sameLength]
      split
      · exact .failed _ _
      · refine together.bind fun lines _ same => ?_
        rw [← same]
        exact .rfl _

def ofVariable (symbol name : String) : Json :=
  node "expression::unary_op" [("operator", .text symbol),
    ("operand", node "expression::identifier" [("name", .text name)])]

def toNumber (num : Json) : Json :=
  node "statement::goto" [("expression", node "expression::number" [("num", num)])]

def oneLine (fields : List (String × Json)) : Json :=
  .object [("version", .text formatVersion),
    ("program", node "program" [("lines", .list [node "line" fields])])]

/-- A document that says what may be left out. Its names are in small letters and its operator
is in its short form. -/
def fullDocument : Json :=
  oneLine [("comment", .null), ("code", .list [node "statement::if"
    [("condition", ofVariable "asin" ":Door"), ("body", .list [toNumber (.whole 2)]),
      ("else_body", .list [])]])]

/-- A document of the same program, with fields in another order and fields that do not count.
It leaves out what may be left out, and writes names, numerals and operators in other ways. -/
def looseDocument : Json :=
  .object [("program", node "program" [("lines", .list [node "line" [("code", .list [.object
      [("body", .list [toNumber (.text "2.00")]), ("note", .object []),
        ("type", .text "statement::if"), ("condition", ofVariable "arcsin" ":dooR")]])]])]),
    ("metadata", .text "none"), ("version", .text formatVersion)]

/-- The document of a line that shows a text, which is written as a value. -/
def showing (value : Json) : Json :=
  oneLine [("code", .list
    [node "statement::expression" [("expression", node "expression::string" [("str", value)])]])]

end YololChip.Cylon
