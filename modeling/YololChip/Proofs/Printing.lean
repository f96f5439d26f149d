import YololChip.Proofs.Completeness
import YololChip.Proofs.PrintedLexemes
import YololChip.Proofs.Spans

/-!
# Printed trees

A tree is printed as its marks, with one blank between two tokens and none between two
symbols that are joined. The scanner cuts such a text into the tokens that were
printed, side by side exactly where marks are joined, so a printed line is read back as the
line it was printed from.
-/

namespace YololChip

/-- The text of some marks: one blank between two tokens, and none behind a joined one. It is
one of many texts that scan as these marks. -/
def Mark.print : List Mark → List Char
  | [] => []
  | [m] => m.lexeme.chars
  | m :: next :: rest =>
    m.lexeme.chars ++ ((if m.joined then [] else [' ']) ++ print (next :: rest))

def Stmt.print (statements : List Stmt) : String :=
  String.ofList (Mark.print (marksAll statements))

namespace Mark

/-- Whether every joined mark is a symbol with another symbol behind it, but no slash. Only
these are printed without a blank between them. -/
def Fused : List Mark → Prop
  | [] => True
  | [m] => m.joined = false
  | m :: next :: rest =>
    (m.joined = true →
      ∃ a b, m.lexeme = .symbol a ∧ next.lexeme = .symbol b ∧ b ≠ .slash) ∧
    Fused (next :: rest)

theorem Fused.append {first second : List Mark} (fused : Fused first) (others : Fused second) :
    Fused (first ++ second) := by
  induction first with
  | nil => exact others
  | cons m rest inductionHypothesis =>
    cases rest with
    | nil =>
      have apart : m.joined = false := fused
      cases second with
      | nil => exact fused
      | cons next more =>
        constructor
        · intro joined
          simp [apart] at joined
        · exact others
    | cons next more => exact ⟨fused.1, inductionHypothesis fused.2⟩

theorem fused_apart (lexeme : Lexeme) : Fused [apart lexeme] := rfl

theorem fused_pair {first second : Symbol} (noSlash : second ≠ .slash) :
    Fused (pair first second) := by
  constructor
  · intro _
    exact ⟨first, second, rfl, rfl, noSlash⟩
  · rfl

end Mark

/-- The marks of an operator between two operands are fused. -/
theorem BinaryOperator.fused_marks (op : BinaryOperator) : Mark.Fused op.marks := by
  cases op <;> first | exact Mark.fused_apart _ | exact Mark.fused_pair (by decide)

theorem UnaryOperator.fused_marks (op : UnaryOperator) : Mark.Fused op.marks := by
  cases op <;> first | exact Mark.fused_apart _ | exact Mark.fused_pair (by decide)

theorem AssignOperator.fused_marks (op : AssignOperator) : Mark.Fused op.marks := by
  cases op <;> first | exact Mark.fused_apart _ | exact Mark.fused_pair (by decide)

theorem Expr.fused_marks (e : Expr) : Mark.Fused e.marks := by
  induction e with
  | number | text | var => exact Mark.fused_apart _
  | group _ inner inductionHypothesis =>
    exact ((Mark.fused_apart _).append inductionHypothesis).append (Mark.fused_apart _)
  | binary _ op left right leftHypothesis rightHypothesis =>
    exact (leftHypothesis.append op.fused_marks).append rightHypothesis
  | unary _ op operand inductionHypothesis =>
    rw [Expr.marks]
    by_cases after : op.isAfter = true
    · rw [if_pos after]
      exact inductionHypothesis.append op.fused_marks
    · rw [if_neg after]
      exact op.fused_marks.append inductionHypothesis

namespace Stmt

mutual

theorem fused_marks : ∀ s : Stmt, Mark.Fused s.marks
  | comment _ _ => Mark.fused_apart _
  | branch _ condition body otherwise =>
    (((((Mark.fused_apart _).append condition.fused_marks).append (Mark.fused_apart _)).append
      (fused_marksAll body)).append (fused_marksElse otherwise)).append (Mark.fused_apart _)
  | jump _ target => (Mark.fused_apart _).append target.fused_marks
  | assign _ target op value =>
    (target.fused_marks.append op.fused_marks).append value.fused_marks
  | expression _ value => value.fused_marks

theorem fused_marksAll : ∀ block : List Stmt, Mark.Fused (marksAll block)
  | [] => trivial
  | statement :: rest => (fused_marks statement).append (fused_marksAll rest)

theorem fused_marksElse : ∀ otherwise : Option (List Stmt), Mark.Fused (marksElse otherwise)
  | none => trivial
  | some block => (Mark.fused_apart _).append (fused_marksAll block)

end

end Stmt

/-- A printed lexeme is the first of the tokens, if what stands behind it can be scanned. -/
theorem scanFrom_append {lexeme : Lexeme} {c : Char} {cs tail : List Char}
    (scans : Scans lexeme c cs tail) {file : String} {p : Position} {tokens : List Token}
    (behind : scanFrom file ⟨p.line, p.column + lexeme.chars.length⟩ tail = .ok tokens) :
    scanFrom file p (lexeme.chars ++ tail) = .ok (⟨lexeme, p.line, p.column⟩ :: tokens) := by
  rw [scans.chars] at behind ⊢
  rw [List.cons_append, scanFrom]
  simp only [scans.noGap, Bool.false_eq_true, if_false, scans.found, List.take_left,
    List.drop_left, Position.after_of_oneLine p scans.oneLine, behind]

/-- A printed token is a symbol beside the next one where its mark is joined.

Proof: a symbol is one character long, so the next token stands beside it unless there is a
blank between them. -/
theorem joins_of_fused {m next : Mark} {rest : List Mark} (fused : Mark.Fused (m :: next :: rest))
    {t u : Token} (more : List Token) (isFirst : t.lexeme = m.lexeme)
    (isNext : u.lexeme = next.lexeme) (sameLine : u.line = t.line)
    (place : u.column = t.column + m.lexeme.chars.length + if m.joined then 0 else 1) :
    t.joins (u :: more) = m.joined := by
  cases joined : m.joined with
  | true =>
    obtain ⟨a, b, isSymbol, isOther, _⟩ := fused.1 joined
    rw [joined, isSymbol] at place
    simp [Token.joins, isFirst, isNext, isSymbol, isOther, Token.isBeside, sameLine, place,
      Lexeme.chars]
  | false =>
    rw [joined, ← isFirst] at place
    simp only [Token.joins]
    split
    · next isSymbol _ =>
      rw [isSymbol] at place
      simp [Token.isBeside, place, Lexeme.chars]
    · rfl

theorem joins_of_finish {t u : Token} (more : List Token) (isEnd : u.lexeme = .finish) :
    t.joins (u :: more) = false := by
  simp only [Token.joins]
  split
  · next isSymbol =>
    rw [isEnd] at isSymbol
    contradiction
  · rfl

/-- What stands behind a printed token parts it from the next one. That is a blank, or nothing
if it is joined. -/
theorem parts_of_fused {m next : Mark} {rest : List Mark}
    (fused : Mark.Fused (m :: next :: rest)) :
    Parts m.lexeme ((if m.joined then [] else [' ']) ++ Mark.print (next :: rest)) := by
  intro c isFirst
  cases joined : m.joined with
  | true =>
    obtain ⟨a, b, isSymbol, isOther, noSlash⟩ := fused.1 joined
    have shape : ∃ more, Mark.print (next :: rest) = b.char :: more := by
      cases rest <;> exact ⟨_, by simp only [Mark.print, isOther, Lexeme.chars]; rfl⟩
    obtain ⟨more, shape⟩ := shape
    simp only [joined, if_true, List.nil_append, shape, List.head?_cons, Option.mem_some] at isFirst
    refine .inr ⟨⟨a, isSymbol⟩, ?_⟩
    rw [← isFirst]
    cases b <;> first | contradiction | decide
  | false =>
    simp only [joined, Bool.false_eq_true, if_false, List.singleton_append, List.head?_cons,
      Option.mem_some] at isFirst
    exact .inl isFirst.symm

theorem scanFrom_blank (file : String) (p : Position) (tail : List Char) :
    scanFrom file p (' ' :: tail) = scanFrom file ⟨p.line, p.column + 1⟩ tail := by
  rw [scanFrom, if_pos (by decide), Position.next, if_neg (by decide)]

/-- Whether characters are scanned as tokens with the given marks, the first of which stands
where the characters begin. Where that is must not matter. -/
def ScansAs (file : String) (cs : List Char) (ms : List Mark) : Prop :=
  ∀ p, ∃ t tokens, scanFrom file p cs = .ok (t :: tokens) ∧ marksOf (t :: tokens) = ms ∧
    t.line = p.line ∧ t.column = p.column

theorem scansAs_nil (file : String) : ScansAs file [] [.apart .finish] := by
  intro p
  refine ⟨⟨.finish, p.line, p.column⟩, [], ?_, rfl, rfl, rfl⟩
  rw [scanFrom]

/-- The last of printed marks is scanned, and the end behind it. A blank is not written behind
it. -/
theorem scansAs_last (file : String) {m : Mark} (apart : m.joined = false)
    (writable : m.lexeme.Writable) : ScansAs file m.lexeme.chars [m, .apart .finish] := by
  have parted : Parts m.lexeme [] := by
    intro c isFirst
    contradiction
  obtain ⟨c, cs, scans⟩ := exists_scans writable parted fun _ => rfl
  intro p
  have behind : scanFrom file ⟨p.line, p.column + m.lexeme.chars.length⟩ [] =
      .ok [⟨.finish, p.line, p.column + m.lexeme.chars.length⟩] := by
    rw [scanFrom]
  have here := scanFrom_append scans behind
  rw [List.append_nil] at here
  have same : m = .apart m.lexeme := by rw [Mark.apart, ← apart]
  refine ⟨_, _, here, ?_, rfl, rfl⟩
  rw [marksOf, joins_of_finish _ rfl, same]
  rfl

/-- A printed mark is scanned before those that are scanned behind it, and stands beside the
next one where it is joined. -/
theorem scansAs_cons {file : String} {m next : Mark} {rest : List Mark}
    (fused : Mark.Fused (m :: next :: rest)) (writable : m.lexeme.Writable)
    (noComment : m.lexeme.isComment = false)
    (scansRest : ScansAs file (Mark.print (next :: rest)) (next :: rest ++ [.apart .finish])) :
    ScansAs file (Mark.print (m :: next :: rest)) (m :: next :: rest ++ [.apart .finish]) := by
  obtain ⟨c, cs, scans⟩ := exists_scans writable (parts_of_fused fused) fun isComment =>
    absurd (noComment.symm.trans isComment) Bool.false_ne_true
  intro p
  obtain ⟨u, tokens, there, marks, line, column⟩ :=
    scansRest ⟨p.line, p.column + m.lexeme.chars.length + if m.joined then 0 else 1⟩
  have isNext : u.lexeme = next.lexeme := by
    rw [marksOf, List.cons_append] at marks
    exact congrArg Mark.lexeme (List.cons.inj marks).1
  refine ⟨⟨m.lexeme, p.line, p.column⟩, u :: tokens, scanFrom_append scans ?_, ?_, rfl, rfl⟩
  · cases joined : m.joined with
    | true => simpa [joined] using there
    | false => simpa [joined, scanFrom_blank] using there
  · rw [marksOf, marks, joins_of_fused fused tokens rfl isNext line column]
    rfl

/-- The printed marks are the marks of the tokens that are scanned, if a comment is the last
of them.

Proof: induction over the marks. The first one is scanned up to what parts it from the
next. -/
theorem scansAs_print (file : String) {ms : List Mark} (fused : Mark.Fused ms)
    (writable : ∀ m ∈ ms, m.lexeme.Writable)
    (comments : ∀ m ∈ ms.dropLast, m.lexeme.isComment = false) :
    ScansAs file (Mark.print ms) (ms ++ [.apart .finish]) := by
  induction ms with
  | nil => exact scansAs_nil file
  | cons m rest inductionHypothesis =>
    cases rest with
    | nil => exact scansAs_last file fused (writable m List.mem_cons_self)
    | cons next rest =>
      have scansRest := inductionHypothesis fused.2
        (fun m member => writable m (List.mem_cons_of_mem _ member))
        (fun m member => comments m (List.mem_cons_of_mem _ member))
      exact scansAs_cons fused (writable m List.mem_cons_self)
        (comments m List.mem_cons_self) scansRest

/-! ### Printed lines -/

theorem lower_of_isNameChar {n : String} (names : ∀ c ∈ n.toList, c = ':' ∨ isNameChar c = true) :
    Text.lower n = n := by
  apply Text.lower_of_isLow
  intro c member
  rcases names c member with rfl | name
  · exact isLow_of_ascii (by decide) (by decide)
  · exact isLow_of_isNameChar name

theorem Lexeme.Writable.clean {lexeme : Lexeme} (writable : lexeme.Writable) : lexeme.Clean := by
  cases lexeme with
  | name n =>
    obtain ⟨c, cs, shape, starts, names, _⟩ := exists_cons_of_writable_name writable
    refine ⟨?_, lower_of_isNameChar fun d member => .inr (names d (shape ▸ member)), ?_⟩
    · rintro rfl
      contradiction
    · rw [isFieldName, shape, List.head?_cons]
      simp [(startsName_only starts).2.2.2.2.1]
  | field n =>
    obtain ⟨c, cs, shape, names⟩ := exists_cons_of_writable_field writable
    refine ⟨?_, lower_of_isNameChar ?_, ?_⟩
    · rintro rfl
      contradiction
    · intro d member
      rw [shape] at member
      exact (List.mem_cons.mp member).imp id (names d)
    · rw [isFieldName, shape]
      rfl
  | _ => trivial

/-- Statements that can be printed and read back: the grammar reads them from their marks, every
token can be printed, and a comment is the last token of them all. -/
structure Stmt.Printable (statements : List Stmt) : Prop where
  regular : RegularAll Grammar.nestingLimit statements
  writable : ∀ m ∈ marksAll statements, m.lexeme.Writable
  comments : ∀ m ∈ (marksAll statements).dropLast, m.lexeme.isComment = false

/-- Printed statements are read as the statements that were printed, but for locations.

Proof: their marks are scanned, and the grammar reads from them what they mark. -/
theorem Line.parse_print {statements : List Stmt} (printable : Stmt.Printable statements)
    (file : String) (number : Int) :
    ∃ line, Line.parse (Stmt.print statements) file number = .ok line ∧ line.number = number ∧
      Stmt.bareAll line.statements = Stmt.bareAll statements := by
  obtain ⟨t, tokens, scanned, marks, _⟩ := scansAs_print file (Stmt.fused_marksAll statements)
    printable.writable printable.comments ⟨1, 1⟩
  let sheet : Grammar.Sheet :=
    ⟨file, (Text.lines (Stmt.print statements)).map Text.strip, number⟩
  obtain ⟨read, rest, here, same, _⟩ := Grammar.gives_statements sheet printable.regular
    (fun m member => (printable.writable m member).clean) marks rfl
  refine ⟨⟨sheet.locate (t :: tokens), read, number⟩, ?_, rfl, same⟩
  have whole : scan file (Stmt.print statements) = .ok (t :: tokens) := by
    rw [scan, Stmt.print, String.toList_ofList, scanned]
  simp only [Line.parse, whole, Line.ofTokens]
  rw [here]

/-- A branch with a power and a step in it, with a comment behind it. -/
def Stmt.sample : List Stmt :=
  [.branch none (.var none ⟨":door", .field⟩)
    [.assign none (.var none ⟨"a", .chip⟩) .add
      (.binary none .pow (.unary none .factorial (.number none (Fixed.ofUnits 35000)))
        (.unary none .neg (.unary none .postDecrement (.var none ⟨"b", .chip⟩))))]
    (some [.jump none (.text none "over")]), .comment none " done"]

/-- Blanks stand between tokens, and none in a step. -/
example : Stmt.print Stmt.sample =
    "if :door then a += 3.5 ! ^ - b -- else goto \"over\" end // done" := by
  decide +kernel

theorem Stmt.regularAll_sample : RegularAll Grammar.nestingLimit sample := by
  have condition : Expr.Regular (.var none ⟨":door", .field⟩) :=
    ⟨trivial, by simp [Expr.nesting, Grammar.nestingLimit]⟩
  have power : Expr.Regular (.binary none .pow
      (.unary none .factorial (.number none (Fixed.ofUnits 35000)))
      (.unary none .neg (.unary none .postDecrement (.var none ⟨"b", .chip⟩)))) := by
    constructor
    · simp [Expr.Leveled, Expr.fitsBinary, Expr.fitsUnary, Expr.level, UnaryOperator.level,
        Expr.isVariable]
    · simp [Expr.nesting, Grammar.nestingLimit, UnaryOperator.isAfter]
  have target : Expr.Regular (.text none "over") :=
    ⟨trivial, by simp [Expr.nesting, Grammar.nestingLimit]⟩
  have goesDeeper : 0 < Grammar.nestingLimit := by simp [Grammar.nestingLimit]
  simp [sample, RegularAll, Regular, RegularElse, Parted, endsOpen, Expr.isVariable, condition,
    power, target, goesDeeper]

/-- The sample is read back from its text. -/
theorem Line.parse_print_sample :
    Stmt.Printable Stmt.sample ∧
      ∃ line, Line.parse (Stmt.print Stmt.sample) "" 1 = .ok line ∧ line.number = 1 ∧
        Stmt.bareAll line.statements = Stmt.bareAll Stmt.sample := by
  have printable : Stmt.Printable Stmt.sample :=
    ⟨Stmt.regularAll_sample, by decide +kernel, by decide⟩
  exact ⟨printable, Line.parse_print printable "" 1⟩

end YololChip
