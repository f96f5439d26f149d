import YololChip.Proofs.Cycle
import YololChip.Proofs.Nodes

/-!
# Well-formed programs

Source and documents are read by rules of their own, yet every program that either gives is
well-formed: its names, targets, else parts and comments are such as a document has a form for.
The converse holds as well, so a well-formed program is written unless it nests too deep.
-/

namespace YololChip

/-! ### Statements -/

/-- Whether each of some statements is well-formed by itself: none is a comment, only a variable
is assigned to, no else part is empty, and all variables are settled. Statements inside of
others have to be among them to count. -/
structure Stmt.Formed (statements : List Stmt) : Prop where
  comments : ∀ s ∈ statements, Cylon.isComment s = false
  targets : ∀ loc target op value, .assign loc target op value ∈ statements →
    ∃ place v, target = .var place v
  elses : ∀ loc condition body block, .branch loc condition body (some block) ∈ statements →
    block ≠ []
  settled : ∀ s ∈ statements, ∀ e ∈ s.own, e.Settled

namespace Stmt

theorem Formed.mono {some all : List Stmt} (formed : Formed all) (within : some ⊆ all) :
    Formed some where
  comments s member := formed.comments s (within member)
  targets loc target op value member := formed.targets loc target op value (within member)
  elses loc condition body block member := formed.elses loc condition body block (within member)
  settled s member := formed.settled s (within member)

mutual

/-- A statement is portable if all that are in it are well-formed by themselves. That is
recursion over the tree against a statement of all parts. -/
theorem portable_of_formed (s : Stmt) (formed : Formed s.within) : s.Portable := by
  have own (e : Expr) (holds : e ∈ s.own) : e.Settled :=
    formed.settled s (mem_within_self s) e holds
  match s with
  | .comment loc text =>
    have noComment := formed.comments _ (mem_within_self _)
    contradiction
  | .branch loc condition body otherwise =>
    refine ⟨own condition (by simp [Stmt.own]), ?_, ?_⟩
    · apply portableAll_of_formed body
      exact formed.mono fun t member => List.mem_cons_of_mem _ (List.mem_append_left _ member)
    · apply portableElse_of_formed otherwise
      · rintro block rfl
        exact formed.elses loc condition body block (mem_within_self _)
      · exact formed.mono fun t member => List.mem_cons_of_mem _ (List.mem_append_right _ member)
  | .jump loc target => exact own target (by simp [Stmt.own])
  | .assign loc target op value =>
    obtain ⟨place, v, rfl⟩ := formed.targets loc target op value (mem_within_self _)
    exact ⟨own (.var place v) (by simp [Stmt.own]), own value (by simp [Stmt.own])⟩
  | .expression loc value => exact own value (by simp [Stmt.own])

/-- A block is portable if all statements in it are well-formed by themselves. -/
theorem portableAll_of_formed (block : List Stmt) (formed : Formed (withinAll block)) :
    PortableAll block := by
  match block with
  | [] => trivial
  | s :: rest =>
    constructor
    · exact portable_of_formed s (formed.mono (List.subset_append_left _ _))
    · exact portableAll_of_formed rest (formed.mono (List.subset_append_right _ _))

/-- An else part is portable if it is not empty and all statements in it are well-formed by
themselves. -/
theorem portableElse_of_formed (otherwise : Option (List Stmt))
    (inhabited : ∀ block, otherwise = some block → block ≠ [])
    (formed : Formed (withinElse otherwise)) : PortableElse otherwise := by
  match otherwise with
  | none => trivial
  | some block => exact ⟨inhabited block rfl, portableAll_of_formed block formed⟩

end

/-- All statements in a portable block are well-formed by themselves. -/
theorem PortableAll.formed {block : List Stmt} (portable : PortableAll block) :
    Formed (withinAll block) where
  comments s member := not_isComment_of_portable (portable.within member)
  targets loc target op value member := by
    have assigns := portable.within member
    cases target with
    | var place v => exact ⟨place, v, rfl⟩
    | _ => exact False.elim assigns
  elses loc condition body block member := (portable.within member).2.2.1
  settled s member e holds := (portable.within member).own holds

end Stmt

/-! ### Programs -/

/-- What holds of a program that is well-formed. A comment stands behind all other statements of
its line, if there is one, and is in none of them. The numbers are in range by their type; the
last field says so for those who only see the fields. -/
structure Program.WellFormed (p : Program) : Prop where
  most : p.lines.length ≤ mostLines
  numbered : ∀ index line, p.lines[index]? = some line → line.number = ((index + 1 : Nat) : Int)
  named : ∀ loc v, .var loc v ∈ p.nodes →
    v.name ≠ "" ∧ Text.lower v.name = v.name ∧ (v.scope = .field ↔ isFieldName v.name = true)
  targets : ∀ loc target op value, .assign loc target op value ∈ p.within →
    ∃ place v, target = .var place v
  elses : ∀ loc condition body block, .branch loc condition body (some block) ∈ p.within →
    block ≠ []
  comments : ∀ line ∈ p.lines, ∃ code closing text, line.statements = code ++ closing ∧
    Stmt.Closing closing text ∧ ∀ s ∈ Stmt.withinAll code, Cylon.isComment s = false
  numbers : ∀ loc a, .number loc a ∈ p.nodes → Fixed.least ≤ a.units ∧ a.units ≤ Fixed.greatest

/-- A variable is settled if its name is in lower case and not empty, and tells its scope. -/
theorem Variable.settled_iff_scope (v : Variable) :
    v.Settled ↔
      v.name ≠ "" ∧ Text.lower v.name = v.name ∧
        (v.scope = .field ↔ isFieldName v.name = true) := by
  rw [settled_iff]
  cases v.scope <;> cases isFieldName v.name <;> simp

namespace Line

/-- Lines are numbered in turn if each has the number of its place. Places are counted from the
first number on. -/
theorem numberedFrom_iff (number : Nat) (lines : List Line) :
    NumberedFrom number lines ↔
      ∀ index line, lines[index]? = some line → line.number = ((number + index : Nat) : Int) := by
  induction lines generalizing number with
  | nil => simp [NumberedFrom]
  | cons first rest inductionHypothesis =>
    rw [NumberedFrom, inductionHypothesis]
    constructor
    · rintro ⟨here, behind⟩ index line found
      cases index with
      | zero =>
        obtain rfl : first = line := by simpa using found
        exact here
      | succ index =>
        rw [behind index line (by simpa using found)]
        omega
    · intro all
      constructor
      · exact all 0 first rfl
      · intro index line found
        rw [all (index + 1) line (by simpa using found)]
        omega

theorem eq_comment_of_closing {closing : List Stmt} {text : String}
    (closed : Stmt.Closing closing text) {s : Stmt} (member : s ∈ Stmt.withinAll closing) :
    ∃ loc, s = .comment loc text := by
  cases closed with
  | absent => exact absurd member List.not_mem_nil
  | comment loc => exact ⟨loc, by simpa [Stmt.withinAll, Stmt.within] using member⟩

/-- A statement in a portable line is portable, or it is the comment of the line. -/
theorem Portable.within {line : Line} (portable : line.Portable) {s : Stmt}
    (member : s ∈ line.within) : s.Portable ∨ ∃ loc text, s = .comment loc text := by
  obtain ⟨code, closing, text, portableCode, closed, shape⟩ := portable
  rw [Line.within, shape, Stmt.withinAll_append] at member
  rcases List.mem_append.mp member with inCode | inClosing
  · exact .inl (portableCode.within inCode)
  · obtain ⟨loc, isComment⟩ := eq_comment_of_closing closed inClosing
    exact .inr ⟨loc, text, isComment⟩

theorem Portable.settled {line : Line} (portable : line.Portable) {loc : Option Location}
    {v : Variable} (member : .var loc v ∈ line.nodes) : v.Settled := by
  obtain ⟨s, inLine, held, holds, inHeld⟩ := Stmt.mem_nodesAll.mp member
  rcases portable.within inLine with carried | ⟨place, text, rfl⟩
  · exact held.settled_iff_nodes.mp (carried.own holds) loc v inHeld
  · exact absurd holds List.not_mem_nil

end Line

namespace Program

/-- A line at a cursor position is one of the program or has no statements. There is no line
before the first and none behind the last. -/
theorem line_mem_or_blank (p : Program) (number : Int) :
    p.line number ∈ p.lines ∨ (p.line number).statements = [] := by
  unfold line
  split
  · cases found : p.lines[number.toNat - 1]? with
    | none => exact .inr rfl
    | some line => exact .inl (List.mem_of_getElem? found)
  · exact .inr rfl

theorem mem_within {p : Program} {s : Stmt} : s ∈ p.within ↔ ∃ line ∈ p.lines, s ∈ line.within :=
  List.mem_flatMap

/-- The expressions in a program are those in the expressions that its statements hold. -/
theorem mem_nodes {p : Program} {e : Expr} :
    e ∈ p.nodes ↔ ∃ line ∈ p.lines, ∃ s ∈ line.within, ∃ held ∈ s.own, e ∈ held.nodes := by
  simp only [nodes, Line.nodes, List.mem_flatMap, Stmt.mem_nodesAll, Line.within]

theorem Portable.wellFormed {p : Program} (portable : p.Portable) : p.WellFormed := by
  have within {s : Stmt} (member : s ∈ p.within) :
      s.Portable ∨ ∃ loc text, s = .comment loc text := by
    obtain ⟨line, inProgram, inLine⟩ := mem_within.mp member
    exact (portable.lines line inProgram).within inLine
  constructor
  · exact portable.most
  · intro index line found
    rw [(Line.numberedFrom_iff 1 p.lines).mp portable.numbered index line found]
    omega
  · intro loc v member
    rw [← Variable.settled_iff_scope]
    obtain ⟨line, inProgram, inLine⟩ := List.mem_flatMap.mp member
    exact (portable.lines line inProgram).settled inLine
  · intro loc target op value member
    rcases within member with carried | ⟨place, text, isComment⟩
    · cases target with
      | var place v => exact ⟨place, v, rfl⟩
      | _ => exact False.elim carried
    · contradiction
  · intro loc condition body block member
    rcases within member with carried | ⟨place, text, isComment⟩
    · exact carried.2.2.1
    · contradiction
  · intro line member
    obtain ⟨code, closing, text, portableCode, closed, shape⟩ := portable.lines line member
    exact ⟨code, closing, text, shape, closed, portableCode.formed.comments⟩
  · intro loc a _
    exact ⟨a.least_le, a.le_greatest⟩

theorem WellFormed.portable {p : Program} (formed : p.WellFormed) : p.Portable := by
  constructor
  · intro line member
    obtain ⟨code, closing, text, shape, closed, noComment⟩ := formed.comments line member
    refine ⟨code, closing, text, Stmt.portableAll_of_formed code ?_, closed, shape⟩
    have inProgram {s : Stmt} (inCode : s ∈ Stmt.withinAll code) : s ∈ p.within := by
      refine mem_within.mpr ⟨line, member, ?_⟩
      rw [Line.within, shape, Stmt.withinAll_append]
      exact List.mem_append_left _ inCode
    constructor
    · exact noComment
    · intro loc target op value inCode
      exact formed.targets loc target op value (inProgram inCode)
    · intro loc condition body block inCode
      exact formed.elses loc condition body block (inProgram inCode)
    · intro s inCode e holds
      rw [e.settled_iff_nodes]
      intro loc v inHeld
      rw [v.settled_iff_scope]
      apply formed.named loc v
      obtain ⟨other, inLines, inLine⟩ := mem_within.mp (inProgram inCode)
      exact mem_nodes.mpr ⟨other, inLines, s, inLine, e, holds, inHeld⟩
  · rw [Line.numberedFrom_iff]
    intro index line found
    rw [formed.numbered index line found]
    omega
  · exact formed.most

end Program

/-! ### Numbers in source -/

theorem Fixed.saturate_nonneg {units : Int} (nonneg : 0 ≤ units) : 0 ≤ saturate units := by
  unfold saturate greatest least
  split
  · omega
  · split <;> omega

/-- A numeral that does not start with a minus stands for no negative number. What is no numeral
stands for zero, which is not negative either. -/
theorem Fixed.ofLiteral_nonneg {c : Char} (noSign : c ≠ '-') {cs : List Char} {a : Fixed}
    (stands : ofLiteral (String.ofList (c :: cs)) = .ok a) : 0 ≤ a.units := by
  unfold ofLiteral parse at stands
  simp only [String.toList_ofList] at stands
  split at stands
  · next b read =>
    obtain rfl := Except.ok.inj stands
    split at read
    · next equal => exact absurd (List.cons.inj equal).1 noSign
    · split at read
      · contradiction
      · next units _ =>
        split at read
        · contradiction
        · obtain rfl := Except.ok.inj read
          exact saturate_nonneg (Int.natCast_nonneg units)
  · obtain rfl := Except.ok.inj stands
    decide
  · contradiction

theorem isDigit_of_lexemeAt {c : Char} {rest : List Char} {a : Fixed} {more : Nat}
    (found : lexemeAt c rest = .ok (.number a, more)) :
    c.isDigit = true ∧
      Fixed.ofLiteral (String.ofList (c :: rest.takeWhile continuesNumber)) = .ok a := by
  generalize isNumber : Lexeme.number a = lexeme at found
  cases LexemeAt.of_lexemeAt found with
  | number digit read =>
    obtain rfl := Lexeme.number.inj isNumber
    exact ⟨digit, read⟩
  | word =>
    unfold wordLexeme at isNumber
    split at isNumber <;> contradiction
  | returnFeed | feed | comment | symbol | text | field => contradiction

theorem nonneg_of_lexemeAt {c : Char} {rest : List Char} {a : Fixed} {more : Nat}
    (found : lexemeAt c rest = .ok (.number a, more)) : 0 ≤ a.units := by
  obtain ⟨isDigit, stands⟩ := isDigit_of_lexemeAt found
  refine Fixed.ofLiteral_nonneg ?_ stands
  rintro rfl
  contradiction

/-- A token of a text is the one of its end, or its lexeme is found there.

Proof: induction over the scan. -/
theorem exists_lexemeAt_of_mem {file : String} {p : Position} {cs : List Char}
    {tokens : List Token} (scanned : scanFrom file p cs = .ok tokens) {t : Token}
    (member : t ∈ tokens) :
    t.lexeme = .finish ∨ ∃ c rest more, lexemeAt c rest = .ok (t.lexeme, more) := by
  induction p, cs using scanFrom.induct file generalizing tokens with
  | case1 p =>
    rw [scanFrom] at scanned
    obtain rfl := Except.ok.inj scanned
    exact .inl (by rw [List.mem_singleton.mp member])
  | case2 p c rest gap inductionHypothesis =>
    rw [scanFrom, if_pos gap] at scanned
    exact inductionHypothesis scanned member
  | case3 p c rest noGap fault stopped =>
    rw [scanFrom, if_neg noGap, stopped] at scanned
    contradiction
  | case4 p c rest noGap lexeme more here others behind inductionHypothesis =>
    rw [scanFrom, if_neg noGap, here] at scanned
    simp only [behind] at scanned
    obtain rfl := Except.ok.inj scanned
    rcases List.mem_cons.mp member with rfl | later
    · exact .inr ⟨c, rest, more, here⟩
    · exact inductionHypothesis behind later
  | case5 p c rest noGap lexeme more here error behind =>
    rw [scanFrom, if_neg noGap, here] at scanned
    simp only [behind] at scanned
    contradiction

/-- Every mark that tokens cover is the lexeme of one of them. -/
theorem Covers.exists_of_mem {ms : List Mark} {ts : List Token} (covers : Covers ms ts) {m : Mark}
    (member : m ∈ ms) : ∃ t ∈ ts, t.lexeme = m.lexeme := by
  induction covers with
  | nil => exact absurd member List.not_mem_nil
  | take same _ _ _ _ inductionHypothesis =>
    rcases List.mem_cons.mp member with rfl | later
    · exact ⟨_, List.mem_cons_self, same⟩
    · obtain ⟨t, inRest, equal⟩ := inductionHypothesis later
      exact ⟨t, List.mem_cons_of_mem _ inRest, equal⟩
  | skip _ _ _ inductionHypothesis =>
    obtain ⟨t, inRest, equal⟩ := inductionHypothesis member
    exact ⟨t, List.mem_cons_of_mem _ inRest, equal⟩

/-- A number in a line that is read is not negative: a minus is a sign before it. -/
theorem Line.nonneg_of_parse {text file : String} {number : Int} {line : Line}
    (read : Line.parse text file number = .ok line) {loc : Option Location} {a : Fixed}
    (member : .number loc a ∈ line.nodes) : 0 ≤ a.units := by
  obtain ⟨tokens, rest, scanned, reads, _⟩ := Line.reads_of_parse read
  obtain ⟨used, rfl, covers⟩ := reads.takes
  obtain ⟨s, inLine, held, holds, inHeld⟩ := Stmt.mem_nodesAll.mp member
  obtain ⟨t, inUsed, same⟩ := covers.exists_of_mem
    (Stmt.mem_marksAll_of_within inLine holds (Expr.mem_marks_of_number inHeld))
  rcases exists_lexemeAt_of_mem scanned (List.mem_append_left _ inUsed) with isEnd | found
  · rw [same] at isEnd
    contradiction
  · obtain ⟨c, cs, more, here⟩ := found
    rw [same] at here
    exact nonneg_of_lexemeAt here

namespace Program

/-- A line of a program from source was read, or it has no statements. -/
theorem exists_parse_of_mem {text file : String} {p : Program} (parsed : parse text file = .ok p)
    {line : Line} (member : line ∈ p.lines) :
    (∃ text place, Line.parse text file place = .ok line) ∨ line.statements = [] := by
  obtain ⟨index, found⟩ := List.getElem?_of_mem member
  obtain ⟨_, _, _, kept⟩ := (keptFrom_of_parse parsed).2.kept_of_getElem? found
  cases kept with
  | read read => exact .inl ⟨_, _, read⟩
  | refused => exact .inr rfl

theorem nonneg_of_parse {text file : String} {p : Program} (read : parse text file = .ok p)
    {loc : Option Location} {a : Fixed} (member : .number loc a ∈ p.nodes) : 0 ≤ a.units := by
  obtain ⟨line, inProgram, inLine⟩ := List.mem_flatMap.mp member
  rcases exists_parse_of_mem read inProgram with ⟨source, place, parsed⟩ | blank
  · exact line.nonneg_of_parse parsed inLine
  · rw [Line.nodes, blank] at inLine
    exact absurd inLine List.not_mem_nil

theorem Loaded.portable {p : Program} (loaded : p.Loaded) : p.Portable := by
  rcases loaded with ⟨text, file, parsed⟩ | ⟨document, read⟩
  · exact portable_of_parse parsed
  · exact (Cylon.read_text read).1

/-- A well-formed program that does not nest too deep is written, at every indentation. -/
theorem WellFormed.exists_write {p : Program} (formed : p.WellFormed)
    (shallow : p.depth ≤ Grammar.nestingLimit) (indent : Option Int) :
    ∃ document, Cylon.write p indent = .ok document := by
  obtain ⟨document, carries⟩ := Cylon.exists_carriesProgram formed.portable
  refine ⟨document.write indent, ?_⟩
  rw [Cylon.write, if_neg (Nat.not_lt.mpr shallow), carries.written]

/-- A program that was loaded, whether from source or from a document, is well-formed. If it is
from source, no number in it is negative. And it is written as a document unless it nests too
deep for one.

Proof: both readers give portable programs, and these are the well-formed ones. A number in a
source is a token of it, which starts with a digit. -/
theorem wellFormed_of_loaded {p : Program} (loaded : p.Loaded) :
    p.WellFormed ∧
      ((∃ text file, parse text file = .ok p) → ∀ loc a, .number loc a ∈ p.nodes → 0 ≤ a.units) ∧
      (p.depth ≤ Grammar.nestingLimit →
        ∀ indent, ∃ document, Cylon.write p indent = .ok document) := by
  have formed := loaded.portable.wellFormed
  refine ⟨formed, ?_, formed.exists_write⟩
  rintro ⟨text, file, parsed⟩ loc a member
  exact nonneg_of_parse parsed member

/-- The sample, of which one line could not be read, is well-formed and is written. -/
theorem wellFormed_sample :
    ∃ p : Program, p.Loaded ∧ p.depth ≤ Grammar.nestingLimit ∧ p.WellFormed ∧
      (∀ loc a, .number loc a ∈ p.nodes → 0 ≤ a.units) ∧
      ∀ indent, ∃ document, Cylon.write p indent = .ok document := by
  obtain ⟨p, parsed, shallow⟩ := exists_ok_of_any (x := parse Cylon.sampleSource "")
    (f := fun p => decide (p.depth ≤ Grammar.nestingLimit)) (by decide +kernel)
  have loaded : p.Loaded := .inl ⟨_, _, parsed⟩
  obtain ⟨formed, counted, written⟩ := wellFormed_of_loaded loaded
  exact ⟨p, loaded, of_decide_eq_true shallow, formed, counted ⟨_, _, parsed⟩,
    written (of_decide_eq_true shallow)⟩

end Program

end YololChip
