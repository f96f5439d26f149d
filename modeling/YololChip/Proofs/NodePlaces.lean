import YololChip.Proofs.Coverage
import YololChip.Proofs.OverTokens

/-!
# The places of nodes

Every node of a line that is read is placed where it stands in the text: an operator between two
operands and a factorial sign at the operator, every other node at its first token. What the
location of a node counts as its column is so many characters into the text. So the columns in the
left operand of an operator are before its own and those in the right operand behind it, and the
statements of a block come with rising columns.

The tree lies over the tokens of the line, and these stand in the text one behind the other.
-/

namespace YololChip

/-! ### What stands where a node is placed -/

/-- What the first of some marks is, if there is one. -/
def Mark.first (ms : List Mark) : List Lexeme := (ms.take 1).map Mark.lexeme

/-- What the first mark is does not depend on the marks behind. -/
theorem Mark.first_append {ms : List Mark} {lexeme : Lexeme} (first : Mark.first ms = [lexeme])
    (rest : List Mark) : Mark.first (ms ++ rest) = [lexeme] := by
  cases ms with
  | nil => contradiction
  | cons => exact first

/-- The lexemes that stand where an expression is placed: its operator if this stands between or
behind operands, and otherwise the first of its marks. A step behind a variable is placed at the
variable. -/
def Expr.anchor : Expr → List Lexeme
  | .binary _ op _ _ => op.marks.map Mark.lexeme
  | .unary _ .factorial _ => [.symbol .bang]
  | e => Mark.first e.marks

def Stmt.anchor (s : Stmt) : List Lexeme := Mark.first s.marks

/-- Whether characters begin with what stands for lexemes, one right behind the other, without
blanks between them. -/
def Begins : List Lexeme → List Char → Prop
  | [], _ => True
  | lexeme :: rest, cs =>
    ∃ span behind, Stands span lexeme ∧ cs = span ++ behind ∧ Begins rest behind

/-- Whether marks stand at one place: there is one of them, or there are two symbols that are
joined. So are those of every operator. -/
def Mark.Close (ms : List Mark) : Prop := (∃ m, ms = [m]) ∨ ∃ s t, ms = Mark.pair s t

/-- The marks of an operator between two operands stand at one place. Those of two symbols are
joined, so no blank is between them. -/
theorem BinaryOperator.close_marks (op : BinaryOperator) : Mark.Close op.marks := by
  cases op with
  | lessEqual | greaterEqual | equal | notEqual => exact .inr ⟨_, _, rfl⟩
  | _ => exact .inl ⟨_, rfl⟩

/-! ### Tokens in a text -/

/-- Whether tokens stand in the first line of a text, one behind the other: each where its
column says. The columns rise, so no two tokens are at one place. -/
structure Token.Row (cs : List Char) (ts : List Token) : Prop where
  rising : ts.Pairwise fun a b => a.column < b.column
  line : ∀ t ∈ ts, t.line = 1
  positive : ∀ t ∈ ts, 1 ≤ t.column
  stands : ∀ t ∈ ts, ∃ span, Stands span t.lexeme ∧ span <+: cs.drop (t.column - 1)

namespace Token.Row

variable {cs : List Char} {ts : List Token}

theorem nil (cs : List Char) : Row cs [] where
  rising := .nil
  line := List.forall_mem_nil _
  positive := List.forall_mem_nil _
  stands := List.forall_mem_nil _

/-- A token that stands in front of a row is in a row with it. -/
theorem cons (row : Row cs ts) {t : Token} (line : t.line = 1) (positive : 1 ≤ t.column)
    (stands : ∃ span, Stands span t.lexeme ∧ span <+: cs.drop (t.column - 1))
    (further : ∀ u ∈ ts, t.column < u.column) : Row cs (t :: ts) where
  rising := .cons further row.rising
  line := List.forall_mem_cons.mpr ⟨line, row.line⟩
  positive := List.forall_mem_cons.mpr ⟨positive, row.positive⟩
  stands := List.forall_mem_cons.mpr ⟨stands, row.stands⟩

theorem part (row : Row cs ts) {us : List Token} (inside : us <:+: ts) : Row cs us where
  rising := row.rising.sublist inside.sublist
  line t member := row.line t (inside.subset member)
  positive t member := row.positive t (inside.subset member)
  stands t member := row.stands t (inside.subset member)

theorem begins_one (row : Row cs ts) {t : Token} (member : t ∈ ts) :
    Begins [t.lexeme] (cs.drop (t.column - 1)) := by
  obtain ⟨span, stands, behind, split⟩ := row.stands t member
  exact ⟨span, behind, stands, split.symm, trivial⟩

/-- The text begins with two joined symbols at the column of the first. The second symbol has
the next column. -/
theorem begins_pair (row : Row cs ts) {t next : Token} {s : Symbol} (member : t ∈ ts)
    (isSymbol : t.lexeme = .symbol s) (nextMember : next ∈ ts) (beside : t.isBeside next = true) :
    Begins [t.lexeme, next.lexeme] (cs.drop (t.column - 1)) := by
  obtain ⟨span, stands, behind, split⟩ := row.stands t member
  have one : span = [s.char] := (isSymbol ▸ stands).eq_of_symbol
  have positive := row.positive t member
  have column : next.column - 1 = t.column - 1 + 1 := by
    simp only [isBeside, Bool.and_eq_true, decide_eq_true_eq] at beside
    omega
  have rest : cs.drop (next.column - 1) = behind := by
    rw [column, ← List.drop_drop, ← split, one]
    rfl
  exact ⟨span, behind, stands, split.symm, rest ▸ row.begins_one nextMember⟩

/-- The text begins with an operator at the column of its first token. -/
theorem begins_of_spells (row : Row cs ts) {ms : List Mark} {t : Token} {more : List Token}
    (inside : t :: more <:+: ts) (close : Mark.Close ms) (spells : Spells ms (t :: more)) :
    Begins (ms.map Mark.lexeme) (cs.drop (t.column - 1)) := by
  have own := row.part inside
  rcases close with ⟨m, rfl⟩ | ⟨first, second, rfl⟩
  · cases spells with
    | cons same =>
      have begins := own.begins_one List.mem_cons_self
      rwa [same] at begins
  · cases spells with
    | cons same beside rest =>
      cases rest with
      | @cons _ _ next _ sameNext =>
        obtain ⟨_, head, near⟩ := beside rfl
        obtain rfl := Option.some.inj head
        have begins := own.begins_pair List.mem_cons_self same
          (List.mem_cons_of_mem _ List.mem_cons_self) near
        rwa [same, sameNext] at begins

end Token.Row

/-- Behind characters without a line feed the columns are counted in all of them. -/
theorem Position.behind_of_noFeed {before : List Char} (noFeed : '\n' ∉ before) :
    behind before = ⟨1, 1 + before.length⟩ := by
  have oneLine : ∀ c ∈ before, c ≠ '\n' := fun c member feed => noFeed (feed ▸ member)
  have moved := behind_append [] before
  rw [List.nil_append, after_of_oneLine _ oneLine] at moved
  exact moved

namespace Piece

variable {before cs left : List Char} {p : Piece} {pieces : List Piece}

theorem Fits.noFeed {behind : List Char} (fits : p.Fits before behind)
    (inLine : p.token.lexeme.endsLine = false) : '\n' ∉ p.chars := by
  have inSpan : '\n' ∉ p.span := by
    rw [← List.count_eq_zero, fits.feeds, if_neg]
    intro isNewline
    rw [isNewline] at inLine
    contradiction
  rw [chars, List.mem_append]
  exact not_or.mpr ⟨noFeed_of_gap fits.gap, inSpan⟩

/-- In the first line of a text a piece that fits has its token where its column says. -/
theorem Fits.place_of_noFeed {behind : List Char} (fits : p.Fits before behind)
    (noFeed : '\n' ∉ before) :
    p.token.line = 1 ∧ p.token.column = (before ++ p.gap).length + 1 := by
  have inGap : '\n' ∉ before ++ p.gap := by simp [noFeed, noFeed_of_gap fits.gap]
  have place := fits.place
  rw [Position.behind_of_noFeed inGap] at place
  obtain ⟨line, column⟩ := Position.mk.inj place
  exact ⟨line, column.trans (Nat.add_comm _ _)⟩

/-- The tokens of pieces that cover the rest of a line are a row in the text, behind what is before
them.

Proof: induction over the pieces. No piece with a token inside the line has a line feed, so the
column of the next one counts all characters before it. -/
theorem row_of_tile (tile : Tile before cs pieces left) (noFeed : '\n' ∉ before) {ts : List Token}
    (inFront : ts <+: pieces.map Piece.token) (inLine : ∀ t ∈ ts, t.lexeme.endsLine = false) :
    Token.Row (before ++ cs) ts ∧ ∀ t ∈ ts, before.length < t.column := by
  induction pieces generalizing before cs ts with
  | nil =>
    obtain rfl := List.prefix_nil.mp inFront
    exact ⟨.nil _, List.forall_mem_nil _⟩
  | cons p pieces inductionHypothesis =>
    cases ts with
    | nil => exact ⟨.nil _, List.forall_mem_nil _⟩
    | cons t ts =>
      obtain ⟨rfl, later⟩ := List.cons_prefix_cons.mp inFront
      obtain ⟨goesOn, laterInLine⟩ := List.forall_mem_cons.mp inLine
      have fits := tile.head
      have noFeedToo : '\n' ∉ before ++ p.chars := by simp [noFeed, fits.noFeed goesOn]
      obtain ⟨rest, behind⟩ := inductionHypothesis tile.tail noFeedToo later laterInLine
      have text : before ++ cs = before ++ p.gap ++ (p.span ++ (charsOf pieces ++ left)) := by
        rw [tile.text, charsOf_cons, chars]
        simp only [List.append_assoc]
      have moved : before ++ p.chars ++ (charsOf pieces ++ left) = before ++ cs := by
        rw [text, chars]
        simp only [List.append_assoc]
      rw [moved] at rest
      obtain ⟨line, column⟩ := fits.place_of_noFeed noFeed
      have wide : 0 < p.span.length := List.length_pos_iff.mpr fits.nonempty
      have further : ∀ u ∈ ts, p.token.column < u.column := by
        intro u member
        have bound := behind u member
        rw [chars, ← List.append_assoc, List.length_append] at bound
        omega
      have inside : before.length < p.token.column := by
        rw [column, List.length_append]
        omega
      constructor
      · refine rest.cons line (by omega) ⟨p.span, fits.stands, ?_⟩ further
        rw [column, Nat.add_sub_cancel, text, List.drop_left]
        exact List.prefix_append _ _
      · refine List.forall_mem_cons.mpr ⟨inside, fun u member => ?_⟩
        exact Nat.lt_trans inside (further u member)

end Piece

/-- The tokens of a text up to the end of its first line are a row in it. Tokens behind that
line have columns of their own, which start anew. -/
theorem Token.row_of_scan {file text : String} {tokens used rest : List Token}
    (scanned : scan file text = .ok tokens) (split : tokens = used ++ rest)
    (inLine : ∀ t ∈ used, t.lexeme.endsLine = false) : Token.Row text.toList used := by
  have coveredBy : CoveredBy file [] text.toList (scan file text) :=
    coveredBy_scanFrom file Piece.gap_nil rfl text.toList
  rw [scanned] at coveredBy
  obtain ⟨pieces, last, shape, covered⟩ := coveredBy
  rw [List.map_append, List.map_singleton, split] at shape
  have inFront : used <+: pieces.map Piece.token := by
    rcases List.prefix_concat_iff.mp ⟨rest, shape⟩ with whole | inFront
    · have atEnd := inLine last.token (by simp [whole])
      rw [covered.finish] at atEnd
      contradiction
    · exact inFront
  exact (Piece.row_of_tile covered.tile List.not_mem_nil inFront inLine).1

/-! ### Columns -/

/-- The columns of a location, if there is one. As a list it can be put together with others. -/
def columnsOf (loc : Option Location) : List Nat := loc.toList.map Location.column

def Expr.columns (e : Expr) : List Nat := e.nodes.flatMap fun n => columnsOf n.loc

/-- The columns of the nodes in a statement, and of those in the statements inside of it. -/
def Stmt.columns (s : Stmt) : List Nat :=
  s.within.flatMap fun t => columnsOf t.loc ++ t.own.flatMap Expr.columns

/-- Whether columns are all before others. Without any on one side this says nothing. -/
def Before (first second : List Nat) : Prop := ∀ c ∈ first, ∀ d ∈ second, c < d

/-- Whether the operands of an expression are before and behind its operator. Operators that
stand before their operand are placed where the expression begins, so nothing is asked of them. -/
def Expr.Ordered : Expr → Prop
  | .binary loc _ left right =>
    Before left.columns (columnsOf loc) ∧ Before (columnsOf loc) right.columns
  | .unary loc .factorial operand => Before operand.columns (columnsOf loc)
  | _ => True

/-- Whether the statements of a block come one behind the other. -/
def Stmt.OrderedAll (block : List Stmt) : Prop :=
  block.Pairwise fun s t => Before s.columns t.columns

def Stmt.blocks : Stmt → List (List Stmt)
  | .branch _ _ body otherwise => body :: otherwise.toList
  | _ => []

/-- The blocks in a line: that of the line itself, and those of the statements in it. Every
statement of the line is in one of them by itself. -/
def Line.blocks (line : Line) : List (List Stmt) :=
  line.statements :: line.within.flatMap Stmt.blocks

/-! ### Parts of trees over tokens -/

section

variable {place : Token → Option Location}

/-- The parts of an expression lie over some of its tokens.

Proof: induction over the expression. -/
theorem Expr.Over.of_mem_nodes {e n : Expr} {ts : List Token} (lies : e.Over place ts)
    (member : n ∈ e.nodes) : ∃ us, us <:+: ts ∧ n.Over place us := by
  induction lies with
  | number same =>
    rw [List.mem_singleton.mp member]
    exact ⟨_, List.infix_rfl, .number same⟩
  | text same =>
    rw [List.mem_singleton.mp member]
    exact ⟨_, List.infix_rfl, .text same⟩
  | var same =>
    rw [List.mem_singleton.mp member]
    exact ⟨_, List.infix_rfl, .var same⟩
  | @group opening closing _ ts opens closes lies inductionHypothesis =>
    rcases List.mem_cons.mp member with rfl | inner
    · exact ⟨_, List.infix_rfl, .group opens closes lies⟩
    · obtain ⟨us, inside, overUs⟩ := inductionHypothesis inner
      exact ⟨us, inside.trans ⟨[opening], [closing], by simp⟩, overUs⟩
  | @binary _ _ _ t before more behind leftOver spells rightOver left right =>
    rcases List.mem_cons.mp member with rfl | operand
    · exact ⟨_, List.infix_rfl, .binary leftOver spells rightOver⟩
    · rcases List.mem_append.mp operand with inLeft | inRight
      · obtain ⟨us, inside, overUs⟩ := left inLeft
        exact ⟨us, inside.trans (List.prefix_append _ _).isInfix, overUs⟩
      · obtain ⟨us, inside, overUs⟩ := right inRight
        exact ⟨us, inside.trans ⟨before ++ t :: more, [], by simp⟩, overUs⟩
  | @before _ _ t more _ isBefore spells lies inductionHypothesis =>
    rcases List.mem_cons.mp member with rfl | operand
    · exact ⟨_, List.infix_rfl, .before isBefore spells lies⟩
    · obtain ⟨us, inside, overUs⟩ := inductionHypothesis operand
      exact ⟨us, inside.trans (List.suffix_append _ _).isInfix, overUs⟩
  | factorial lies isBang inductionHypothesis =>
    rcases List.mem_cons.mp member with rfl | operand
    · exact ⟨_, List.infix_rfl, .factorial lies isBang⟩
    · obtain ⟨us, inside, overUs⟩ := inductionHypothesis operand
      exact ⟨us, inside.trans (List.prefix_append _ _).isInfix, overUs⟩
  | @step _ t _ more isStep same spells =>
    rcases List.mem_cons.mp member with rfl | operand
    · exact ⟨_, List.infix_rfl, .step isStep same spells⟩
    · rw [List.mem_singleton.mp operand]
      exact ⟨[t], ⟨[], more, rfl⟩, .var same⟩

/-- The first mark of what is spelled is what the first token is. -/
theorem Spells.first {ms : List Mark} {t : Token} {more : List Token}
    (spells : Spells ms (t :: more)) : Mark.first ms = [t.lexeme] := by
  cases spells with
  | cons same => rw [same]; rfl

/-- The first mark of an expression is what its first token is.

Proof: induction over the expression. -/
theorem Expr.Over.first {e : Expr} {ts : List Token} (lies : e.Over place ts) :
    ∃ t more, ts = t :: more ∧ Mark.first e.marks = [t.lexeme] := by
  induction lies with
  | number same | text same | var same | group same =>
    refine ⟨_, _, rfl, ?_⟩
    rw [same]
    rfl
  | @binary op _ right _ _ _ _ _ _ _ left =>
    obtain ⟨t, more, rfl, first⟩ := left
    refine ⟨t, _, rfl, ?_⟩
    rw [Expr.marks, List.append_assoc]
    exact Mark.first_append first _
  | before isBefore spells =>
    refine ⟨_, _, rfl, ?_⟩
    rw [Expr.marks, isBefore]
    exact Mark.first_append spells.first _
  | factorial _ _ inductionHypothesis =>
    obtain ⟨t, more, rfl, first⟩ := inductionHypothesis
    exact ⟨t, _, rfl, Mark.first_append first _⟩
  | step isStep same =>
    refine ⟨_, _, rfl, ?_⟩
    rcases isStep with rfl | rfl <;> rw [same] <;> rfl

/-- Whether a node is placed at one of the tokens that it lies over, and what it is to be placed
at is spelled from there on. The tokens that spell it are among those that the node lies over. -/
def Anchored (place : Token → Option Location) (loc : Option Location) (anchor : List Lexeme)
    (ts : List Token) : Prop :=
  ∃ t more ms, t :: more <:+: ts ∧ loc = place t ∧ Mark.Close ms ∧ Spells ms (t :: more) ∧
    anchor = ms.map Mark.lexeme

theorem Anchored.first (t : Token) (more : List Token) :
    Anchored place (place t) [t.lexeme] (t :: more) :=
  ⟨t, [], [.apart t.lexeme], ⟨[], more, rfl⟩, rfl, .inl ⟨_, rfl⟩,
    .cons rfl (fun joined => nomatch joined) .nil, rfl⟩

theorem Expr.Over.anchored {e : Expr} {ts : List Token} (lies : e.Over place ts) :
    Anchored place e.loc e.anchor ts := by
  have ofFirst {t : Token} {more : List Token} (whole : ts = t :: more) (loc : e.loc = place t)
      (isFirst : e.anchor = Mark.first e.marks) : Anchored place e.loc e.anchor ts := by
    obtain ⟨u, others, split, first⟩ := lies.first
    obtain ⟨rfl, rfl⟩ := List.cons.inj (whole.symm.trans split)
    rw [whole, loc, isFirst, first]
    exact .first t more
  cases lies with
  | number | text | var | group => exact ofFirst rfl rfl rfl
  | @binary op _ _ t before more behind _ spells =>
    exact ⟨t, more, op.marks, ⟨before, behind, by simp⟩, rfl, op.close_marks, spells, rfl⟩
  | @before op _ _ _ _ isBefore =>
    refine ofFirst rfl rfl ?_
    cases op with
    | factorial => contradiction
    | _ => rfl
  | @factorial _ t before _ isBang =>
    refine ⟨t, [], Mark.single .bang, (List.suffix_append _ _).isInfix, rfl, .inl ⟨_, rfl⟩, ?_, rfl⟩
    exact .cons isBang (fun joined => nomatch joined) .nil
  | step isStep => rcases isStep with rfl | rfl <;> exact ofFirst rfl rfl rfl

/-! ### Parts of statements over tokens -/

namespace Stmt

theorem Over.anchored {s : Stmt} {ts : List Token} (lies : s.Over place ts) :
    Anchored place s.loc s.anchor ts := by
  have ofFirst {t : Token} {more : List Token} {ms : List Mark}
      (isFirst : Mark.first ms = [t.lexeme]) :
      Anchored place (place t) (Mark.first ms) (t :: more) := by
    rw [isFirst]
    exact .first t more
  cases lies with
  | comment same => exact ofFirst (by rw [same]; rfl)
  | jump isGoto => exact ofFirst (by rw [isGoto]; rfl)
  | assign same => exact ofFirst (by rw [same]; rfl)
  | expression lies =>
    obtain ⟨u, others, split, first⟩ := lies.first
    obtain ⟨rfl, rfl⟩ := List.cons.inj split
    exact ofFirst first
  | branch isIf => exact ofFirst (by rw [isIf]; rfl)

/-- The expressions that a statement holds by itself lie over some of its tokens. -/
theorem Over.of_mem_own {s : Stmt} {ts : List Token} (lies : s.Over place ts) {e : Expr}
    (member : e ∈ s.own) : ∃ us, us <:+: ts ∧ e.Over place us := by
  cases lies with
  | comment => exact absurd member List.not_mem_nil
  | @jump t _ _ _ lies =>
    rw [List.mem_singleton.mp member]
    exact ⟨_, (List.suffix_cons t _).isInfix, lies⟩
  | @assign t _ _ _ sign _ same _ lies =>
    rcases List.mem_cons.mp member with rfl | isValue
    · exact ⟨[t], ⟨[], _, rfl⟩, .var same⟩
    · rw [List.mem_singleton.mp isValue]
      exact ⟨_, ⟨t :: sign, [], by simp⟩, lies⟩
  | expression lies =>
    rw [List.mem_singleton.mp member]
    exact ⟨_, List.infix_rfl, lies⟩
  | @branch ifWord _ _ _ _ _ _ _ _ _ _ _ lies =>
    rw [List.mem_singleton.mp member]
    exact ⟨_, ⟨[ifWord], _, rfl⟩, lies⟩

/-- The blocks that a statement holds by itself lie over some of its tokens. -/
theorem Over.of_mem_blocks {s : Stmt} {ts : List Token} (lies : s.Over place ts)
    {block : List Stmt} (member : block ∈ s.blocks) :
    ∃ us, us <:+: ts ∧ OverAll place block us := by
  cases lies with
  | @branch ifWord thenWord endWord _ _ _ ts inBody inElse _ _ _ _ bodyOver elseOver =>
    rcases List.mem_cons.mp member with rfl | isElse
    · exact ⟨inBody, ⟨ifWord :: (ts ++ [thenWord]), inElse ++ [endWord], by simp⟩, bodyOver⟩
    · cases elseOver with
      | absent | empty => exact absurd isElse List.not_mem_nil
      | @filled t _ us _ lies =>
        rw [List.mem_singleton.mp isElse]
        exact ⟨us, ⟨ifWord :: (ts ++ thenWord :: (inBody ++ [t])), [endWord], by simp⟩, lies⟩
  | _ => exact absurd member List.not_mem_nil

mutual

/-- The statements in a statement lie over some of its tokens. Those of a statement inside come
behind the word that begins it. -/
theorem Over.of_mem_within {s t : Stmt} {ts : List Token} (lies : s.Over place ts)
    (member : t ∈ s.within) : ∃ us, us <:+: ts ∧ t.Over place us := by
  match s, lies with
  | .comment _ _, lies | .jump _ _, lies | .assign _ _ _ _, lies | .expression _ _, lies =>
    rw [List.mem_singleton.mp member]
    exact ⟨_, List.infix_rfl, lies⟩
  | .branch _ _ body otherwise, lies =>
    rcases List.mem_cons.mp member with rfl | inBlocks
    · exact ⟨_, List.infix_rfl, lies⟩
    · obtain ⟨ifWord, inCondition, thenWord, inBody, inElse, endWord, rfl, bodyOver, elseOver⟩ :
          ∃ ifWord inCondition thenWord inBody inElse endWord,
            ts = ifWord :: (inCondition ++ thenWord :: (inBody ++ (inElse ++ [endWord]))) ∧
            OverAll place body inBody ∧ OverElse place otherwise inElse := by
        cases lies with
        | branch _ _ _ _ bodyOver elseOver => exact ⟨_, _, _, _, _, _, rfl, bodyOver, elseOver⟩
      rcases List.mem_append.mp inBlocks with inside | inside
      · obtain ⟨us, part, found⟩ := OverAll.of_mem_within bodyOver inside
        refine ⟨us, part.trans ?_, found⟩
        exact ⟨ifWord :: (inCondition ++ [thenWord]), inElse ++ [endWord], by simp⟩
      · obtain ⟨us, part, found⟩ := OverElse.of_mem_within elseOver inside
        refine ⟨us, part.trans ?_, found⟩
        exact ⟨ifWord :: (inCondition ++ thenWord :: inBody), [endWord], by simp⟩

theorem OverAll.of_mem_within {block : List Stmt} {t : Stmt} {ts : List Token}
    (lies : OverAll place block ts) (member : t ∈ withinAll block) :
    ∃ us, us <:+: ts ∧ t.Over place us := by
  match block, lies with
  | [], _ => exact absurd member List.not_mem_nil
  | s :: rest, .cons first later =>
    rcases List.mem_append.mp member with inFirst | inRest
    · obtain ⟨us, part, found⟩ := Over.of_mem_within first inFirst
      exact ⟨us, part.trans (List.prefix_append _ _).isInfix, found⟩
    · obtain ⟨us, part, found⟩ := OverAll.of_mem_within later inRest
      exact ⟨us, part.trans (List.suffix_append _ _).isInfix, found⟩

/-- The statements in an else part lie over some of its tokens. -/
theorem OverElse.of_mem_within {otherwise : Option (List Stmt)} {t : Stmt} {ts : List Token}
    (lies : OverElse place otherwise ts) (member : t ∈ withinElse otherwise) :
    ∃ us, us <:+: ts ∧ t.Over place us := by
  match otherwise, lies with
  | none, _ => exact absurd member List.not_mem_nil
  | some block, .filled _ lies =>
    obtain ⟨us, part, found⟩ := OverAll.of_mem_within lies member
    exact ⟨us, part.trans (List.suffix_cons _ _).isInfix, found⟩

end

/-- The expressions in a block lie over some of its tokens. -/
theorem OverAll.of_mem_nodes {block : List Stmt} {ts : List Token} (lies : OverAll place block ts)
    {e : Expr} (member : e ∈ nodesAll block) : ∃ us, us <:+: ts ∧ e.Over place us := by
  obtain ⟨s, inBlock, held, isHeld, inside⟩ := mem_nodesAll.mp member
  obtain ⟨us, part, overStmt⟩ := lies.of_mem_within inBlock
  obtain ⟨vs, smaller, overHeld⟩ := overStmt.of_mem_own isHeld
  obtain ⟨ws, smallest, overExpr⟩ := overHeld.of_mem_nodes inside
  exact ⟨ws, (smallest.trans smaller).trans part, overExpr⟩

end Stmt

/-! ### Order of columns -/

/-- The columns of parts that lie over different tokens come in the order of these. -/
theorem Before.of_append {first second : List Nat} {ts us : List Token}
    (rising : (ts ++ us).Pairwise fun a b => a.column < b.column)
    (inFirst : ∀ c ∈ first, ∃ t ∈ ts, t.column = c)
    (inSecond : ∀ c ∈ second, ∃ t ∈ us, t.column = c) : Before first second := by
  intro c memberFirst d memberSecond
  obtain ⟨t, here, rfl⟩ := inFirst c memberFirst
  obtain ⟨u, there, rfl⟩ := inSecond d memberSecond
  exact (List.pairwise_append.mp rising).2.2 t here u there

/-- What is placed at one of some tokens has the column of one of them. -/
theorem Anchored.columns (columns : ∀ t, columnsOf (place t) = [t.column]) {loc : Option Location}
    {anchor : List Lexeme} {ts : List Token} (anchored : Anchored place loc anchor ts) :
    ∀ c ∈ columnsOf loc, ∃ t ∈ ts, t.column = c := by
  obtain ⟨t, more, _, inside, rfl, _⟩ := anchored
  rw [columns]
  intro c member
  exact ⟨t, inside.subset List.mem_cons_self, (List.mem_singleton.mp member).symm⟩

/-- The columns in an expression are those of tokens that it lies over. -/
theorem Expr.Over.columns (columns : ∀ t, columnsOf (place t) = [t.column]) {e : Expr}
    {ts : List Token} (lies : e.Over place ts) : ∀ c ∈ e.columns, ∃ t ∈ ts, t.column = c := by
  intro c member
  obtain ⟨n, inside, isColumn⟩ := List.mem_flatMap.mp member
  obtain ⟨us, part, overPart⟩ := lies.of_mem_nodes inside
  obtain ⟨t, here, same⟩ := overPart.anchored.columns columns c isColumn
  exact ⟨t, part.subset here, same⟩

/-- The columns in a statement are those of tokens that it lies over. -/
theorem Stmt.Over.columns (columns : ∀ t, columnsOf (place t) = [t.column]) {s : Stmt}
    {ts : List Token} (lies : s.Over place ts) : ∀ c ∈ s.columns, ∃ t ∈ ts, t.column = c := by
  intro c member
  obtain ⟨u, inside, isColumn⟩ := List.mem_flatMap.mp member
  obtain ⟨us, part, overPart⟩ := lies.of_mem_within inside
  rcases List.mem_append.mp isColumn with isOwn | inExpr
  · obtain ⟨t, here, same⟩ := overPart.anchored.columns columns c isOwn
    exact ⟨t, part.subset here, same⟩
  · obtain ⟨e, held, isColumn⟩ := List.mem_flatMap.mp inExpr
    obtain ⟨vs, smaller, overExpr⟩ := overPart.of_mem_own held
    obtain ⟨t, here, same⟩ := overExpr.columns columns c isColumn
    exact ⟨t, part.subset (smaller.subset here), same⟩

/-- The operands of an expression are before and behind its operator. The tokens of both
operands are apart from its own. -/
theorem Expr.Over.ordered (columns : ∀ t, columnsOf (place t) = [t.column]) {e : Expr}
    {ts : List Token} (lies : e.Over place ts)
    (rising : ts.Pairwise fun a b => a.column < b.column) : e.Ordered := by
  have own {t : Token} {more : List Token} : ∀ c ∈ columnsOf (place t),
      ∃ u ∈ t :: more, u.column = c := by
    rw [columns]
    intro c member
    exact ⟨t, List.mem_cons_self, (List.mem_singleton.mp member).symm⟩
  cases lies with
  | @binary _ _ _ t before more behind leftOver _ rightOver =>
    constructor
    · exact .of_append rising (leftOver.columns columns) own
    · have later := (List.pairwise_append.mp rising).2.1
      exact .of_append later own (rightOver.columns columns)
  | factorial lies => exact .of_append rising (lies.columns columns) own
  | @before op _ _ _ _ isBefore =>
    cases op with
    | factorial => contradiction
    | _ => trivial
  | step isStep => rcases isStep with rfl | rfl <;> trivial
  | _ => trivial

theorem Stmt.OverAll.ordered (columns : ∀ t, columnsOf (place t) = [t.column]) {block : List Stmt}
    {ts : List Token} (lies : OverAll place block ts)
    (rising : ts.Pairwise fun a b => a.column < b.column) : OrderedAll block := by
  induction block generalizing ts with
  | nil => exact .nil
  | cons s rest inductionHypothesis =>
    cases lies with
    | @cons _ _ ts others first later =>
      refine .cons ?_ (inductionHypothesis later (List.pairwise_append.mp rising).2.1)
      intro t member
      refine .of_append rising (first.columns columns) ?_
      intro c isColumn
      obtain ⟨us, part, overPart⟩ := later.of_mem_within (mem_withinAll_of_mem member)
      obtain ⟨u, here, same⟩ := overPart.columns columns c isColumn
      exact ⟨u, part.subset here, same⟩

end

/-! ### Lines -/

/-- Whether a location is that of a token in a line of a file, and the text has at its column
what is to stand there. The line is that of the program; within the text it is the first. -/
structure Location.StandsAt (text file : String) (number : Int) (tokens : List Token)
    (anchor : List Lexeme) (l : Location) : Prop where
  file : l.file = file
  line : l.line = number
  positive : 1 ≤ l.column
  token : ∃ t ∈ tokens, t.line = 1 ∧ t.column = l.column ∧ anchor.head? = some t.lexeme
  begins : Begins anchor (text.toList.drop (l.column - 1))

/-- Whether everything in a line is placed where it stands in the text. The order of columns
follows the tree, so it says more than that each place is right. -/
structure Line.Placed (text file : String) (number : Int) (tokens : List Token) (line : Line) :
    Prop where
  expressions : ∀ e ∈ line.nodes, ∃ l, e.loc = some l ∧ l.StandsAt text file number tokens e.anchor
  statements : ∀ s ∈ line.within, ∃ l, s.loc = some l ∧ l.StandsAt text file number tokens s.anchor
  operands : ∀ e ∈ line.nodes, e.Ordered
  blocks : ∀ block ∈ line.blocks, Stmt.OrderedAll block

/-- What is placed at one of the tokens of a line is placed where it stands. The text has there
what the token was scanned from. -/
theorem Anchored.standsAt {sheet : Grammar.Sheet} {text : String} {loc : Option Location}
    {anchor : List Lexeme} {tokens used us : List Token} (row : Token.Row text.toList used)
    (among : used ⊆ tokens) (part : us <:+: used) (anchored : Anchored sheet.place loc anchor us) :
    ∃ l, loc = some l ∧ l.StandsAt text sheet.file sheet.firstLine tokens anchor := by
  obtain ⟨t, more, ms, inside, rfl, close, spells, rfl⟩ := anchored
  have whole := inside.trans part
  have member : t ∈ used := whole.subset List.mem_cons_self
  have begins := row.begins_of_spells whole close spells
  have line : (t.line : Int) - 1 = 0 := by rw [row.line t member]; rfl
  refine ⟨_, rfl, rfl, ?_, row.positive t member, ⟨t, among member, row.line t member, rfl, ?_⟩,
    begins⟩
  · change sheet.firstLine + ((t.line : Int) - 1) = sheet.firstLine
    rw [line, Int.add_zero]
  · cases spells with
    | cons same => rw [same]; rfl

/-- Every node of a line that is read has a location in the line of the file that it is read as. Its
column is where the text has the token that the node is placed at: the operator, if the node is an
operator between operands or a factorial sign, and its first token otherwise. All columns in the
left operand of an operator are smaller than its own, and all in the right operand greater; all in
the operand of a factorial sign are smaller than that of the sign; and all in a statement are
smaller than those in the statements behind it in its block.

Proof: the statements lie over the tokens of the line, each node at one of its own, and these are a
row in the text. -/
theorem Line.placed_of_parse {text file : String} {number : Int} {line : Line}
    (read : Line.parse text file number = .ok line) :
    ∃ tokens, scan file text = .ok tokens ∧ line.Placed text file number tokens := by
  unfold Line.parse at read
  split at read
  · contradiction
  next tokens scanned =>
  split at read
  · contradiction
  next parsed =>
  obtain rfl := Except.ok.inj read
  unfold Line.ofTokens at parsed
  split at parsed
  · contradiction
  next statements rest readStatements =>
  obtain rfl := Except.ok.inj parsed
  have fromScan := scanned_scan scanned
  obtain ⟨used, split, lies⟩ := Grammar.laysBlock_statements _ fromScan readStatements
  obtain ⟨usedToo, splitToo, covers⟩ :=
    (Grammar.blockSound_statements _ fromScan readStatements).takes
  obtain rfl : used = usedToo := List.append_cancel_right (split.symm.trans splitToo)
  have row := Token.row_of_scan scanned split covers.inLine
  have among : used ⊆ tokens := split ▸ List.subset_append_left used rest
  have columns (sheet : Grammar.Sheet) (t : Token) : columnsOf (sheet.place t) = [t.column] := rfl
  refine ⟨tokens, scanned, ?_, ?_, ?_, ?_⟩
  · intro e member
    obtain ⟨us, part, overExpr⟩ := lies.of_mem_nodes member
    exact overExpr.anchored.standsAt row among part
  · intro s member
    obtain ⟨us, part, overStmt⟩ := lies.of_mem_within member
    exact overStmt.anchored.standsAt row among part
  · intro e member
    obtain ⟨us, part, overExpr⟩ := lies.of_mem_nodes member
    exact overExpr.ordered (columns _) (row.part part).rising
  · intro block member
    rcases List.mem_cons.mp member with rfl | inside
    · exact lies.ordered (columns _) row.rising
    · obtain ⟨s, inLine, held⟩ := List.mem_flatMap.mp inside
      obtain ⟨us, part, overStmt⟩ := lies.of_mem_within inLine
      obtain ⟨vs, smaller, overBlock⟩ := overStmt.of_mem_blocks held
      exact overBlock.ordered (columns _) (row.part (smaller.trans part)).rising

/-- An operator of two symbols, a factorial sign, a step behind its variable and two statements in a
row are placed where they stand. -/
theorem Line.placed_of_parse_steps :
    ∃ line, Line.parse "if a <= 3! then b++ c=-d else e=1 end" "" 4 = .ok line ∧
      line.blocks.map List.length = [1, 2, 1] ∧
      ∃ tokens, scan "" "if a <= 3! then b++ c=-d else e=1 end" = .ok tokens ∧
        line.Placed "if a <= 3! then b++ c=-d else e=1 end" "" 4 tokens := by
  obtain ⟨line, read, blocks⟩ := exists_ok_of_any
    (x := Line.parse "if a <= 3! then b++ c=-d else e=1 end" "" 4)
    (f := fun line => line.blocks.map List.length = [1, 2, 1]) (by decide +kernel)
  exact ⟨line, read, of_decide_eq_true blocks, Line.placed_of_parse read⟩

end YololChip
