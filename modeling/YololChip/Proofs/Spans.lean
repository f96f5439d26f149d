import YololChip.Proofs.Scanned

/-!
# What lexemes take

Which characters a lexeme takes of a text, and which line they are in. Only the end of a line
takes a line feed. So all tokens up to the first end of a line are in the line that the text
begins in, and so is the place where a text without line feeds is refused.
-/

namespace YololChip

namespace Position

theorem line_next {p : Position} {c : Char} (noFeed : c ≠ '\n') : (p.next c).line = p.line := by
  rw [next, if_neg noFeed]

theorem line_after {p : Position} {cs : List Char} (noFeed : '\n' ∉ cs) :
    (p.after cs).line = p.line := by
  induction cs generalizing p with
  | nil => rfl
  | cons c cs inductionHypothesis =>
    have first := List.ne_of_not_mem_cons noFeed
    have later := List.not_mem_of_not_mem_cons noFeed
    have step : (p.after (c :: cs)).line = ((p.next c).after cs).line := rfl
    rw [step, inductionHypothesis later, line_next first.symm]

theorem after_of_oneLine (p : Position) {cs : List Char} (oneLine : ∀ c ∈ cs, c ≠ '\n') :
    p.after cs = ⟨p.line, p.column + cs.length⟩ := by
  induction cs generalizing p with
  | nil => rfl
  | cons c cs inductionHypothesis =>
    have next : p.next c = ⟨p.line, p.column + 1⟩ := if_neg (oneLine c List.mem_cons_self)
    change (p.next c).after cs = _
    rw [inductionHypothesis _ fun d member => oneLine d (List.mem_cons_of_mem _ member), next,
      List.length_cons, Nat.add_assoc, Nat.add_comm 1]

end Position

/-- The characters that are taken as long as something holds are those that are taken. -/
theorem take_length_takeWhile (p : Char → Bool) (cs : List Char) :
    cs.take (cs.takeWhile p).length = cs.takeWhile p :=
  (List.prefix_iff_eq_take.mp (List.takeWhile_prefix p)).symm

/-- Something that does not hold of a line feed holds of no row of characters with one. -/
theorem noFeed_takeWhile {p : Char → Bool} (stops : p '\n' = false) (cs : List Char) :
    '\n' ∉ cs.takeWhile p := by
  intro member
  have holds := List.all_eq_true.mp List.all_takeWhile '\n' member
  rw [stops] at holds
  contradiction

/-- What a lexeme takes of a row of characters: no more than there are, and a line feed just if
it is the end of a line. A text and a comment end before one. -/
structure Spans (c : Char) (rest : List Char) (lexeme : Lexeme) (more : Nat) : Prop where
  within : more ≤ rest.length
  feeds : '\n' ∈ c :: rest.take more ↔ lexeme.endsLine = true

/-- Characters that something holds of that does not hold of a line feed are a lexeme inside the
line, behind a character that is no line feed. -/
theorem Spans.of_takeWhile {c : Char} {p : Char → Bool} {lexeme : Lexeme} (noFeed : c ≠ '\n')
    (stops : p '\n' = false) (rest : List Char) (inLine : lexeme.endsLine = false) :
    Spans c rest lexeme (rest.takeWhile p).length where
  within := (List.takeWhile_prefix p).length_le
  feeds := by
    rw [take_length_takeWhile, inLine]
    simp [noFeed.symm, noFeed_takeWhile stops rest]

theorem spans_lexemeAt {c : Char} {rest : List Char} {lexeme : Lexeme} {more : Nat}
    (found : lexemeAt c rest = .ok (lexeme, more)) : Spans c rest lexeme more := by
  cases LexemeAt.of_lexemeAt found with
  | returnFeed rest => exact ⟨by simp, by simp [Lexeme.endsLine]⟩
  | feed => exact ⟨Nat.zero_le _, by simp [Lexeme.endsLine]⟩
  | comment rest =>
    have body := noFeed_takeWhile (p := (· != '\n')) (by decide) rest
    constructor
    · exact Nat.succ_le_succ (List.takeWhile_prefix _).length_le
    · rw [List.take_succ_cons, take_length_takeWhile]
      simp [Lexeme.endsLine, body]
  | @symbol s =>
    have noFeed : '\n' ≠ s.char := by cases s <;> decide
    exact ⟨Nat.zero_le _, by simp [Lexeme.endsLine, noFeed]⟩
  | text =>
    have body : Spans '"' rest (.text (String.ofList (rest.takeWhile continuesString)))
        (rest.takeWhile continuesString).length :=
      .of_takeWhile (by decide) (by decide) rest rfl
    split
    · next closed =>
      obtain ⟨tail, shape⟩ := List.head?_eq_some_iff.mp closed
      have lengths := congrArg List.length shape
      rw [List.length_drop, List.length_cons] at lengths
      refine ⟨by omega, ?_⟩
      have noQuote : '\n' ∉ '"' :: rest.take (rest.takeWhile continuesString).length := by
        rw [body.feeds]
        simp [Lexeme.endsLine]
      rw [List.take_add, shape, List.take_succ_cons, List.take_zero, ← List.cons_append,
        List.mem_append]
      simp [noQuote, Lexeme.endsLine]
    · exact body
  | number digit =>
    have noFeed : c ≠ '\n' := by
      rintro rfl
      contradiction
    exact .of_takeWhile noFeed (by decide) rest rfl
  | field => exact .of_takeWhile (by decide) (by decide) rest rfl
  | word starts =>
    have noFeed : c ≠ '\n' := by
      rintro rfl
      contradiction
    refine .of_takeWhile noFeed (by decide) rest ?_
    unfold wordLexeme
    split <;> rfl

/-- Whether tokens are numbered with a line, up to the first that ends it. Of those behind that
nothing is said. -/
def OnLine (line : Nat) : List Token → Prop
  | [] => True
  | t :: rest => t.line = line ∧ (t.lexeme.endsLine = false → OnLine line rest)

/-- The tokens of a text are numbered with the line that it begins in, up to the end of that.

Proof: induction over the scan. What a token inside the line takes has no line feed. -/
theorem onLine_scanFrom {file : String} {p : Position} {cs : List Char} {tokens : List Token}
    (scanned : scanFrom file p cs = .ok tokens) : OnLine p.line tokens := by
  induction p, cs using scanFrom.induct file generalizing tokens with
  | case1 p =>
    rw [scanFrom] at scanned
    obtain rfl := Except.ok.inj scanned
    exact ⟨rfl, fun _ => trivial⟩
  | case2 p c rest gap inductionHypothesis =>
    rw [scanFrom, if_pos gap] at scanned
    have noFeed : c ≠ '\n' := by
      rintro rfl
      contradiction
    rw [← Position.line_next noFeed]
    exact inductionHypothesis scanned
  | case3 p c rest noGap fault stopped =>
    rw [scanFrom, if_neg noGap, stopped] at scanned
    contradiction
  | case4 p c rest noGap lexeme more here others behind inductionHypothesis =>
    rw [scanFrom, if_neg noGap, here] at scanned
    simp only [behind] at scanned
    obtain rfl := Except.ok.inj scanned
    refine ⟨rfl, fun inLine => ?_⟩
    have noFeed : '\n' ∉ c :: rest.take more := by simp [(spans_lexemeAt here).feeds, inLine]
    rw [← Position.line_after noFeed]
    exact inductionHypothesis behind
  | case5 p c rest noGap lexeme more here error behind =>
    rw [scanFrom, if_neg noGap, here] at scanned
    simp only [behind] at scanned
    contradiction

/-- Where a text without line feeds is refused is in the line that it begins in. -/
theorem line_of_scanFrom_error {file : String} {p : Position} {cs : List Char} {error : ScanError}
    (noFeed : '\n' ∉ cs) (refused : scanFrom file p cs = .error (.refused error)) :
    error.line = p.line ∧ error.file = file := by
  induction p, cs using scanFrom.induct file generalizing error with
  | case1 p =>
    rw [scanFrom] at refused
    contradiction
  | case2 p c rest gap inductionHypothesis =>
    rw [scanFrom, if_pos gap] at refused
    have first := List.ne_of_not_mem_cons noFeed
    have later := List.not_mem_of_not_mem_cons noFeed
    rw [← Position.line_next first.symm]
    exact inductionHypothesis later refused
  | case3 p c rest noGap fault stopped =>
    rw [scanFrom, if_neg noGap, stopped] at refused
    have same := Except.error.inj refused
    cases fault with
    | refused =>
      obtain rfl := ReadFault.refused.inj same
      exact ⟨rfl, rfl⟩
    | overlong => contradiction
  | case4 p c rest noGap lexeme more here others behind inductionHypothesis =>
    rw [scanFrom, if_neg noGap, here] at refused
    simp only [behind] at refused
    contradiction
  | case5 p c rest noGap lexeme more here given behind inductionHypothesis =>
    rw [scanFrom, if_neg noGap, here] at refused
    simp only [behind] at refused
    obtain rfl := Except.error.inj refused
    have first := List.ne_of_not_mem_cons noFeed
    have later := List.not_mem_of_not_mem_cons noFeed
    have taken : '\n' ∉ c :: rest.take more := by
      rintro (_ | ⟨_, inside⟩)
      · exact first rfl
      · exact later (List.mem_of_mem_take inside)
    rw [← Position.line_after taken]
    exact inductionHypothesis (fun member => later (List.mem_of_mem_drop member)) behind

/-! ### Order -/

/-- Whether a position comes before another: in an earlier line, or in the same line to the
left. Of two positions one does, or they are the same. -/
def Position.Precedes (p q : Position) : Prop :=
  p.line < q.line ∨ p.line = q.line ∧ p.column < q.column

namespace Position

theorem Precedes.line_le {p q : Position} (before : p.Precedes q) : p.line ≤ q.line :=
  before.elim Nat.le_of_lt fun ⟨same, _⟩ => Nat.le_of_eq same

/-- What comes before a position comes before all behind it. So positions are put in order by
putting neighbours in order. -/
theorem Precedes.trans {p q r : Position} (first : p.Precedes q) (later : q.Precedes r) :
    p.Precedes r := by
  unfold Precedes at *
  omega

theorem precedes_next (p : Position) (c : Char) : p.Precedes (p.next c) := by
  unfold next
  split
  · exact .inl (Nat.lt_succ_self p.line)
  · exact .inr ⟨rfl, Nat.lt_succ_self p.column⟩

theorem precedes_after (p : Position) (c : Char) (cs : List Char) :
    p.Precedes (p.after (c :: cs)) := by
  induction cs generalizing p c with
  | nil => exact p.precedes_next c
  | cons d cs inductionHypothesis => exact (p.precedes_next c).trans (inductionHypothesis _ d)

end Position

def Token.position (t : Token) : Position := ⟨t.line, t.column⟩

/-- The tokens of a text are in the order of their positions, none before the position where it
begins.

Proof: induction over the scan. -/
theorem inOrder_scanFrom {file : String} {p : Position} {cs : List Char} {tokens : List Token}
    (scanned : scanFrom file p cs = .ok tokens) :
    (∀ t ∈ tokens, p = t.position ∨ p.Precedes t.position) ∧
      tokens.Pairwise fun t u => t.position.Precedes u.position := by
  fun_induction scanFrom file p cs generalizing tokens with
  | case1 p =>
    obtain rfl := Except.ok.inj scanned
    exact ⟨List.forall_mem_singleton.mpr (.inl rfl), List.pairwise_singleton _ _⟩
  | case2 p c rest gap inductionHypothesis =>
    obtain ⟨further, inOrder⟩ := inductionHypothesis scanned
    refine ⟨fun t member => .inr ?_, inOrder⟩
    rcases further t member with same | later
    · exact same ▸ p.precedes_next c
    · exact (p.precedes_next c).trans later
  | case3 => contradiction
  | case4 p c rest noGap lexeme more here others behind inductionHypothesis =>
    obtain rfl := Except.ok.inj scanned
    obtain ⟨further, inOrder⟩ := inductionHypothesis behind
    have behindFirst : ∀ t ∈ others, p.Precedes t.position := by
      intro t member
      rcases further t member with same | later
      · exact same ▸ p.precedes_after c _
      · exact (p.precedes_after c _).trans later
    exact ⟨List.forall_mem_cons.mpr ⟨.inl rfl, fun t member => .inr (behindFirst t member)⟩,
      .cons behindFirst inOrder⟩
  | case5 => contradiction

/-- Where a text is refused is in no line before the one that it begins in. Lines only count up
while a text is scanned. -/
theorem line_le_of_scanFrom_error {file : String} {p : Position} {cs : List Char}
    {error : ScanError} (refused : scanFrom file p cs = .error (.refused error)) :
    p.line ≤ error.line := by
  fun_induction scanFrom file p cs generalizing error with
  | case1 => contradiction
  | case2 p c rest gap inductionHypothesis =>
    exact Nat.le_trans (p.precedes_next c).line_le (inductionHypothesis refused)
  | case3 p c rest noGap fault stopped =>
    have same := Except.error.inj refused
    cases fault with
    | refused =>
      obtain rfl := ReadFault.refused.inj same
      exact Nat.le_refl _
    | overlong => contradiction
  | case4 => contradiction
  | case5 p c rest noGap lexeme more here fault behind inductionHypothesis =>
    obtain rfl := Except.error.inj refused
    exact Nat.le_trans (p.precedes_after c _).line_le (inductionHypothesis behind)

theorem nodup_of_scan {file text : String} {tokens : List Token}
    (scanned : scan file text = .ok tokens) : tokens.Nodup := by
  refine (inOrder_scanFrom scanned).2.imp fun before same => ?_
  subst same
  rcases before with line | ⟨-, column⟩
  · exact Nat.lt_irrefl _ line
  · exact Nat.lt_irrefl _ column

end YololChip
