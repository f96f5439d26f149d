import YololChip.Proofs.LineViews
import YololChip.Proofs.PrintedLexemes
import YololChip.Proofs.Spans

/-!
# What follows the first line of a text

A line is read of a text up to its first newline. The scanner goes on behind it, but the parser
stops there: no test of the tokens ahead looks past the end of the line, and there it comes out as
at the end of a text. So a text is read as its first line is by itself, if what follows can be
scanned at all. Only the token at the end of the line goes by another name.

If what follows cannot be scanned then the first line is not read either, good as it may be: the
fault of a later line is all that is reported.
-/

namespace YololChip

namespace Text

/-- The characters before the first line feed, and before the carriage return in front of it if
there is one. A carriage return by itself ends no line. -/
def beforeNewline : List Char → List Char
  | [] => []
  | '\r' :: '\n' :: _ => []
  | c :: cs => if c = '\n' then [] else c :: beforeNewline cs

/-- The part of a text before its first newline. It is the whole text if there is no newline in
it. -/
def firstLine (text : String) : String := String.ofList (beforeNewline text.toList)

/-- The part of a text from its first newline on, the newline included. -/
def behindFirstLine (text : String) : List Char :=
  text.toList.drop (beforeNewline text.toList).length

/-- Whether a row of characters is a line and what stands behind it begins with a newline, if it
is not empty. A carriage return in front of the line feed is none of the line. Any row of
characters is parted in one such way. -/
structure Parted (line behind : List Char) : Prop where
  noFeed : '\n' ∉ line
  ends : behind = [] ∨ (∃ rest, behind = '\n' :: rest) ∨ ∃ rest, behind = '\r' :: '\n' :: rest
  noReturn : line.getLast? = some '\r' → behind.head? ≠ some '\n'

/-- Behind the first character of a line the rest of it stands as the line does. -/
theorem Parted.tail {c : Char} {line behind : List Char} (parted : Parted (c :: line) behind) :
    Parted line behind where
  noFeed member := parted.noFeed (List.mem_cons_of_mem c member)
  ends := parted.ends
  noReturn isLast := by
    apply parted.noReturn
    cases line with
    | nil => contradiction
    | cons d line => rwa [List.getLast?_cons_cons]

/-- Behind some characters of a line the rest of it stands as the line does. -/
theorem Parted.drop {line behind : List Char} (parted : Parted line behind) (n : Nat) :
    Parted (line.drop n) behind := by
  induction n generalizing line with
  | zero => exact parted
  | succ n inductionHypothesis =>
    cases line with
    | nil => exact parted
    | cons c line => exact inductionHypothesis parted.tail

theorem parted_beforeNewline (cs : List Char) :
    ∃ behind, cs = beforeNewline cs ++ behind ∧ Parted (beforeNewline cs) behind := by
  induction cs using beforeNewline.induct with
  | case1 => exact ⟨[], rfl, by simp [beforeNewline], .inl rfl, by simp⟩
  | case2 rest =>
    refine ⟨'\r' :: '\n' :: rest, rfl, by simp [beforeNewline], .inr (.inr ⟨rest, rfl⟩), by simp⟩
  | case3 rest noPair =>
    rw [beforeNewline.eq_3 '\n' rest noPair, if_pos rfl]
    exact ⟨'\n' :: rest, rfl, List.not_mem_nil, .inr (.inl ⟨rest, rfl⟩), by simp⟩
  | case4 c rest noPair noFeed inductionHypothesis =>
    obtain ⟨behind, whole, parted⟩ := inductionHypothesis
    rw [beforeNewline.eq_3 c rest noPair, if_neg noFeed]
    refine ⟨behind, congrArg (c :: ·) whole, ?_, parted.ends, ?_⟩
    · rintro (_ | ⟨_, later⟩)
      · exact noFeed rfl
      · exact parted.noFeed later
    · cases before : beforeNewline rest with
      | nil =>
        rintro isReturn isFeed
        obtain rfl : c = '\r' := by simpa using isReturn
        obtain ⟨tail, shape⟩ := List.head?_eq_some_iff.mp isFeed
        rw [before, List.nil_append, shape] at whole
        exact noPair tail rfl whole
      | cons d line =>
        rw [List.getLast?_cons_cons, ← before]
        exact parted.noReturn

/-- What does not hold of the characters of a newline is looked for in the line alone. -/
theorem Parted.takeWhile {line behind : List Char} (parted : Parted line behind) {p : Char → Bool}
    (noFeed : p '\n' = false) (noReturn : p '\r' = false) :
    (line ++ behind).takeWhile p = line.takeWhile p := by
  have stops : behind.takeWhile p = [] := by
    rcases parted.ends with rfl | ⟨rest, rfl⟩ | ⟨rest, rfl⟩
    · rfl
    · simp [noFeed]
    · simp [noReturn]
  rw [List.takeWhile_append]
  split
  · next whole =>
    rw [stops, List.append_nil]
    exact ((List.takeWhile_prefix p).eq_of_length whole).symm
  · rfl

/-- A character that is of no newline stands in front of both or of none. Characters of a
newline are the only ones that the line does not see. -/
theorem Parted.head? {line behind : List Char} (parted : Parted line behind) {c : Char}
    (noFeed : c ≠ '\n') (noReturn : c ≠ '\r') :
    (line ++ behind).head? = some c ↔ line.head? = some c := by
  cases line with
  | nil =>
    rcases parted.ends with rfl | ⟨rest, rfl⟩ | ⟨rest, rfl⟩
    · rfl
    · simp [noFeed.symm]
    · simp [noReturn.symm]
  | cons d line => rfl

/-- Of a comment, which holds all but a line feed, only a carriage return stands behind the line. -/
theorem Parted.takeWhile_comment {line behind : List Char} (parted : Parted line behind) :
    line.takeWhile (· != '\n') = line ∧
      ((line ++ behind).takeWhile (· != '\n') = line ∧ behind.head? ≠ some '\r' ∨
        (line ++ behind).takeWhile (· != '\n') = line ++ ['\r'] ∧
          ∃ rest, behind = '\r' :: '\n' :: rest) := by
  have all : ∀ c ∈ line, (c != '\n') = true := by
    rintro c member
    rw [bne_iff_ne]
    rintro rfl
    exact parted.noFeed member
  have whole : (line ++ []).takeWhile (· != '\n') = line := takeWhile_append_stop all (by simp)
  rw [List.append_nil] at whole
  refine ⟨whole, ?_⟩
  rw [List.takeWhile_append_of_pos all]
  rcases parted.ends with rfl | ⟨rest, rfl⟩ | ⟨rest, rfl⟩
  · exact .inl ⟨by simp, by simp⟩
  · exact .inl ⟨by simp, by simp⟩
  · exact .inr ⟨by simp, rest, rfl⟩

end Text

/-- Carriage returns at the end are dropped, also a further one. This is why a comment in front
of a newline has the same text as by itself. -/
theorem withoutReturns_append (cs : List Char) :
    withoutReturns (cs ++ ['\r']) = withoutReturns cs := by
  simp [withoutReturns]

theorem slashes_of_comment {c : Char} {rest : List Char} {text : String} {more : Nat}
    (found : lexemeAt c rest = .ok (.comment text, more)) : c = '/' ∧ rest.head? = some '/' := by
  generalize isComment : Lexeme.comment text = lexeme at found
  cases LexemeAt.of_lexemeAt found with
  | comment => exact ⟨rfl, rfl⟩
  | word =>
    unfold wordLexeme at isComment
    split at isComment <;> contradiction
  | returnFeed | feed | symbol | text | number | field => contradiction

/-- Scanning a line, the lexeme at a character is the same whatever newline stands behind the
line. Only a comment takes the carriage return of a newline as well. -/
theorem lexemeAt_append {c : Char} {rest behind : List Char}
    (parted : Text.Parted (c :: rest) behind) :
    (lexemeAt c (rest ++ behind) = lexemeAt c rest ∧
      ∀ text more, lexemeAt c rest = .ok (.comment text, more) → behind.head? ≠ some '\r') ∨
      ∃ text tail, behind = '\r' :: '\n' :: tail ∧
        lexemeAt c rest = .ok (.comment text, rest.length) ∧
        lexemeAt c (rest ++ behind) = .ok (.comment text, rest.length + 1) := by
  have noFeed : c ≠ '\n' := by
    rintro rfl
    exact parted.noFeed List.mem_cons_self
  have alone : ¬(c = '\r' ∧ rest.head? = some '\n') := by
    rintro ⟨-, isFeed⟩
    exact parted.tail.noFeed (List.mem_of_head? isFeed)
  have followed : ¬(c = '\r' ∧ (rest ++ behind).head? = some '\n') := by
    rintro ⟨rfl, isFeed⟩
    cases rest with
    | nil => exact parted.noReturn rfl isFeed
    | cons d rest => exact alone ⟨rfl, isFeed⟩
  have slash := parted.tail.head? (c := '/') (by decide) (by decide)
  by_cases slashes : c = '/' ∧ rest.head? = some '/'
  · have slashes' : c = '/' ∧ (rest ++ behind).head? = some '/' := ⟨slashes.1, slash.mpr slashes.2⟩
    obtain ⟨tail, rfl⟩ := List.head?_eq_some_iff.mp slashes.2
    unfold lexemeAt
    rw [if_neg alone, if_neg followed, if_neg noFeed, if_neg noFeed, if_pos slashes,
      if_pos slashes']
    simp only [List.cons_append, List.drop_succ_cons, List.drop_zero]
    obtain ⟨whole, ⟨same, noReturn⟩ | ⟨longer, behindReturn, shape⟩⟩ :=
      parted.tail.tail.takeWhile_comment
    · rw [same, whole]
      exact .inl ⟨rfl, fun _ _ _ => noReturn⟩
    · rw [longer, whole, withoutReturns_append]
      exact .inr ⟨_, behindReturn, shape, rfl, by simp⟩
  · have slashes' : ¬(c = '/' ∧ (rest ++ behind).head? = some '/') := by rwa [slash]
    refine .inl ⟨?_, fun text more comment => absurd (slashes_of_comment comment) slashes⟩
    unfold lexemeAt
    rw [if_neg alone, if_neg followed, if_neg noFeed, if_neg noFeed, if_neg slashes,
      if_neg slashes', parted.tail.takeWhile (p := continuesString) (by decide) (by decide),
      parted.tail.takeWhile (p := continuesNumber) (by decide) (by decide),
      parted.tail.takeWhile (p := continuesName) (by decide) (by decide)]
    have within : (rest.takeWhile continuesString).length ≤ rest.length :=
      (List.takeWhile_prefix _).length_le
    have closing := (parted.tail.drop (rest.takeWhile continuesString).length).head?
      (c := '"') (by decide) (by decide)
    rw [← List.drop_append_of_le_length within] at closing
    simp only [closing]

/-! ### Tokens -/

/-- By how many columns the end of a line is further right in front of a newline than at the end
of the text: a comment takes the carriage return of the newline. -/
def Token.shift (behind : List Char) (us : List Token) : Nat :=
  if behind.head? = some '\r' ∧ us.any (·.lexeme.isComment) then 1 else 0

/-- Whether tokens of a text are, up to the end of the line, those of its first line: the end of
the text is a newline there, further right by the shift, and behind it there are as many tokens
as the gap. What these are is left open, for no parser looks at them. -/
inductive Cut (shift gap : Nat) : List Token → List Token → Prop where
  | lineEnd {line column : Nat} {rest : List Token} (length : rest.length = gap) :
      Cut shift gap (⟨.newline, line, column + shift⟩ :: rest) [⟨.finish, line, column⟩]
  | cons {t : Token} {ts us : List Token} (inLine : t.lexeme.endsLine = false)
      (later : Cut shift gap ts us) : Cut shift gap (t :: ts) (t :: us)

theorem cut_of_newline {file : String} {p : Position} {behind : List Char} {ts : List Token}
    (parted : Text.Parted [] behind) (inhabited : behind ≠ [])
    (scanned : scanFrom file p behind = .ok ts) :
    ∃ rest, ts = ⟨.newline, p.line, p.column⟩ :: rest := by
  rcases parted.ends with rfl | ⟨tail, rfl⟩ | ⟨tail, rfl⟩
  · exact absurd rfl inhabited
  · rw [scanFrom, if_neg (by decide), lexemeAt_feed] at scanned
    dsimp only at scanned
    split at scanned
    · next rest _ => exact ⟨rest, (Except.ok.inj scanned).symm⟩
    · contradiction
  · rw [scanFrom, if_neg (by decide), lexemeAt_returnFeed] at scanned
    dsimp only at scanned
    split at scanned
    · next rest _ => exact ⟨rest, (Except.ok.inj scanned).symm⟩
    · contradiction

theorem line_lt_of_newline {file : String} {p : Position} {behind : List Char} {error : ScanError}
    (parted : Text.Parted [] behind)
    (refused : scanFrom file p behind = .error (.refused error)) : p.line < error.line := by
  rcases parted.ends with rfl | ⟨tail, rfl⟩ | ⟨tail, rfl⟩
  · rw [scanFrom] at refused
    contradiction
  · rw [scanFrom, if_neg (by decide), lexemeAt_feed] at refused
    dsimp only at refused
    split at refused
    · contradiction
    · next fault later =>
      obtain rfl := Except.error.inj refused
      exact line_le_of_scanFrom_error later
  · rw [scanFrom, if_neg (by decide), lexemeAt_returnFeed] at refused
    dsimp only at refused
    split at refused
    · contradiction
    · next fault later =>
      obtain rfl := Except.error.inj refused
      exact line_le_of_scanFrom_error later

/-- The shift is settled by the tokens behind one that is no comment. A comment is the last
token of its line, so it comes behind all others. -/
theorem Token.shift_cons {behind : List Char} {t : Token} {us : List Token}
    (plain : t.lexeme.isComment = true → behind.head? ≠ some '\r') :
    Token.shift behind (t :: us) = Token.shift behind us := by
  unfold Token.shift
  by_cases returned : behind.head? = some '\r'
  · have noComment : t.lexeme.isComment = false :=
      Bool.eq_false_iff.mpr fun isComment => plain isComment returned
    simp [noComment]
  · rw [if_neg fun both => returned both.1, if_neg fun both => returned both.1]

theorem inLine_of_parted {c : Char} {rest behind : List Char} {lexeme : Lexeme} {more : Nat}
    (parted : Text.Parted (c :: rest) behind) (found : lexemeAt c rest = .ok (lexeme, more)) :
    lexeme.endsLine = false := by
  rw [Bool.eq_false_iff, ne_eq, ← (spans_lexemeAt found).feeds]
  intro feed
  apply parted.noFeed
  rcases List.mem_cons.mp feed with rfl | later
  · exact List.mem_cons_self
  · exact List.mem_cons_of_mem _ (List.mem_of_mem_take later)

/-- A comment that takes the carriage return of a newline leaves the line feed, one column further
right than the line ends. From there on the text is scanned as it is from a newline on. -/
theorem scanFrom_return {file : String} {p : Position} {c : Char} {rest tail : List Char}
    {lexeme : Lexeme} (noGap : ¬isGap c = true)
    (found : lexemeAt c (rest ++ '\r' :: '\n' :: tail) = .ok (lexeme, rest.length + 1)) :
    scanFrom file p (c :: rest ++ '\r' :: '\n' :: tail) =
      (scanFrom file ((p.after (c :: rest)).next '\r') ('\n' :: tail)).map
        (⟨lexeme, p.line, p.column⟩ :: ·) := by
  have split : rest ++ '\r' :: '\n' :: tail = (rest ++ ['\r']) ++ '\n' :: tail := by simp
  have length : rest.length + 1 = (rest ++ ['\r']).length := by simp
  have next : p.after (c :: (rest ++ ['\r'])) = (p.after (c :: rest)).next '\r' := by
    simp [Position.after]
  rw [List.cons_append, scanFrom, if_neg noGap, found]
  dsimp only
  rw [split, length, List.take_left, List.drop_left, next]
  cases scanFrom file ((p.after (c :: rest)).next '\r') ('\n' :: tail) <;> rfl

/-- The tokens of a line and of the line with a newline behind it: if the line is stopped at, both
are, at the same place. Otherwise they are the same up to the end of the line, unless what follows
the newline is stopped at; and what is refused then is in a later line.

Proof: induction over the scan of the line. -/
theorem cut_scanFrom (file : String) (p : Position) {line behind : List Char}
    (parted : Text.Parted line behind) (inhabited : behind ≠ []) :
    (∀ fault, scanFrom file p line = .error fault →
      scanFrom file p (line ++ behind) = .error fault) ∧
    (∀ us ts, scanFrom file p line = .ok us → scanFrom file p (line ++ behind) = .ok ts →
      ∃ gap, Cut (Token.shift behind us) gap ts us) ∧
    ∀ us error, scanFrom file p line = .ok us →
      scanFrom file p (line ++ behind) = .error (.refused error) → p.line < error.line := by
  induction p, line using scanFrom.induct file with
  | case1 p =>
    refine ⟨?_, ?_, fun _ _ _ refused => line_lt_of_newline parted refused⟩
    · intro fault stopped
      rw [scanFrom] at stopped
      contradiction
    · intro us ts alone scanned
      rw [scanFrom] at alone
      obtain rfl := Except.ok.inj alone
      obtain ⟨rest, rfl⟩ := cut_of_newline parted inhabited scanned
      have noShift : Token.shift behind [⟨.finish, p.line, p.column⟩] = 0 := by
        simp [Token.shift, Lexeme.isComment]
      rw [noShift]
      exact ⟨rest.length, .lineEnd rfl⟩
  | case2 p c rest gap inductionHypothesis =>
    rw [List.cons_append, scanFrom, if_pos gap, scanFrom, if_pos gap]
    obtain ⟨stops, cuts, later⟩ := inductionHypothesis parted.tail
    exact ⟨stops, cuts, fun us error alone refused =>
      (p.precedes_next c).line_le.trans_lt (later us error alone refused)⟩
  | case3 p c rest noGap fault stopped =>
    obtain ⟨same, -⟩ | ⟨text, tail, -, found, -⟩ := lexemeAt_append parted
    · rw [List.cons_append, scanFrom, if_neg noGap, stopped, scanFrom, if_neg noGap, same, stopped]
      exact ⟨fun _ same => same, fun _ _ scanned => by contradiction,
        fun _ _ scanned => by contradiction⟩
    · rw [stopped] at found
      contradiction
  | case4 p c rest noGap lexeme more here others scannedRest inductionHypothesis =>
    have within := (spans_lexemeAt here).within
    have alone : scanFrom file p (c :: rest) = .ok (⟨lexeme, p.line, p.column⟩ :: others) := by
      rw [scanFrom, if_neg noGap, here]
      simp only [scannedRest]
    rw [alone]
    refine ⟨fun _ stopped => by contradiction, ?_⟩
    obtain ⟨same, plain⟩ | ⟨text, tail, rfl, isComment, longer⟩ := lexemeAt_append parted
    · obtain ⟨-, cuts, later⟩ := inductionHypothesis (parted.tail.drop more)
      have both : scanFrom file p (c :: rest ++ behind) =
          (scanFrom file (p.after (c :: rest.take more)) (rest.drop more ++ behind)).map
            (⟨lexeme, p.line, p.column⟩ :: ·) := by
        rw [List.cons_append, scanFrom, if_neg noGap, same, here]
        dsimp only
        rw [List.take_append_of_le_length within, List.drop_append_of_le_length within]
        cases scanFrom file (p.after (c :: rest.take more)) (rest.drop more ++ behind) <;> rfl
      rw [both]
      have plainToken : lexeme.isComment = true → behind.head? ≠ some '\r' := by
        cases lexeme with
        | comment text => exact fun _ => plain text more here
        | _ => exact fun isComment => by contradiction
      cases scannedBoth :
          scanFrom file (p.after (c :: rest.take more)) (rest.drop more ++ behind) with
      | ok others' =>
        refine ⟨fun us ts isAlone scanned => ?_, fun _ _ _ refused => by contradiction⟩
        obtain rfl := Except.ok.inj isAlone
        obtain rfl := Except.ok.inj scanned
        obtain ⟨gap, cut⟩ := cuts others others' scannedRest scannedBoth
        rw [Token.shift_cons plainToken]
        exact ⟨gap, .cons (inLine_of_parted parted here) cut⟩
      | error fault =>
        refine ⟨fun _ _ _ scanned => by contradiction, fun us error isAlone refused => ?_⟩
        obtain rfl := Except.error.inj refused
        exact (p.precedes_after c _).line_le.trans_lt (later others error scannedRest scannedBoth)
    · rw [here] at isComment
      obtain ⟨rfl, rfl⟩ := Prod.mk.inj (Except.ok.inj isComment)
      rw [List.drop_length, List.take_length, scanFrom] at scannedRest
      obtain rfl := Except.ok.inj scannedRest
      have partedEnd : Text.Parted [] ('\n' :: tail) :=
        ⟨List.not_mem_nil, .inr (.inl ⟨tail, rfl⟩), by simp⟩
      rw [scanFrom_return noGap longer]
      cases scanned : scanFrom file ((p.after (c :: rest)).next '\r') ('\n' :: tail) with
      | ok ts =>
        refine ⟨fun us ts isAlone same => ?_, fun _ _ _ refused => by contradiction⟩
        obtain rfl := Except.ok.inj isAlone
        obtain rfl := Except.ok.inj same
        obtain ⟨rest', rfl⟩ := cut_of_newline partedEnd (List.cons_ne_nil _ _) scanned
        exact ⟨rest'.length, .cons rfl (.lineEnd rfl)⟩
      | error fault =>
        refine ⟨fun _ _ _ scanned => by contradiction, fun us error isAlone refused => ?_⟩
        obtain rfl := Except.error.inj refused
        have further := ((p.precedes_after c rest).trans (Position.precedes_next _ '\r')).line_le
        exact further.trans_lt (line_lt_of_newline partedEnd scanned)
  | case5 p c rest noGap lexeme more here fault stoppedRest inductionHypothesis =>
    have within := (spans_lexemeAt here).within
    have alone : scanFrom file p (c :: rest) = .error fault := by
      rw [scanFrom, if_neg noGap, here]
      simp only [stoppedRest]
    rw [alone]
    refine ⟨fun given stopped => ?_, fun _ _ scanned => by contradiction,
      fun _ _ scanned => by contradiction⟩
    obtain rfl := Except.error.inj stopped
    obtain ⟨same, -⟩ | ⟨text, tail, -, isComment, -⟩ := lexemeAt_append parted
    · have both := (inductionHypothesis (parted.tail.drop more)).1 fault stoppedRest
      rw [List.cons_append, scanFrom, if_neg noGap, same, here]
      dsimp only
      rw [List.take_append_of_le_length within, List.drop_append_of_le_length within, both]
    · rw [here] at isComment
      obtain ⟨-, rfl⟩ := Prod.mk.inj (Except.ok.inj isComment)
      rw [List.drop_length, scanFrom] at stoppedRest
      contradiction

/-! ### Lines -/

/-- What had been read when the parser gave up, without its locations. The kind of the fragment
stays. -/
def Fragment.bare : Fragment → Fragment
  | expression e => expression e.bare
  | statement s => statement s.bare

/-- Parsers that give up alike do so for a fault of one kind, and have read the same but for
locations. -/
theorem Grammar.View.SameFault.reads {v : Grammar.View} {fault fault' : ParseFault}
    (same : v.SameFault fault fault') :
    fault.kind = fault'.kind ∧
      fault.fragment?.map Fragment.bare = fault'.fragment?.map Fragment.bare := by
  cases same with
  | unexpected | tooDeep => exact ⟨rfl, rfl⟩
  | missingOperand op same | unclosedGroup same | missingThen same =>
    exact ⟨rfl, congrArg (some ∘ Fragment.expression) same.bare⟩
  | repeatedElse same | missingEnd same =>
    exact ⟨rfl, congrArg (some ∘ Fragment.statement) same.bare⟩

/-- Parsers that give up alike say the same, unless it is two lexemes that are not expected. -/
theorem Grammar.View.SameFault.message {v : Grammar.View} {fault fault' : ParseFault}
    (same : v.SameFault fault fault') :
    fault.message = fault'.message ∨
      ∃ a b, v.alike a b ∧ fault = .unexpected a ∧ fault' = .unexpected b := by
  cases same with
  | unexpected alike => exact .inr ⟨_, _, alike, rfl, rfl⟩
  | missingOperand | unclosedGroup | missingThen | repeatedElse | missingEnd | tooDeep =>
    exact .inl rfl

namespace Cut

variable {shift gap : Nat} {ts us : List Token}

/-- Tokens that go together are at their fronts the same, or the end of the line. It is all that
a parser sees of the end of a line. -/
theorem front (cut : Cut shift gap ts us) :
    Grammar.front ts = Grammar.front us ∨
      ∃ line column, Grammar.front ts = ⟨.newline, line, column + shift⟩ ∧
        Grammar.front us = ⟨.finish, line, column⟩ := by
  cases cut with
  | @lineEnd line column => exact .inr ⟨line, column, rfl, rfl⟩
  | cons => exact .inl rfl

/-- The same lexeme stands in front of both, or the end of the line does. -/
theorem lexeme_front (cut : Cut shift gap ts us) :
    (Grammar.front us).lexeme = (Grammar.front ts).lexeme ∨
      (Grammar.front ts).lexeme = .newline ∧ (Grammar.front us).lexeme = .finish := by
  rcases cut.front with same | ⟨line, column, isNewline, isFinish⟩
  · exact .inl (congrArg Token.lexeme same.symm)
  · exact .inr ⟨congrArg Token.lexeme isNewline, congrArg Token.lexeme isFinish⟩

/-- Both begin with the same pair of symbols, or neither does: the end of the line is no symbol. -/
theorem isPair (cut : Cut shift gap ts us) (first second : Symbol) :
    Grammar.isPair first second us = Grammar.isPair first second ts := by
  cases cut with
  | @lineEnd line column rest => cases rest <;> simp [Grammar.isPair]
  | cons inLine later =>
    cases later with
    | lineEnd => simp [Grammar.isPair]
    | cons => rfl

theorem drop (cut : Cut shift gap ts us) (inLine : (Grammar.front ts).lexeme.endsLine = false) :
    Cut shift gap (ts.drop 1) (us.drop 1) := by
  cases cut with
  | lineEnd => contradiction
  | cons _ later => exact later

/-- What follows the line is all that one has more than the other. -/
theorem length (cut : Cut shift gap ts us) : ts.length = us.length + gap := by
  induction cut with
  | lineEnd length => simp [← length, Nat.add_comm]
  | cons _ _ inductionHypothesis =>
    rw [List.length_cons, List.length_cons, inductionHypothesis]
    omega

end Cut

/-- The tokens of a text and those of its first line, which a parser sees alike: it does not look
behind the end of the line. -/
def Grammar.View.firstLine (sheet other : Grammar.Sheet) (shift gap : Nat) : Grammar.View where
  sheet := sheet
  other := other
  Sees := Cut shift gap
  alike a b := b = a ∨ a = .newline ∧ b = .finish
  place _ := True
  gap := gap
  front := Cut.lexeme_front
  settles := by
    rintro a b (same | ⟨rfl, rfl⟩)
    · exact .inl same
    · exact .inr ⟨rfl, rfl⟩
  pairs := Cut.isPair
  goesOn := Cut.drop
  length := Cut.length
  located _ := trivial

/-- Whether two parse errors are one, but that the end of the line at which both show is a
newline for the first and the end of the text for the second: they are of one kind, say the
same, keep the same fragment and show at the same token. The texts differ only where they name
that end. -/
structure ParseError.SameButEnd (shift : Nat) (error error' : ParseError) : Prop where
  kind : error.fault.kind = error'.fault.kind
  fragment : error.fault.fragment?.map Fragment.bare = error'.fault.fragment?.map Fragment.bare
  message : error.fault.message = error'.fault.message ∨
    error.fault = .unexpected .newline ∧ error'.fault = .unexpected .finish
  token : error.token = error'.token ∨
    ∃ line column, error.token = some ⟨.newline, line, column + shift⟩ ∧
      error'.token = some ⟨.finish, line, column⟩

/-- Whether two results of reading a line are one, but for locations and for the end of the
line: the same tree, the same stop of the scanner, or the same error of the parser. Two stops of
the scanner are compared with their places. -/
inductive Line.SameOutcome (shift : Nat) :
    Except (ReadFault SourceError) Line → Except (ReadFault SourceError) Line → Prop where
  | read {line line' : Line} (same : line.bare = line'.bare) :
      SameOutcome shift (.ok line) (.ok line')
  | scan (fault : ReadFault ScanError) :
      SameOutcome shift (.error (fault.map .scan)) (.error (fault.map .scan))
  | parse {error error' : ParseError} (same : error.SameButEnd shift error') :
      SameOutcome shift (.error (.refused (.parse error))) (.error (.refused (.parse error')))

/-- Parsers that give up alike report the same error, but for the end of the line. -/
theorem sameButEnd_of_sameFault {sheet other : Grammar.Sheet} {shift gap : Nat}
    {fault fault' : ParseFault} {ts us : List Token}
    (same : (Grammar.View.firstLine sheet other shift gap).SameFault fault fault')
    (cut : Cut shift gap ts us) :
    (Grammar.Stuck.error ⟨fault, ts⟩).SameButEnd shift (Grammar.Stuck.error ⟨fault', us⟩) := by
  obtain ⟨kind, fragment⟩ := same.reads
  have tokens : some (Grammar.front ts) = some (Grammar.front us) ∨
      ∃ line column, some (Grammar.front ts) = some ⟨.newline, line, column + shift⟩ ∧
        some (Grammar.front us) = some ⟨.finish, line, column⟩ := by
    rcases cut.front with same | ⟨line, column, isNewline, isFinish⟩
    · exact .inl (congrArg some same)
    · exact .inr ⟨line, column, congrArg some isNewline, congrArg some isFinish⟩
  constructor
  · exact kind
  · exact fragment
  · obtain equal | ⟨a, b, rfl | ⟨rfl, rfl⟩, rfl, rfl⟩ := same.message
    · exact .inl equal
    · exact .inl rfl
    · exact .inr ⟨rfl, rfl⟩
  · exact tokens

theorem Line.SameOutcome.refl (shift : Nat) (result : Except (ReadFault SourceError) Line) :
    Line.SameOutcome shift result result := by
  match result with
  | .ok line => exact .read rfl
  | .error (.refused (.scan error)) => exact .scan (.refused error)
  | .error (.refused (.parse error)) => exact .parse ⟨rfl, rfl, .inl rfl, .inl rfl⟩
  | .error (.overlong digits) => exact .scan (.overlong digits)

/-- What is refused of the tokens of a line, as it is reported of the line. -/
abbrev ParseError.asRead (error : ParseError) : ReadFault SourceError := .refused (.parse error)

/-- What follows the end of a line is left out when the line is read of tokens. The parser stops
at the newline, whatever the tokens behind it are. -/
theorem Line.sameOutcome_ofTokens {sheet other : Grammar.Sheet} {shift gap : Nat}
    {ts us : List Token} (number : sheet.firstLine = other.firstLine) (cut : Cut shift gap ts us) :
    Line.SameOutcome shift ((Line.ofTokens sheet ts).mapError ParseError.asRead)
      ((Line.ofTokens other us).mapError ParseError.asRead) := by
  have agree : (Grammar.View.firstLine sheet other shift gap).Agree _ _
      (Grammar.statements sheet ts) (Grammar.statements other us) :=
    Grammar.View.respects_statements (.firstLine sheet other shift gap) cut
  unfold Line.ofTokens
  generalize Grammar.statements sheet ts = read, Grammar.statements other us = read' at agree ⊢
  cases agree with
  | read same =>
    refine .read ?_
    rw [Line.bare, Line.bare, same.bare, number]
  | stuck same cutRest => exact .parse (sameButEnd_of_sameFault same cutRest)

theorem Line.parse_of_scan {text file : String} {number : Int} {tokens : List Token}
    (scanned : scan file text = .ok tokens) :
    Line.parse text file number =
      (Line.ofTokens ⟨file, (Text.lines text).map Text.strip, number⟩ tokens).mapError
        ParseError.asRead := by
  unfold Line.parse
  rw [scanned]
  dsimp only
  split
  · next read =>
    rw [read]
    rfl
  · next read =>
    rw [read]
    rfl

/-- By how many columns the end of the first line of a text is further right in the text than by
itself: one if a comment is in front of a carriage return and a line feed, and none otherwise.
The comment then takes the carriage return too. -/
def Text.shift (file text : String) : Nat :=
  match scan file (firstLine text) with
  | .ok us => Token.shift (behindFirstLine text) us
  | .error _ => 0

/-- A text is read as its first line by itself, unless that can be scanned and what follows it
cannot: both give the same tree, but for locations, or the same error. If the error is at the
end of the line, the text has a newline there and the line by itself has its end, so the two
are named differently, and a comment in front of a carriage return moves the newline by a
column.

If the first line can be scanned and what follows it cannot, the text gives what stops the scan,
whatever the first line gives by itself. A character that is refused then is in a later line. -/
theorem Line.parse_firstLine (text file : String) (number : Int) :
    Line.SameOutcome (Text.shift file text) (Line.parse text file number)
      (Line.parse (Text.firstLine text) file number) ∨
    ∃ fault, (∃ us, scan file (Text.firstLine text) = .ok us) ∧ scan file text = .error fault ∧
      Line.parse text file number = .error (fault.map .scan) ∧
      ∀ error, fault = .refused error → 1 < error.line := by
  obtain ⟨behind, whole, parted⟩ := Text.parted_beforeNewline text.toList
  have isBehind : Text.behindFirstLine text = behind :=
    (congrArg (List.drop (Text.beforeNewline text.toList).length) whole).trans List.drop_left
  by_cases inhabited : behind = []
  · rw [inhabited, List.append_nil] at whole
    have alone : Text.firstLine text = text := by
      rw [Text.firstLine, ← whole, String.ofList_toList]
    rw [alone]
    exact .inl (.refl _ _)
  · have first : (Text.firstLine text).toList = Text.beforeNewline text.toList :=
      String.toList_ofList
    obtain ⟨stops, cuts, later⟩ := cut_scanFrom file ⟨1, 1⟩ parted inhabited
    rw [← whole, ← first] at stops cuts later
    cases alone : scan file (Text.firstLine text) with
    | error fault =>
      have both : scan file text = .error fault := stops fault alone
      simp only [Line.parse, alone, both]
      exact .inl (.scan fault)
    | ok us =>
      cases scanned : scan file text with
      | ok ts =>
        obtain ⟨gap, cut⟩ := cuts us ts alone scanned
        have shift : Text.shift file text = Token.shift behind us := by
          rw [Text.shift, alone, isBehind]
        rw [shift, Line.parse_of_scan scanned, Line.parse_of_scan alone]
        exact .inl (Line.sameOutcome_ofTokens rfl cut)
      | error fault =>
        have failed : Line.parse text file number = .error (fault.map .scan) := by
          simp only [Line.parse, scanned]
        refine .inr ⟨fault, ⟨us, rfl⟩, rfl, failed, ?_⟩
        rintro error rfl
        exact later us error alone scanned

/-- An error behind a comment, in front of a carriage return, is one column further right. -/
theorem Line.parse_firstLine_commented :
    (∃ ts, scan "" "if a then //\r\nb=1" = .ok ts) ∧ Text.shift "" "if a then //\r\nb=1" = 1 ∧
      Line.SameOutcome 1 (Line.parse "if a then //\r\nb=1" "" 1)
        (Line.parse "if a then //" "" 1) := by
  have scans : ∃ ts, scan "" "if a then //\r\nb=1" = .ok ts := by
    obtain ⟨ts, scanned, _⟩ := exists_ok_of_any (x := scan "" "if a then //\r\nb=1")
      (f := fun _ => true) (by decide +kernel)
    exact ⟨ts, scanned⟩
  have isFirst : Text.firstLine "if a then //\r\nb=1" = "if a then //" := by decide +kernel
  have shift : Text.shift "" "if a then //\r\nb=1" = 1 := by decide +kernel
  rcases Line.parse_firstLine "if a then //\r\nb=1" "" 1 with same | ⟨_, _, stopped, _⟩
  · rw [shift, isFirst] at same
    exact ⟨scans, shift, same⟩
  · obtain ⟨ts, scanned⟩ := scans
    exact absurd (scanned.symm.trans stopped) (by simp)

/-- A character behind the first line can be all that is reported of a text, although the line is
read by itself. -/
theorem Line.parse_firstLine_refused :
    ¬ ∀ (text file : String) (number : Int),
      (∃ line, Line.parse (Text.firstLine text) file number = .ok line) →
        ∃ line, Line.parse text file number = .ok line := by
  intro ignored
  obtain ⟨alone, read, _⟩ := exists_ok_of_any (x := Line.parse (Text.firstLine "a = 1\n$") "" 1)
    (f := fun _ => true) (by decide +kernel)
  obtain ⟨error, refused, _⟩ := exists_error_of_any (x := Line.parse "a = 1\n$" "" 1)
    (f := fun fault => fault = .refused (.scan ⟨"", 2, 1, '$'⟩)) (by decide +kernel)
  obtain ⟨line, readToo⟩ := ignored "a = 1\n$" "" 1 ⟨alone, read⟩
  exact absurd (refused.symm.trans readToo) (by simp)

end YololChip
