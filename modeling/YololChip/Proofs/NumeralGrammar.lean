import YololChip.Proofs.ExactValues
import YololChip.Proofs.PrintedLexemes
import YololChip.Proofs.Spans
import YololChip.Source.Program

/-!
# The grammar of numerals

A numeral is a sign, digits, and perhaps a point with more digits, with at least one digit in all.
Read as fractions, all its digits count ones of the place of the last one. Reading gives every
numeral the number of its fraction, unless there are too many digits before the point, and refuses
each text that is none.

A scanner takes digits and points for a number as long as they stand behind a digit, be they a
numeral or not. So such a row never stops it, unless it is a numeral with too many digits, and a
point in front of all digits always does.
-/

namespace YololChip

/-- A text that writes a number, in its parts. The point is there if there are decimals behind
it, and these may be none. There is a digit on one side of the point at least, and there may be
any number of them. -/
structure Numeral where
  negative : Bool
  whole : List Char
  decimals? : Option (List Char)
  digits : ∀ c ∈ whole ++ decimals?.getD [], c.isDigit = true
  inhabited : whole ++ decimals?.getD [] ≠ []

namespace Numeral

def decimals (n : Numeral) : List Char := n.decimals?.getD []

/-- What stands behind the digits of the whole part. -/
def tail (n : Numeral) : List Char :=
  match n.decimals? with
  | none => []
  | some decimals => '.' :: decimals

def text (n : Numeral) : String :=
  String.ofList ((if n.negative then ['-'] else []) ++ (n.whole ++ n.tail))

/-- The fraction of a numeral without its sign: its digits are those of a whole number, in units
of the place of the last one. Nothing is cut here. -/
def magnitude (n : Numeral) : ℚ :=
  Nat.ofDigitChars 10 (n.whole ++ n.decimals) 0 / 10 ^ n.decimals.length

/-- The fraction that a numeral writes. It is exact, and may lie outside of the range of
numbers. -/
def value (n : Numeral) : ℚ := if n.negative then -n.magnitude else n.magnitude

/-- What stands behind the whole part is nothing, or a point with the decimals. -/
theorem tail_eq (n : Numeral) :
    n.tail = [] ∧ n.decimals = [] ∨ n.tail = '.' :: n.decimals := by
  unfold tail decimals
  cases n.decimals? with
  | none => exact .inl ⟨rfl, rfl⟩
  | some decimals => exact .inr rfl

theorem isDigit_whole (n : Numeral) : ∀ c ∈ n.whole, c.isDigit = true :=
  fun c member => n.digits c (List.mem_append_left _ member)

theorem isDigit_decimals (n : Numeral) : ∀ c ∈ n.decimals, c.isDigit = true :=
  fun c member => n.digits c (List.mem_append_right _ member)

end Numeral

namespace Fixed

/-! ### Values of digits -/

/-- Digits in front of others count as often as there are numbers of as many digits. -/
theorem digitsValue_append (front back : List Char) :
    digitsValue (front ++ back) = digitsValue front * 10 ^ back.length + digitsValue back := by
  simp only [digitsValue_eq]
  rw [Nat.ofDigitChars_append, Nat.ofDigitChars_eq_ofDigitChars_zero, Nat.mul_comm]

/-- Digits write a number that is below the first with one digit more. It bounds the value by
the number of digits alone. -/
theorem digitsValue_lt {digits : List Char} (all : ∀ c ∈ digits, c.isDigit = true) :
    digitsValue digits < 10 ^ digits.length := by
  induction digits with
  | nil => decide
  | cons c digits inductionHypothesis =>
    have later := inductionHypothesis fun d member => all d (List.mem_cons_of_mem _ member)
    have first : digitValue c ≤ 9 := by
      have digit := all c List.mem_cons_self
      simp only [Char.isDigit, Bool.and_eq_true, decide_eq_true_eq] at digit
      have small : c.toNat ≤ 57 := digit.2
      have zero : '0'.toNat = 48 := rfl
      rw [digitValue, zero]
      omega
    have split := digitsValue_append [c] digits
    have single : digitsValue [c] = digitValue c := by simp [digitsValue]
    rw [List.singleton_append, single] at split
    calc digitsValue (c :: digits)
        = digitValue c * 10 ^ digits.length + digitsValue digits := split
      _ < digitValue c * 10 ^ digits.length + 10 ^ digits.length := Nat.add_lt_add_left later _
      _ ≤ 9 * 10 ^ digits.length + 10 ^ digits.length :=
        Nat.add_le_add_right (Nat.mul_le_mul_right _ first) _
      _ = 10 ^ (c :: digits).length := by rw [List.length_cons, pow_succ]; omega

/-- The first four decimals are the ten-thousandths that are in all of them.

Proof: with four zeros behind them the decimals are their first four digits and then as many as
there were decimals. The later ones do not make one more of the fourth. -/
theorem decimalsValue_eq {decimals : List Char} (all : ∀ c ∈ decimals, c.isDigit = true) :
    decimalsValue decimals = digitsValue decimals * 10 ^ 4 / 10 ^ decimals.length := by
  have filled : ∀ c ∈ decimals ++ ['0', '0', '0', '0'], c.isDigit = true := by
    intro c member
    rcases List.mem_append.mp member with decimal | zero
    · exact all c decimal
    · simp only [List.mem_cons, List.not_mem_nil, or_false, or_self] at zero
      rw [zero]
      rfl
  have length : ((decimals ++ ['0', '0', '0', '0']).drop 4).length = decimals.length := by simp
  have behind : digitsValue ((decimals ++ ['0', '0', '0', '0']).drop 4) < 10 ^ decimals.length := by
    rw [← length]
    exact digitsValue_lt fun c member => filled c (List.mem_of_mem_drop member)
  have split : digitsValue decimals * 10 ^ 4 =
      decimalsValue decimals * 10 ^ decimals.length +
        digitsValue ((decimals ++ ['0', '0', '0', '0']).drop 4) :=
    calc digitsValue decimals * 10 ^ 4
        = digitsValue (decimals ++ ['0', '0', '0', '0']) := by
          rw [digitsValue_append, show digitsValue ['0', '0', '0', '0'] = 0 from rfl, Nat.add_zero,
            List.length_cons, List.length_cons, List.length_cons, List.length_singleton]
      _ = digitsValue ((decimals ++ ['0', '0', '0', '0']).take 4 ++
            (decimals ++ ['0', '0', '0', '0']).drop 4) := by rw [List.take_append_drop]
      _ = _ := by rw [digitsValue_append, length, decimalsValue]
  rw [split, Nat.add_comm, Nat.add_mul_div_right _ _ (by positivity), Nat.div_eq_of_lt behind,
    Nat.zero_add]

/-! ### Reading -/

/-- The units of a numeral without its sign, cut to whole ones. -/
theorem towardZero_magnitude (n : Numeral) :
    towardZero (n.magnitude * scale) =
      (digitsValue n.whole * 10000 + decimalsValue n.decimals : ℕ) := by
  have exactly : n.magnitude * scale =
      ((digitsValue (n.whole ++ n.decimals) * 10 ^ 4 : ℕ) : ℤ) /
        ((10 ^ n.decimals.length : ℕ) : ℤ) := by
    rw [Numeral.magnitude, ← digitsValue_eq, scale]
    push_cast
    ring
  have places : 0 < 10 ^ n.decimals.length := by positivity
  rw [exactly, towardZero_div, ← Int.ofNat_tdiv, digitsValue_append, Nat.add_mul,
    Nat.mul_right_comm, Nat.add_comm, Nat.add_mul_div_right _ _ places,
    ← decimalsValue_eq n.isDigit_decimals, Nat.add_comm, show 10 ^ 4 = 10000 from rfl]

/-- The digits that are counted of a numeral are those of its whole part. Digits behind the
point are not counted, however many there are. -/
theorem wholeDigits_numeral (n : Numeral) : wholeDigits (n.whole ++ n.tail) = n.whole :=
  wholeDigits_append n.isDigit_whole (n.tail_eq.imp And.left fun point => ⟨_, point⟩)

/-- Without its sign a numeral is read as the units of its digits, however many they are. -/
theorem unsignedUnits_numeral (n : Numeral) : unsignedUnits (n.whole ++ n.tail) =
    .ok (digitsValue n.whole * 10000 + decimalsValue n.decimals) :=
  unsignedUnits_append n.inhabited n.isDigit_whole n.isDigit_decimals n.tail_eq

/-- A numeral whose whole part is not too long is read as the number of its fraction. -/
theorem parse_numeral (n : Numeral) (few : n.whole.length ≤ mostDigits) :
    parse n.text = .ok (ofExact n.value) := by
  have counted : (wholeDigits (n.whole ++ n.tail)).length ≤ mostDigits := by
    rwa [wholeDigits_numeral]
  rw [Numeral.text, parse_of_units n.negative (unsignedUnits_numeral n) counted, ofExact,
    Numeral.value]
  cases n.negative with
  | true =>
    simp only [if_true, neg_mul, towardZero_neg, towardZero_magnitude]
  | false =>
    simp only [Bool.false_eq_true, if_false, towardZero_magnitude]

/-- At a numeral whose whole part is too long reading breaks off. That is before its value would
be looked at, so zeros in front count too. -/
theorem parse_longNumeral (n : Numeral) (many : mostDigits < n.whole.length) :
    parse n.text = .error (.overlong n.whole.length) := by
  have read := unsignedUnits_numeral n
  rw [Numeral.text]
  cases n.negative with
  | true => simp [parse, read, wholeDigits_numeral, many]
  | false =>
    have noSign := noSign_of_unsignedUnits read
    simp [parse, read, wholeDigits_numeral, many]

/-- What can be read without a sign are digits, and perhaps a point and more digits. -/
theorem exists_numeral_of_unsignedUnits (negative : Bool) {cs : List Char} {units : Nat}
    (read : unsignedUnits cs = .ok units) :
    ∃ n : Numeral, n.whole = wholeDigits cs ∧
      n.text = String.ofList ((if negative then ['-'] else []) ++ cs) := by
  have shape : wholeDigits cs ++ cs.dropWhile (· != '.') = cs :=
    List.takeWhile_append_dropWhile
  simp only [unsignedUnits] at read
  split at read
  · contradiction
  split at read
  · contradiction
  next notNone =>
  split at read
  · next digits =>
    rw [Bool.and_eq_true, List.all_eq_true, List.all_eq_true] at digits
    cases behind : cs.dropWhile (· != '.') with
    | nil =>
      rw [behind] at digits notNone shape
      refine ⟨⟨negative, wholeDigits cs, none, ?_, ?_⟩, rfl, ?_⟩
      · simpa using digits.1
      · simpa using notNone
      · simp only [Numeral.text, Numeral.tail, shape]
    | cons c decimals =>
      have point : c = '.' := by
        have stops := List.head?_dropWhile_not (· != '.') cs
        simpa [behind] using stops
      rw [behind] at digits notNone shape
      refine ⟨⟨negative, wholeDigits cs, some decimals, ?_, ?_⟩, rfl, ?_⟩
      · intro d member
        exact (List.mem_append.mp member).elim (digits.1 d) (digits.2 d)
      · simpa using notNone
      · rw [point] at shape
        simp only [Numeral.text, Numeral.tail, shape]
  · contradiction

/-- A text is refused, and reported as it is, or it is a numeral. No text is refused that writes
a number. -/
theorem refused_or_numeral (text : String) :
    (∃ fault, parse text = .error (.refused ⟨fault, text⟩)) ∨ ∃ n : Numeral, n.text = text := by
  -- behind the sign the text is refused, or its characters are those of a numeral
  have cases_units (negative : Bool) (cs : List Char)
      (shape : (if negative then ['-'] else []) ++ cs = text.toList) :
      (∃ fault, unsignedUnits cs = .error fault) ∨ ∃ n : Numeral, n.text = text := by
    cases read : unsignedUnits cs with
    | error fault => exact .inl ⟨fault, rfl⟩
    | ok units =>
      obtain ⟨n, -, same⟩ := exists_numeral_of_unsignedUnits negative read
      exact .inr ⟨n, by rw [same, shape, String.ofList_toList]⟩
  unfold parse
  split
  · next cs shape =>
    exact (cases_units true cs shape.symm).imp_left fun ⟨fault, same⟩ => ⟨fault, by simp [same]⟩
  · exact (cases_units false text.toList rfl).imp_left
      fun ⟨fault, same⟩ => ⟨fault, by simp only [same]⟩

theorem unsigned_of_text {n : Numeral} {c : Char} {run : List Char} (digit : c.isDigit = true)
    (same : n.text = String.ofList (c :: run)) :
    n.negative = false ∧ n.whole ++ n.tail = c :: run := by
  have chars : (if n.negative then ['-'] else []) ++ (n.whole ++ n.tail) = c :: run := by
    simpa [Numeral.text] using congrArg String.toList same
  cases sign : n.negative with
  | true =>
    rw [sign] at chars
    obtain rfl := (List.cons.inj chars).1
    contradiction
  | false => exact ⟨rfl, by simpa [sign] using chars⟩

/-- Digits and points behind a digit have a value, or they are a numeral with too many digits before
its point. -/
theorem ofLiteral_or_long {c : Char} (run : List Char) (digit : c.isDigit = true) :
    (∃ value, ofLiteral (String.ofList (c :: run)) = .ok value) ∨
    ∃ n : Numeral, n.negative = false ∧ n.whole ++ n.tail = c :: run ∧
      mostDigits < n.whole.length ∧
      ofLiteral (String.ofList (c :: run)) = .error n.whole.length := by
  rcases refused_or_numeral (String.ofList (c :: run)) with ⟨fault, refused⟩ | ⟨n, same⟩
  · exact .inl ⟨zero, by rw [ofLiteral, refused]⟩
  · obtain ⟨positive, unsigned⟩ := unsigned_of_text digit same
    rcases Nat.lt_or_ge mostDigits n.whole.length with many | few
    · exact .inr ⟨n, positive, unsigned, many, by rw [← same, ofLiteral, parse_longNumeral n many]⟩
    · exact .inl ⟨_, by rw [← same, ofLiteral, parse_numeral n few]⟩

/-- Digits and points behind a digit have a value, unless the digits before the first point are too
many. -/
theorem exists_ofLiteral {c : Char} {run : List Char} (digit : c.isDigit = true)
    (few : (wholeDigits (c :: run)).length ≤ mostDigits) :
    ∃ value, ofLiteral (String.ofList (c :: run)) = .ok value := by
  rcases ofLiteral_or_long run digit with found | ⟨n, -, unsigned, many, -⟩
  · exact found
  · rw [← unsigned, wholeDigits_numeral] at few
    exact absurd few (Nat.not_le.mpr many)

end Fixed

/-! ### Scanning -/

/-- Digits and points behind a digit that have a value are one token. What stands behind them is
scanned as if it stood alone. -/
theorem scanFrom_digits {file : String} {p : Position} {c : Char} {run rest : List Char}
    {value : Fixed} (digit : c.isDigit = true) (inside : ∀ d ∈ run, continuesNumber d = true)
    (ends : ∀ d ∈ rest.head?, continuesNumber d = false)
    (read : Fixed.ofLiteral (String.ofList (c :: run)) = .ok value) :
    scanFrom file p (c :: run ++ rest) =
      (scanFrom file ⟨p.line, p.column + (c :: run).length⟩ rest).map
        (⟨.number value, p.line, p.column⟩ :: ·) := by
  have taken : (run ++ rest).takeWhile continuesNumber = run := takeWhile_append_stop inside ends
  have oneLine : ∀ d ∈ c :: run, d ≠ '\n' := by
    intro d member
    rcases List.mem_cons.mp member with rfl | later
    · exact (isDigit_only digit).2.1
    · rintro rfl
      exact absurd (inside _ later) (by decide)
  obtain ⟨-, -, -, -, noGap⟩ := isDigit_only digit
  rw [List.cons_append, scanFrom]
  simp only [noGap, Bool.false_eq_true, if_false, lexemeAt_digit digit, taken, read, List.take_left,
    List.drop_left, Position.after_of_oneLine p oneLine]
  cases scanFrom file ⟨p.line, p.column + (c :: run).length⟩ rest <;> rfl

/-- A whole number of so many digits, which are all ones. No leading zero makes it shorter than
it looks. -/
def ones (count : Nat) : String := String.ofList (List.replicate count '1')

/-- More ones than are read of a whole number have no value. -/
theorem Fixed.ofLiteral_ones {count : Nat} (many : mostDigits < count) :
    ofLiteral (ones count) = .error count := by
  have digits : ∀ c ∈ List.replicate count '1' ++ (none : Option (List Char)).getD [],
      c.isDigit = true := by
    intro c member
    rw [Option.getD_none, List.append_nil] at member
    rw [List.eq_of_mem_replicate member]
    rfl
  have inhabited : List.replicate count '1' ++ (none : Option (List Char)).getD [] ≠ [] := by
    rw [Option.getD_none, List.append_nil, Ne, List.replicate_eq_nil_iff]
    exact Nat.ne_of_gt (Nat.zero_lt_of_lt many)
  let n : Numeral := ⟨false, List.replicate count '1', none, digits, inhabited⟩
  have length : n.whole.length = count := List.length_replicate
  have text : n.text = ones count := by simp [n, Numeral.text, Numeral.tail, ones]
  have broken := parse_longNumeral n (length.symm ▸ many)
  rw [text, length] at broken
  rw [ofLiteral, broken]

/-- Scanning breaks off at them, wherever they stand at the end of a text. -/
theorem scanFrom_ones (file : String) (p : Position) {count : Nat} (many : mostDigits < count) :
    scanFrom file p (ones count).toList = .error (.overlong count) := by
  obtain ⟨more, rfl⟩ : ∃ more, count = more + 1 :=
    ⟨count - 1, (Nat.succ_pred_eq_of_pos (Nat.zero_lt_of_lt many)).symm⟩
  have taken : (List.replicate more '1').takeWhile continuesNumber = List.replicate more '1' := by
    rw [List.takeWhile_replicate, if_pos (by decide)]
  have here : lexemeAt '1' (List.replicate more '1') = .error (.overlong (more + 1)) := by
    rw [lexemeAt_digit rfl, taken]
    have broken := Fixed.ofLiteral_ones many
    rw [ones, List.replicate_succ] at broken
    rw [broken]
  rw [ones, String.toList_ofList, List.replicate_succ, scanFrom, if_neg (by decide), here]
  rfl

theorem scan_ones (file : String) {count : Nat} (many : mostDigits < count) :
    scan file (ones count) = .error (.overlong count) := scanFrom_ones file _ many

/-- The source that assigns a whole number of so many digits. -/
def assignOnes (count : Nat) : String := "a=" ++ ones count

/-- Nor has a text that assigns them: scanning breaks off behind its first two tokens. -/
theorem scan_assignOnes (file : String) {count : Nat} (many : mostDigits < count) :
    scan file (assignOnes count) = .error (.overlong count) := by
  have chars : (assignOnes count).toList = 'a' :: '=' :: (ones count).toList := by
    simp [assignOnes]
  have name : lexemeAt 'a' ('=' :: (ones count).toList) = .ok (.name "a", 0) := by
    rw [lexemeAt_startsName rfl]
    rfl
  have sign : lexemeAt '=' (ones count).toList = .ok (.symbol .equals, 0) :=
    lexemeAt_symbol (s := .equals) (by simp [Symbol.char])
  rw [scan, chars, scanFrom, if_neg (by decide), name]
  simp only [List.take_zero, List.drop_zero]
  rw [scanFrom, if_neg (by decide), sign]
  simp only [List.take_zero, List.drop_zero, scanFrom_ones file _ many]

theorem Line.parse_assignOnes (file : String) (number : Int) {count : Nat}
    (many : mostDigits < count) :
    Line.parse (assignOnes count) file number = .error (.overlong count) := by
  rw [Line.parse, scan_assignOnes file many]
  rfl

theorem scanFrom_point (file : String) (p : Position) (rest : List Char) :
    scanFrom file p ('.' :: rest) = .error (.refused ⟨file, p.line, p.column, '.'⟩) := by
  have noSymbol : Symbol.ofChar? '.' = none := by decide
  have refused : lexemeAt '.' rest = .error (.refused ()) := by
    simp [lexemeAt, noSymbol, startsName]
  rw [scanFrom]
  simp only [refused]
  rfl

/-- Numerals are read, and they are all that is read: the number is that of the fraction, cut
toward zero and then moved into the range. As the text of a number in a source, what is no numeral
is zero. A scanner stops at no row of digits and points that starts with a digit, and at each that
starts with a point.

All this is so as long as no more digits stand before the point than are read of a whole number.
Of numerals with more of them there is no value, and reading breaks off. -/
theorem numerals_read :
    (∀ n : Numeral, n.whole.length ≤ mostDigits →
      Fixed.parse n.text = .ok (.ofExact n.value) ∧
        Fixed.ofLiteral n.text = .ok (.ofExact n.value)) ∧
    (∀ text, (∀ n : Numeral, n.text ≠ text) →
      (∃ fault, Fixed.parse text = .error (.refused ⟨fault, text⟩)) ∧
        Fixed.ofLiteral text = .ok .zero) ∧
    (∀ file p c run rest, c.isDigit = true → (∀ d ∈ run, continuesNumber d = true) →
      (∀ d ∈ rest.head?, continuesNumber d = false) →
      (Fixed.wholeDigits (c :: run)).length ≤ mostDigits →
      ∃ value, Fixed.ofLiteral (String.ofList (c :: run)) = .ok value ∧
        scanFrom file p (c :: run ++ rest) =
          (scanFrom file ⟨p.line, p.column + (c :: run).length⟩ rest).map
            (⟨.number value, p.line, p.column⟩ :: ·)) ∧
    (∀ file p rest,
      scanFrom file p ('.' :: rest) = .error (.refused ⟨file, p.line, p.column, '.'⟩)) ∧
    ∀ n : Numeral, mostDigits < n.whole.length →
      Fixed.parse n.text = .error (.overlong n.whole.length) ∧
        Fixed.ofLiteral n.text = .error n.whole.length := by
  refine ⟨?_, ?_, ?_, scanFrom_point, ?_⟩
  · intro n few
    have read := Fixed.parse_numeral n few
    exact ⟨read, by rw [Fixed.ofLiteral, read]⟩
  · intro text noNumeral
    rcases Fixed.refused_or_numeral text with ⟨fault, refused⟩ | ⟨n, same⟩
    · exact ⟨⟨fault, refused⟩, by rw [Fixed.ofLiteral, refused]⟩
    · exact absurd same (noNumeral n)
  · intro file p c run rest digit inside ends few
    obtain ⟨value, read⟩ := Fixed.exists_ofLiteral digit few
    exact ⟨value, read, scanFrom_digits digit inside ends read⟩
  · intro n many
    have broken := Fixed.parse_longNumeral n many
    exact ⟨broken, by rw [Fixed.ofLiteral, broken]⟩

/-- A row with two points is no numeral, so it is zero, and one token all the same. -/
theorem numerals_read_twoPoints :
    (∀ n : Numeral, n.text ≠ "1.2.3") ∧
    ((∃ fault, Fixed.parse "1.2.3" = .error (.refused ⟨fault, "1.2.3"⟩)) ∧
      Fixed.ofLiteral "1.2.3" = .ok .zero) ∧
    scanFrom "chip" ⟨1, 1⟩ "1.2.3".toList =
      .ok [⟨.number .zero, 1, 1⟩, ⟨.finish, 1, 6⟩] := by
  have refused : Fixed.parse "1.2.3" = .error (.refused ⟨.tooManyPoints, "1.2.3"⟩) := by decide
  have noNumeral (n : Numeral) : n.text ≠ "1.2.3" := by
    intro same
    rcases Nat.lt_or_ge mostDigits n.whole.length with many | few
    · have broken := (numerals_read.2.2.2.2 n many).1
      rw [same, refused] at broken
      cases broken
    · have read := (numerals_read.1 n few).1
      rw [same, refused] at read
      contradiction
  have isZero := numerals_read.2.1 _ noNumeral
  have inside : ∀ d ∈ ['.', '2', '.', '3'], continuesNumber d = true := List.all_eq_true.mp rfl
  obtain ⟨value, read, scanned⟩ := numerals_read.2.2.1 "chip" ⟨1, 1⟩ '1' ['.', '2', '.', '3'] []
    rfl inside (by simp) (by decide)
  obtain rfl := Except.ok.inj (isZero.2.symm.trans read)
  rw [scanFrom] at scanned
  exact ⟨noNumeral, isZero, scanned⟩

/-- A point before all digits is part of a numeral and yet starts no token. -/
theorem point_first_refused :
    ".5".toList.all continuesNumber = true ∧ Fixed.parse ".5" = .ok (.ofUnits 5000) ∧
      ¬ ∃ tokens, scan "chip" ".5" = .ok tokens := by
  have refused : scan "chip" ".5" = .error (.refused ⟨"chip", 1, 1, '.'⟩) := scanFrom_point _ _ _
  refine ⟨by decide, by decide, ?_⟩
  rintro ⟨tokens, scanned⟩
  rw [refused] at scanned
  contradiction

end YololChip
