import YololChip.Json.Reader
import YololChip.Json.Writer

/-!
# Written JSON is read as what was written

A value that is built from texts, lists and objects, and whose objects name no field
twice, is read back from its written form, whatever the indentation. The reader
refuses what nests too deep, so the nesting of the value is the one condition.

A text is read character by character: an escape stands for the character that was
escaped, and two escaped halves stand for the one character beyond the sixteen-bit
units. Lists and objects are read part by part, because the layout puts nothing
between two parts but blanks and one comma.
-/

namespace YololChip.Json

mutual

/-- A value built from texts, lists and objects in which no name occurs twice. Documents of
programs are such; numbers and truth values are left out because no part of these documents is
one. -/
def Plain : Json → Prop
  | text _ => True
  | list items => PlainItems items
  | object fields => (fields.map Prod.fst).Nodup ∧ PlainFields fields
  | _ => False

def PlainItems : List Json → Prop
  | [] => True
  | item :: items => Plain item ∧ PlainItems items

def PlainFields : List (String × Json) → Prop
  | [] => True
  | (_, value) :: fields => Plain value ∧ PlainFields fields

end

mutual

/-- How deep lists and objects nest in a value. A value that is neither has no depth. -/
def depth : Json → Nat
  | list items => depthItems items + 1
  | object fields => depthFields fields + 1
  | _ => 0

def depthItems : List Json → Nat
  | [] => 0
  | item :: items => max item.depth (depthItems items)

def depthFields : List (String × Json) → Nat
  | [] => 0
  | (_, value) :: fields => max value.depth (depthFields fields)

end

/-! ### Texts -/

theorem hexValue?_digitChar {d : Nat} (small : d < 16) : hexValue? d.digitChar = some d := by
  have all : ∀ d < 16, hexValue? d.digitChar = some d := by decide
  exact all d small

theorem hexDigits_four (unit : Nat) :
    Text.hexDigits 4 unit =
      [(unit / 4096 % 16).digitChar, (unit / 256 % 16).digitChar, (unit / 16 % 16).digitChar,
        (unit % 16).digitChar] := by
  simp [Text.hexDigits, Nat.div_div_eq_div_mul]

theorem hexNumber?_hexDigits {unit : Nat} (small : unit < 0x10000) :
    hexNumber? (Text.hexDigits 4 unit) = some unit := by
  have digit (n : Nat) : hexValue? (n % 16).digitChar = some (n % 16) :=
    hexValue?_digitChar (Nat.mod_lt _ (by decide))
  simp [hexDigits_four, hexNumber?, digit]
  omega

/-- An escaped unit that is no half of a pair is read as its character. -/
theorem readUnit_unit {unit : Nat} {tail : List Char} (small : unit < 0x10000)
    (noHigh : isHighHalf unit = false) (noLow : isLowHalf unit = false) (more : tail ≠ []) :
    readUnit ('u' :: (Text.hexDigits 4 unit ++ tail)) = .ok (Char.ofNat unit, tail) := by
  have number := hexNumber?_hexDigits small
  rw [hexDigits_four] at number ⊢
  simp [readUnit, number, noHigh, noLow, more, unitChar]

/-- Two escaped halves are read as the one character that they make. Neither half by itself is
the code point of a character. -/
theorem readUnit_pair {high low : Nat} {tail : List Char} (isHigh : isHighHalf high = true)
    (isLow : isLowHalf low = true) (more : tail ≠ []) :
    readUnit ('u' :: (Text.hexDigits 4 high ++ unitEscape low ++ tail)) =
      .ok (Char.ofNat (joinHalves high low), tail) := by
  have highNumber : hexNumber? (Text.hexDigits 4 high) = some high := hexNumber?_hexDigits (by
    simp only [isHighHalf, Bool.and_eq_true, decide_eq_true_eq] at isHigh
    omega)
  have lowNumber : hexNumber? (Text.hexDigits 4 low) = some low := hexNumber?_hexDigits (by
    simp only [isLowHalf, Bool.and_eq_true, decide_eq_true_eq] at isLow
    omega)
  rw [unitEscape, hexDigits_four high, hexDigits_four low] at *
  simp [readUnit, highNumber, lowNumber, isHigh, isLow, more]

/-- A character that is neither a quote nor a backslash nor a control character stands
for itself in a text. -/
theorem readString_plain (opening : List Char) (fuel : Nat) (read : List Char) {c : Char}
    (tail : List Char) (noQuote : c ≠ '"') (noBackslash : c ≠ '\\') (visible : ' ' ≤ c) :
    readString opening (fuel + 1) read (c :: tail) = readString opening fuel (c :: read) tail := by
  have noControl : ¬c.toNat < 0x20 := Nat.not_lt.mpr visible
  rw [readString]
  · rw [if_neg noControl]
  · exact noQuote
  · exact fun same => absurd same noBackslash
  · exact fun _ same => absurd same noBackslash
  · exact fun _ _ same => absurd same noBackslash

/-- The code points of characters lie below or above the halves of pairs. So no character is
taken for half of a pair. -/
theorem toNat_char_valid (c : Char) :
    c.toNat < 0xd800 ∨ (0xdfff < c.toNat ∧ c.toNat < 0x110000) := c.valid

theorem not_half_of_char (c : Char) : isHighHalf c.toNat = false ∧ isLowHalf c.toNat = false := by
  have valid := toNat_char_valid c
  simp only [isHighHalf, isLowHalf, Bool.and_eq_false_iff, decide_eq_false_iff_not]
  omega

theorem joinHalves_halves (n : Nat) :
    joinHalves (0xd800 + n / 0x400) (0xdc00 + n % 0x400) = 0x10000 + n := by
  unfold joinHalves
  omega

/-- The halves that a character beyond the sixteen-bit units is written as are halves of
a pair, and make that character again. -/
theorem halves_of_char {c : Char} (beyond : ¬c.toNat < 0x10000) :
    isHighHalf (0xd800 + (c.toNat - 0x10000) / 0x400) = true ∧
      isLowHalf (0xdc00 + (c.toNat - 0x10000) % 0x400) = true ∧
      joinHalves (0xd800 + (c.toNat - 0x10000) / 0x400)
        (0xdc00 + (c.toNat - 0x10000) % 0x400) = c.toNat := by
  have valid := toNat_char_valid c
  refine ⟨?_, ?_, ?_⟩
  · simp only [isHighHalf, Bool.and_eq_true, decide_eq_true_eq]
    omega
  · simp only [isLowHalf, Bool.and_eq_true, decide_eq_true_eq]
    omega
  · rw [joinHalves_halves]
    omega

/-- Reading an escaped or plain character of a text takes that character.

Proof: the cases are those of the writer. A character beyond the sixteen-bit units is
the join of its halves, and a character below them is no half, because no character
has a code point between them. -/
theorem readString_quotedChar (opening : List Char) (fuel : Nat) (read : List Char) (c : Char)
    {tail : List Char} (more : tail ≠ []) :
    readString opening (fuel + 1) read (quotedChar c ++ tail) =
      readString opening fuel (c :: read) tail := by
  unfold quotedChar
  split
  · next same => subst same; simp [readString, escaped?]
  split
  · next same => subst same; simp [readString, escaped?]
  split
  · next same => subst same; simp [readString, escaped?]
  split
  · next same => subst same; simp [readString, escaped?]
  split
  · next same => subst same; simp [readString, escaped?]
  split
  · next same => subst same; simp [readString, escaped?]
  split
  · next same => subst same; simp [readString, escaped?]
  split
  · next noQuote noBackslash _ _ _ _ _ visible =>
    exact readString_plain opening fuel read tail noQuote noBackslash visible.1
  split
  · next small =>
    have unit := readUnit_unit small (not_half_of_char c).1 (not_half_of_char c).2 more
    rw [unitEscape, List.cons_append, List.cons_append, readString, unit, Char.ofNat_toNat]
  · next beyond =>
    obtain ⟨high, low, join⟩ := halves_of_char beyond
    have pair := readUnit_pair high low more
    rw [unitEscape, List.cons_append, List.cons_append, List.cons_append, List.cons_append,
      readString, pair, join, Char.ofNat_toNat]

/-- Every character is written with at least one character. A row of quoted characters is
therefore no shorter than the text. -/
theorem quotedChar_ne_nil (c : Char) : quotedChar c ≠ [] := by
  unfold quotedChar
  repeat' split
  all_goals simp [unitEscape]

/-- The characters of a text between its quotes are read as that text. The fuel counts
characters of the written form, of which each character of the text has at least one. -/
theorem readString_flatMap (opening : List Char) (read cs rest : List Char) (fuel : Nat)
    (enough : (cs.flatMap quotedChar).length < fuel) :
    readString opening fuel read (cs.flatMap quotedChar ++ '"' :: rest) =
      .ok (String.ofList (read.reverse ++ cs), rest) := by
  induction cs generalizing read fuel with
  | nil =>
    obtain ⟨fuel, rfl⟩ := Nat.exists_eq_add_of_lt enough
    simp [readString]
  | cons c cs inductionHypothesis =>
    obtain ⟨fuel, rfl⟩ := Nat.exists_eq_add_of_lt (Nat.zero_lt_of_lt enough)
    have positive : 0 < (quotedChar c).length := List.length_pos_iff.mpr (quotedChar_ne_nil c)
    simp only [List.flatMap_cons, List.length_append, Nat.zero_add] at enough ⊢
    rw [List.append_assoc, readString_quotedChar _ _ _ _ (by simp),
      inductionHypothesis (c :: read) fuel (by omega)]
    simp

theorem readValue_quote (depth : Nat) (s : String) (rest : List Char) :
    readValue depth ((quote s).toList ++ rest) = .ok (.text s, rest) := by
  have shape : (quote s).toList ++ rest =
      '"' :: (s.toList.flatMap quotedChar ++ '"' :: rest) := by simp [quote]
  rw [shape]
  have string := readString_flatMap ('"' :: (s.toList.flatMap quotedChar ++ '"' :: rest)) []
    s.toList rest (s.toList.flatMap quotedChar ++ '"' :: rest).length (by simp)
  rw [readValue, string]
  simp

/-! ### Lists and objects -/

/-- A row of characters that only part the parts of a text. It may be empty. -/
def Blank (cs : List Char) : Prop := ∀ c ∈ cs, isSpace c = true

/-- A text that does not begin with a blank or with a closing bracket, as that of a value never
does. -/
def Begun (cs : List Char) : Prop :=
  ∃ c tail, cs = c :: tail ∧ isSpace c = false ∧ c ≠ ']' ∧ c ≠ '\x7d'

theorem skipSpaces_blank_append {blanks cs : List Char} (blank : Blank blanks)
    (stops : (cs.head?.map isSpace).getD false = false) : skipSpaces (blanks ++ cs) = cs := by
  rw [skipSpaces, List.dropWhile_append_of_pos blank]
  cases cs with
  | nil => rfl
  | cons c tail =>
    have noSpace : isSpace c = false := by simpa using stops
    simp [noSpace]

theorem Begun.stops {cs : List Char} (begun : Begun cs) (rest : List Char) :
    ((cs ++ rest).head?.map isSpace).getD false = false := by
  obtain ⟨c, tail, rfl, noSpace, _, _⟩ := begun
  simpa using noSpace

/-- A layout puts blanks after the opening bracket and before the closing one, and one
comma and blanks between two parts. -/
theorem layout_blank (indent : Option Int) (level : Nat) :
    Blank (layout indent level).opening.toList ∧ Blank (layout indent level).closing.toList ∧
      ∃ between, (layout indent level).separator.toList = ',' :: between ∧ Blank between := by
  have line (count : Nat) : Blank ('\n' :: List.replicate count ' ') := by
    intro c member
    rcases List.mem_cons.mp member with rfl | blank
    · decide
    · rw [List.eq_of_mem_replicate blank]
      decide
  cases indent with
  | none =>
    refine ⟨by simp [layout, Blank], by simp [layout, Blank], [' '], by simp [layout], ?_⟩
    intro c member
    rw [List.mem_singleton.mp member]
    decide
  | some width =>
    refine ⟨?_, ?_, _, by simp [layout, String.toList_append]; rfl, ?_⟩
    · simpa [layout] using line (width.toNat * (level + 1))
    · simpa [layout] using line (width.toNat * level)
    · simpa [layout] using line (width.toNat * (level + 1))

/-- The written form of a plain value begins with a quote or an opening bracket. -/
theorem begun_writeAt (indent : Option Int) (level : Nat) {j : Json} (plain : j.Plain) :
    Begun (writeAt indent level j).toList := by
  cases j with
  | text value => exact ⟨'"', _, by simp [writeAt, quote]; rfl, by decide⟩
  | list items =>
    refine ⟨'[', ?_⟩
    unfold writeAt bracketed
    split
    · exact ⟨_, by simp; rfl, by decide⟩
    · exact ⟨_, by simp [String.toList_append]; rfl, by decide⟩
  | object fields =>
    refine ⟨'\x7b', ?_⟩
    unfold writeAt bracketed
    split
    · exact ⟨_, by simp; rfl, by decide⟩
    · exact ⟨_, by simp [String.toList_append]; rfl, by decide⟩
  | _ => simp [Plain] at plain

/-- The first of several parts stands before the separator. -/
theorem toList_intercalate_cons (separator first second : String) (others : List String) :
    (separator.intercalate (first :: second :: others)).toList =
      first.toList ++ (separator.toList ++ (separator.intercalate (second :: others)).toList) := by
  rw [String.intercalate_cons_cons, String.toList_append, String.toList_append, List.append_assoc]

/-- Parts between separators begin as the first of them does. -/
theorem Begun.intercalate {first : String} (begun : Begun first.toList) (separator : String)
    (others : List String) : Begun (separator.intercalate (first :: others)).toList := by
  obtain ⟨c, tail, shape, start⟩ := begun
  cases others with
  | nil => exact ⟨c, tail, by rw [String.intercalate_singleton, shape], start⟩
  | cons second others =>
    exact ⟨c, _, by rw [toList_intercalate_cons, shape, List.cons_append], start⟩

/-- A loop that reads parts one by one: behind a part it ends at the closing bracket and
goes on at a comma. What it has read so far is its state. -/
structure PartLoop {α σ : Type} (one : Reader α) (close : Char) (add : α → σ → σ)
    (whole : σ → Json) (loop : Nat → σ → Reader Json) : Prop where
  ends : ∀ {fuel state cs a behind rest}, one cs = .ok (a, behind) →
    skipSpaces behind = close :: rest → loop (fuel + 1) state cs = .ok (whole (add a state), rest)
  goesOn : ∀ {fuel state cs a behind rest}, one cs = .ok (a, behind) →
    skipSpaces behind = ',' :: rest →
      loop (fuel + 1) state cs = loop fuel (add a state) (skipSpaces rest)

theorem partLoop_readItems (item : Reader Json) :
    PartLoop item ']' List.cons (fun read => .list read.reverse) (readItems item) where
  ends one closed := by simp [readItems, one, closed]
  goesOn one more := by simp [readItems, one, more]

theorem partLoop_readFields (item : Reader Json) :
    PartLoop (readField item) '\x7d' (fun field => Bindings.put field.1 field.2) .object
      (readFields item) where
  ends one closed := by simp [readFields, one, closed]
  goesOn one more := by simp [readFields, one, more]

/-- Written parts are read in turn up to the closing bracket, if the reader of one part
reads each of them. The fuel counts characters, of which every part has at least one.

Proof: induction over the parts after the first. Behind a part stands either the
closing bracket, and the whole is complete, or a comma, and the next part follows. -/
theorem PartLoop.read_intercalate {α σ : Type} {one : Reader α} {close : Char}
    {add : α → σ → σ} {whole : σ → Json} {loop : Nat → σ → Reader Json}
    (loops : PartLoop one close add whole loop) {write : α → String} {separator : String}
    {between closing rest : List Char} (parts : separator.toList = ',' :: between)
    (blankBetween : Blank between) (blankClosing : Blank closing) (noSpace : isSpace close = false)
    (first : α) (others : List α)
    (reads : ∀ a ∈ first :: others, ∀ rest, one ((write a).toList ++ rest) = .ok (a, rest))
    (begun : ∀ a ∈ first :: others, Begun (write a).toList) (state : σ) (fuel : Nat)
    (enough : (separator.intercalate ((first :: others).map write)).toList.length ≤ fuel) :
    loop fuel state ((separator.intercalate ((first :: others).map write)).toList ++
        (closing ++ close :: rest)) =
      .ok (whole ((first :: others).foldl (fun state a => add a state) state), rest) := by
  induction others generalizing first state fuel with
  | nil =>
    obtain ⟨c, tail, shape, _⟩ := begun first (by simp)
    obtain ⟨fuel, rfl⟩ : ∃ more, fuel = more + 1 := by
      refine ⟨fuel - 1, ?_⟩
      simp [shape] at enough
      omega
    have stop : skipSpaces (closing ++ close :: rest) = close :: rest :=
      skipSpaces_blank_append blankClosing noSpace
    rw [List.map_singleton, String.intercalate_singleton]
    exact loops.ends (reads first (by simp) _) stop
  | cons second others inductionHypothesis =>
    obtain ⟨c, tail, shape, _⟩ := begun first (by simp)
    have next : Begun (separator.intercalate ((second :: others).map write)).toList :=
      (begun second (by simp)).intercalate separator (others.map write)
    rw [List.map_cons, List.map_cons, toList_intercalate_cons, parts, ← List.map_cons] at enough ⊢
    obtain ⟨fuel, rfl⟩ : ∃ more, fuel = more + 1 := by
      refine ⟨fuel - 1, ?_⟩
      simp [shape] at enough
      omega
    have later := inductionHypothesis second (fun a member => reads a (by simp [member]))
      (fun a member => begun a (by simp [member])) (add first state) fuel (by
        simp [shape] at enough ⊢
        omega)
    have comma (tail : List Char) : skipSpaces (',' :: tail) = ',' :: tail := by
      simp [skipSpaces, isSpace]
    rw [List.append_assoc, List.append_assoc, List.cons_append,
      loops.goesOn (reads first (by simp) _) (comma _),
      skipSpaces_blank_append blankBetween (next.stops _), later]
    rfl

theorem readField_quote {item : Reader Json} {value : Json} {written : String}
    (reads : ∀ rest, item (written.toList ++ rest) = .ok (value, rest))
    (begun : Begun written.toList)
    (name : String) (rest : List Char) :
    readField item ((quote name ++ ": " ++ written).toList ++ rest) =
      .ok ((name, value), rest) := by
  have shape : (quote name ++ ": " ++ written).toList ++ rest =
      '"' :: (name.toList.flatMap quotedChar ++ '"' :: ':' :: ' ' :: (written.toList ++ rest)) := by
    simp [quote]
  have string := readString_flatMap
    ('"' :: (name.toList.flatMap quotedChar ++ '"' :: ':' :: ' ' :: (written.toList ++ rest))) []
    name.toList (':' :: ' ' :: (written.toList ++ rest))
    (name.toList.flatMap quotedChar ++ '"' :: ':' :: ' ' :: (written.toList ++ rest)).length
    (by simp)
  have colon : skipSpaces (':' :: ' ' :: (written.toList ++ rest)) =
      ':' :: ' ' :: (written.toList ++ rest) := by simp [skipSpaces, isSpace]
  have blank : Blank [' '] := by simp [Blank, isSpace]
  have value := skipSpaces_blank_append blank (begun.stops rest)
  rw [List.singleton_append] at value
  rw [shape, readField, string]
  simp [colon, value, reads]

def writeField (indent : Option Int) (level : Nat) (field : String × Json) : String :=
  quote field.1 ++ ": " ++ writeAt indent level field.2

theorem writeItems_eq_map (indent : Option Int) (level : Nat) (items : List Json) :
    writeItems indent level items = items.map (writeAt indent level) := by
  induction items with
  | nil => rfl
  | cons item items inductionHypothesis => rw [writeItems, inductionHypothesis, List.map_cons]

theorem writeFields_eq_map (indent : Option Int) (level : Nat) (fields : List (String × Json)) :
    writeFields indent level fields = fields.map (writeField indent level) := by
  induction fields with
  | nil => rfl
  | cons field fields inductionHypothesis =>
    obtain ⟨name, value⟩ := field
    rw [writeFields, inductionHypothesis, List.map_cons, writeField]

theorem begun_writeField (indent : Option Int) (level : Nat) (field : String × Json) :
    Begun (writeField indent level field).toList :=
  ⟨'"', _, by simp [writeField, quote]; rfl, by decide⟩

/-- The written form of parts between brackets, if there are any. -/
theorem toList_bracketed_cons {α : Type} (left right : String) (layout : Layout)
    (write : α → String) (first : α) (others : List α) (rest : List Char) :
    (bracketed left right layout ((first :: others).map write)).toList ++ rest =
      left.toList ++ (layout.opening.toList ++
        ((layout.separator.intercalate ((first :: others).map write)).toList ++
          (layout.closing.toList ++ (right.toList ++ rest)))) := by
  simp [bracketed, String.toList_append, List.append_assoc]

/-- Behind the opening bracket of a list that is not empty its items are read. -/
theorem readValue_list {limit : Nat} {opening parts : List Char} (blankOpening : Blank opening)
    (begun : Begun parts) (rest : List Char) :
    readValue (limit + 1) ("[".toList ++ (opening ++ (parts ++ rest))) =
      readItems (readValue limit) ((parts ++ rest).length + 1) [] (parts ++ rest) := by
  have start := skipSpaces_blank_append blankOpening (begun.stops rest)
  obtain ⟨c, tail, rfl, _, notList, _⟩ := begun
  rw [List.cons_append] at start
  rw [show "[".toList = ['['] from rfl, List.singleton_append, List.cons_append, readValue, start]
  simp [notList]

/-- Behind the opening brace of an object that is not empty its fields are read. -/
theorem readValue_object {limit : Nat} {opening parts : List Char} (blankOpening : Blank opening)
    (begun : Begun parts) (rest : List Char) :
    readValue (limit + 1) ("\x7b".toList ++ (opening ++ (parts ++ rest))) =
      readFields (readValue limit) ((parts ++ rest).length + 1) [] (parts ++ rest) := by
  have start := skipSpaces_blank_append blankOpening (begun.stops rest)
  obtain ⟨c, tail, rfl, _, _, notObject⟩ := begun
  rw [List.cons_append] at start
  rw [show "\x7b".toList = ['\x7b'] from rfl, List.singleton_append, List.cons_append, readValue,
    start]
  simp [notObject]

mutual

/-- A plain value is read back from its written form, at every level of indentation and
whatever follows, if it nests no deeper than the reader allows.

Proof: induction over the value. The parts of a list or an object are read by the
induction hypothesis, and the loop over them is that of `PartLoop.read_intercalate`. -/
theorem readValue_writeAt (indent : Option Int) (level limit : Nat) :
    (j : Json) → j.Plain → j.depth ≤ limit → ∀ rest : List Char,
      readValue limit ((writeAt indent level j).toList ++ rest) = .ok (j, rest)
  | .text value, _, _, rest => readValue_quote limit value rest
  | .list [], _, shallow, rest => by
    obtain ⟨limit, rfl⟩ : ∃ more, limit = more + 1 := ⟨limit - 1, by simp [depth] at shallow; omega⟩
    simp [writeAt, writeItems, bracketed, readValue, skipSpaces, isSpace]
  | .list (first :: others), plain, shallow, rest => by
    obtain ⟨limit, rfl⟩ : ∃ more, limit = more + 1 := ⟨limit - 1, by simp [depth] at shallow; omega⟩
    obtain ⟨blankOpening, blankClosing, between, parts, blankBetween⟩ := layout_blank indent level
    have each := readItems_writeAt indent (level + 1) limit (first :: others) plain
      (by simpa [depth] using shallow)
    have begun : Begun ((layout indent level).separator.intercalate
        ((first :: others).map (writeAt indent (level + 1)))).toList :=
      Begun.intercalate (each first (by simp)).1 _ _
    rw [writeAt, writeItems_eq_map, toList_bracketed_cons, readValue_list blankOpening begun,
      show "]".toList = [']'] from rfl, List.singleton_append]
    rw [(partLoop_readItems (readValue limit)).read_intercalate parts blankBetween blankClosing
      (by decide) first others (fun j member => (each j member).2)
      (fun j member => (each j member).1) [] _ (by simp; omega)]
    simp
  | .object [], _, shallow, rest => by
    obtain ⟨limit, rfl⟩ : ∃ more, limit = more + 1 := ⟨limit - 1, by simp [depth] at shallow; omega⟩
    simp [writeAt, writeFields, bracketed, readValue, skipSpaces, isSpace]
  | .object (first :: others), plain, shallow, rest => by
    obtain ⟨limit, rfl⟩ : ∃ more, limit = more + 1 := ⟨limit - 1, by simp [depth] at shallow; omega⟩
    obtain ⟨blankOpening, blankClosing, between, parts, blankBetween⟩ := layout_blank indent level
    have each := readFields_writeAt indent (level + 1) limit (first :: others) plain.2
      (by simpa [depth] using shallow)
    have begun : Begun ((layout indent level).separator.intercalate
        ((first :: others).map (writeField indent (level + 1)))).toList :=
      Begun.intercalate (begun_writeField indent (level + 1) first) _ _
    rw [writeAt, writeFields_eq_map, toList_bracketed_cons, readValue_object blankOpening begun,
      show "\x7d".toList = ['\x7d'] from rfl, List.singleton_append]
    rw [(partLoop_readFields (readValue limit)).read_intercalate parts blankBetween blankClosing
      (by decide) first others each (fun field _ => begun_writeField indent (level + 1) field) [] _
      (by simp; omega)]
    have bound : Bindings.putAll [] (first :: others) = first :: others :=
      Bindings.putAll_of_nodup plain.1
    rw [← Bindings.putAll, bound]

theorem readItems_writeAt (indent : Option Int) (level limit : Nat) :
    (items : List Json) → PlainItems items → depthItems items ≤ limit → ∀ j ∈ items,
      Begun (writeAt indent level j).toList ∧ ∀ rest : List Char,
        readValue limit ((writeAt indent level j).toList ++ rest) = .ok (j, rest)
  | [], _, _, j, member => by simp at member
  | first :: others, plain, shallow, j, member => by
    rw [depthItems, Nat.max_le] at shallow
    rcases List.mem_cons.mp member with same | later
    · rw [same]
      exact ⟨begun_writeAt indent level plain.1,
        readValue_writeAt indent level limit first plain.1 shallow.1⟩
    · exact readItems_writeAt indent level limit others plain.2 shallow.2 j later

/-- Each field with a plain value is read back from its written form. No name occurs twice, so
none takes the place of another. -/
theorem readFields_writeAt (indent : Option Int) (level limit : Nat) :
    (fields : List (String × Json)) → PlainFields fields → depthFields fields ≤ limit →
      ∀ field ∈ fields, ∀ rest : List Char,
        readField (readValue limit) ((writeField indent level field).toList ++ rest) =
          .ok (field, rest)
  | [], _, _, field, member => by simp at member
  | (name, value) :: others, plain, shallow, field, member => by
    rw [depthFields, Nat.max_le] at shallow
    rcases List.mem_cons.mp member with same | later
    · rw [same]
      exact readField_quote (readValue_writeAt indent level limit value plain.1 shallow.1)
        (begun_writeAt indent level plain.1) name
    · exact readFields_writeAt indent level limit others plain.2 shallow.2 field later

end

/-- A plain value that nests no deeper than the limit is read back from its text.

Proof: the text begins with a quote or a bracket, so no blank and no byte order mark
stands before the value, and nothing stands behind it. -/
theorem read_write {limit : Nat} {j : Json} (indent : Option Int) (plain : j.Plain)
    (shallow : j.depth ≤ limit) : read limit (j.write indent) = .ok j := by
  have whole := readValue_writeAt indent 0 limit j plain shallow []
  have noMark : (writeAt indent 0 j).toList.head? ≠ some '\ufeff' := by
    cases j with
    | text value => simp [writeAt, quote]
    | list items => unfold writeAt bracketed; split <;> simp [String.toList_append]
    | object fields => unfold writeAt bracketed; split <;> simp [String.toList_append]
    | _ => simp [Plain] at plain
  have noBlank : Blank [] := by simp [Blank]
  have start := skipSpaces_blank_append noBlank ((begun_writeAt indent 0 plain).stops [])
  have behind : skipSpaces [] = [] := rfl
  rw [List.append_nil, List.nil_append] at start
  rw [List.append_nil] at whole
  simp [read, write, noMark, start, whole, behind]

/-! ### Nesting of what is read -/

/-- Items nest no deeper than a limit that each of them keeps. -/
theorem depthItems_le_iff (items : List Json) (limit : Nat) :
    depthItems items ≤ limit ↔ ∀ item ∈ items, item.depth ≤ limit := by
  induction items with
  | nil => simp [depthItems]
  | cons item items inductionHypothesis =>
    rw [depthItems, Nat.max_le, inductionHypothesis, List.forall_mem_cons]

/-- Fields nest no deeper than a limit that the value of each of them keeps. -/
theorem depthFields_le_iff (fields : List (String × Json)) (limit : Nat) :
    depthFields fields ≤ limit ↔ ∀ field ∈ fields, field.2.depth ≤ limit := by
  induction fields with
  | nil => simp [depthFields]
  | cons field fields inductionHypothesis =>
    obtain ⟨name, value⟩ := field
    rw [depthFields, Nat.max_le, inductionHypothesis, List.forall_mem_cons]

theorem depth_readUnsigned {negative : Bool} {cs rest : List Char} {j : Json}
    (read : readUnsigned negative cs = .ok (j, rest)) : j.depth = 0 := by
  unfold readUnsigned at read
  simp only at read
  repeat' split at read
  all_goals first
    | contradiction
    | obtain ⟨rfl, -⟩ := Prod.mk.inj (Except.ok.inj read)
      rfl

theorem depth_readNumber {cs rest : List Char} {j : Json}
    (read : readNumber cs = .ok (j, rest)) : j.depth = 0 := by
  unfold readNumber at read
  split at read <;> exact depth_readUnsigned read

theorem depth_readWord {cs : List Char} {found : Json × List Char}
    (read : readWord cs = some found) : found.1.depth = 0 := by
  obtain ⟨⟨word, value⟩, member, taken⟩ := List.exists_of_findSome?_eq_some read
  simp only [List.mem_cons, List.not_mem_nil, or_false, Prod.mk.injEq] at member
  simp only at taken
  split at taken
  · rw [← Option.some.inj taken]
    rcases member with ⟨-, rfl⟩ | ⟨-, rfl⟩ | ⟨-, rfl⟩ | ⟨-, rfl⟩ | ⟨-, rfl⟩ | ⟨-, rfl⟩ <;> rfl
  · contradiction

theorem depth_readScalar {cs rest : List Char} {j : Json} (read : readScalar cs = .ok (j, rest)) :
    j.depth = 0 := by
  unfold readScalar at read
  split at read
  · next found here =>
    obtain rfl := Except.ok.inj read
    exact depth_readWord here
  · split at read
    · next found here =>
      obtain rfl := Except.ok.inj read
      exact depth_readNumber here
    · contradiction
    · contradiction

/-- The items that are read of a list nest no deeper than those read before them and
those that the reader of one item gives. -/
theorem depth_readItems {item : Reader Json} {limit fuel : Nat} {before : List Json}
    {cs rest : List Char} {j : Json}
    (shallow : ∀ {cs rest : List Char} {j : Json}, item cs = .ok (j, rest) → j.depth ≤ limit)
    (shallowBefore : depthItems before ≤ limit)
    (read : readItems item fuel before cs = .ok (j, rest)) : j.depth ≤ limit + 1 := by
  induction fuel generalizing before cs with
  | zero => simp [readItems] at read
  | succ fuel inductionHypothesis =>
    unfold readItems at read
    split at read
    · simp at read
    · next value behind one =>
      have more : depthItems (value :: before) ≤ limit :=
        Nat.max_le.mpr ⟨shallow one, shallowBefore⟩
      split at read
      · obtain ⟨rfl, -⟩ := Prod.mk.inj (Except.ok.inj read)
        have each := (depthItems_le_iff _ _).mp more
        refine Nat.succ_le_succ ((depthItems_le_iff _ _).mpr ?_)
        intro other member
        exact each other (List.mem_reverse.mp member)
      · exact inductionHypothesis more read
      · simp at read

/-- The fields that are read of an object nest no deeper than those read before them and
those that the reader of one value gives. -/
theorem depth_readFields {item : Reader Json} {limit fuel : Nat} {before : List (String × Json)}
    {cs rest : List Char} {j : Json}
    (shallow : ∀ {cs rest : List Char} {j : Json}, item cs = .ok (j, rest) → j.depth ≤ limit)
    (shallowBefore : depthFields before ≤ limit)
    (read : readFields item fuel before cs = .ok (j, rest)) : j.depth ≤ limit + 1 := by
  have field {cs rest : List Char} {found : String × Json}
      (one : readField item cs = .ok (found, rest)) : found.2.depth ≤ limit := by
    unfold readField at one
    split at one
    · split at one
      · simp at one
      · split at one
        · split at one
          · simp at one
          · next value =>
            obtain ⟨rfl, -⟩ := Prod.mk.inj (Except.ok.inj one)
            exact shallow value
        · simp at one
    · simp at one
  induction fuel generalizing before cs with
  | zero => simp [readFields] at read
  | succ fuel inductionHypothesis =>
    unfold readFields at read
    split at read
    · simp at read
    · next name value behind one =>
      have more : depthFields (Bindings.put name value before) ≤ limit := by
        apply (depthFields_le_iff _ _).mpr
        intro entry member
        rcases Bindings.eq_or_mem_of_mem_put member with same | earlier
        · rw [same]
          exact field one
        · exact (depthFields_le_iff _ _).mp shallowBefore entry earlier
      simp only at read
      split at read
      · obtain ⟨rfl, -⟩ := Prod.mk.inj (Except.ok.inj read)
        exact Nat.succ_le_succ more
      · exact inductionHypothesis more read
      · simp at read

/-- A value that is read nests no deeper than the reader allows. -/
theorem depth_readValue {limit : Nat} {cs rest : List Char} {j : Json}
    (read : readValue limit cs = .ok (j, rest)) : j.depth ≤ limit := by
  induction limit generalizing cs rest j with
  | zero =>
    unfold readValue at read
    split at read
    · split at read
      · simp at read
      · obtain ⟨rfl, -⟩ := Prod.mk.inj (Except.ok.inj read)
        exact Nat.zero_le _
    · simp at read
    · simp at read
    · contradiction
    · contradiction
    · exact Nat.le_of_eq (depth_readScalar read)
  | succ limit inductionHypothesis =>
    unfold readValue at read
    split at read
    · split at read
      · simp at read
      · obtain ⟨rfl, -⟩ := Prod.mk.inj (Except.ok.inj read)
        exact Nat.zero_le _
    · contradiction
    · contradiction
    · next same =>
      obtain rfl := Nat.succ.inj same
      split at read
      · obtain ⟨rfl, -⟩ := Prod.mk.inj (Except.ok.inj read)
        simp [depth, depthItems]
      · exact depth_readItems inductionHypothesis (Nat.zero_le _) read
    · next same =>
      obtain rfl := Nat.succ.inj same
      split at read
      · obtain ⟨rfl, -⟩ := Prod.mk.inj (Except.ok.inj read)
        simp [depth, depthFields]
      · exact depth_readFields inductionHypothesis (Nat.zero_le _) read
    · exact Nat.le_trans (Nat.le_of_eq (depth_readScalar read)) (Nat.zero_le _)

/-- A text is read only as a value that nests no deeper than the limit. Beyond the limit it is
refused, and not cut. -/
theorem depth_read {limit : Nat} {text : String} {j : Json} (found : read limit text = .ok j) :
    j.depth ≤ limit := by
  unfold read at found
  simp only at found
  split at found
  · next value result =>
    obtain rfl := Except.ok.inj found
    split at result
    · simp at result
    · split at result
      · simp at result
      · next whole =>
        split at result
        · obtain rfl := Except.ok.inj result
          exact depth_readValue whole
        · simp at result
  · simp at found
  · simp at found
  · simp at found

end YololChip.Json
