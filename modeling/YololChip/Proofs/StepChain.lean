import YololChip.Proofs.Numerals
import YololChip.Run.StepLog

/-!
# The chain of steps

Whatever is recorded in a log becomes an entry of its own: the entries are counted from zero, each
leads to a state of its own, and each comes from the state that the one before it led to, or from
the one that its record names. The limit of the log is no part of this. It only decides how many of
the newest entries are still held.
-/

namespace YololChip

/-! ### Names of states -/

namespace Text

theorem digitsValue_padded (width n : Nat) : Fixed.digitsValue (padded width n).toList = n := by
  have zeros (count : Nat) (digits : List Char) :
      Fixed.digitsValue (List.replicate count '0' ++ digits) = Fixed.digitsValue digits := by
    induction count with
    | zero => rfl
    | succ count inductionHypothesis =>
      rw [List.replicate_succ, List.cons_append, ← inductionHypothesis]
      rfl
  have written : (toString n).toList = Nat.toDigits 10 n := String.toList_ofList
  rw [padded, String.toList_append, String.toList_ofList, zeros, written, Fixed.digitsValue_eq,
    Nat.ofDigitChars_ten_toDigits]

end Text

/-- Steps with different indices lead to states with different names. The name of the seed is
that of none of them. -/
theorem stateName_inj {j k : Nat} (same : stateName j = stateName k) : j = k := by
  have digits : Text.padded 6 j = Text.padded 6 k := by
    have characters := congrArg String.toList same
    rw [stateName, stateName, String.toList_append, String.toList_append] at characters
    exact String.toList_inj.mp (List.append_cancel_left characters)
  rw [← Text.digitsValue_padded 6 j, digits, Text.digitsValue_padded]

/-! ### Recording -/

/-- What is recorded of a step. The record holds fields by name, if there is one; the log adds
those that name states. -/
structure Recording where
  line : Int
  loc : Option Location
  statement : Option String
  environment : Option (List (String × String))
  record : Option (List (String × Json))

def Recording.fields (r : Recording) : List (String × Json) := r.record.getD []

namespace StepLog

/-- The entry that a recording becomes. Its index and its states are those that come next in the
log. -/
def entryOf (log : StepLog) (r : Recording) : LogEntry :=
  log.nextEntry r.line r.loc r.statement r.environment r.fields

def record (log : StepLog) (r : Recording) : StepLog := log.push (log.entryOf r)

/-- The log after recordings, one after the other. Only as many of the last are held as the
limit says. -/
def recordAll (log : StepLog) (rs : List Recording) : StepLog := rs.foldl record log

/-- The entries that recordings become, one after the other, also those that the log has dropped
since. -/
def made (log : StepLog) : List Recording → List LogEntry
  | [] => []
  | r :: rest => log.entryOf r :: (log.record r).made rest

variable (log : StepLog) (rs : List Recording)

@[simp] theorem nextIndex_record (r : Recording) : (log.record r).nextIndex = log.nextIndex + 1 :=
  rfl

@[simp] theorem limit_record (r : Recording) : (log.record r).window.limit = log.window.limit := by
  rw [record, push, Window.push]
  cases log.window.room <;> rfl

theorem recordAll_append (more : List Recording) :
    log.recordAll (rs ++ more) = (log.recordAll rs).recordAll more :=
  List.foldl_append

theorem made_append (more : List Recording) :
    log.made (rs ++ more) = log.made rs ++ (log.recordAll rs).made more := by
  induction rs generalizing log with
  | nil => rfl
  | cons r rest inductionHypothesis =>
    rw [List.cons_append, made, made, inductionHypothesis, List.cons_append]
    rfl

theorem nextIndex_recordAll : (log.recordAll rs).nextIndex = log.nextIndex + rs.length := by
  induction rs generalizing log with
  | nil => rfl
  | cons r rest inductionHypothesis =>
    rw [recordAll, List.foldl_cons, ← recordAll, inductionHypothesis, nextIndex_record,
      List.length_cons]
    omega

theorem length_made : (log.made rs).length = rs.length := by
  induction rs generalizing log with
  | nil => rfl
  | cons r rest inductionHypothesis =>
    rw [made, List.length_cons, List.length_cons, inductionHypothesis]

/-- The entry of a recording is made by the log that those before it leave. So an entry depends
on what was recorded before only by how much it was. -/
theorem getElem?_made (k : Nat) :
    (log.made rs)[k]? = rs[k]?.map (log.recordAll (rs.take k)).entryOf := by
  induction rs generalizing log k with
  | nil => simp [made]
  | cons r rest inductionHypothesis =>
    cases k with
    | zero => rfl
    | succ k => exact inductionHypothesis (log.record r) k

/-! ### What is held -/

/-- Of what was held before and what was made, the newest is held, up to the limit.

Proof: induction over the recordings. Each entry comes in front of those that are held. -/
theorem newestFirst_recordAll :
    (log.recordAll rs).window.newestFirst =
      ((log.made rs).reverse ++ log.window.newestFirst).take log.window.limit := by
  have cut (front back : List LogEntry) (limit : Nat) :
      (front ++ back.take limit).take limit = (front ++ back).take limit := by
    rw [List.take_append, List.take_append, List.take_take, Nat.min_eq_left (Nat.sub_le _ _)]
  induction rs generalizing log with
  | nil =>
    have whole : log.window.newestFirst.take log.window.limit = log.window.newestFirst := by
      rw [Window.newestFirst, List.take_take, Nat.min_self]
    exact whole.symm
  | cons r rest inductionHypothesis =>
    have front : (log.record r).window.newestFirst =
        (log.entryOf r :: log.window.newestFirst).take log.window.limit :=
      Window.newestFirst_push _ _
    rw [recordAll, List.foldl_cons, ← recordAll, inductionHypothesis, limit_record, front, cut,
      made, List.reverse_cons, List.append_assoc, List.singleton_append]

theorem newest?_eq : log.newest? = log.entries.getLast? := by
  rw [newest?, entries, Window.newest?, Window.toList, List.getLast?_reverse]

end StepLog

/-! ### What is made -/

/-- Whether an entry is that of a recording at a place in the log, behind the state of a name. It
has all that is recorded; its record says that it leads to its own state, and comes from the state
that the recording names, or else from the one behind which it stands. -/
structure LogEntry.Records (entry : LogEntry) (r : Recording) (index : Nat) (before : String) :
    Prop where
  index : entry.stepIndex = index
  line : entry.line = r.line
  loc : entry.loc = r.loc
  statement : entry.statement = r.statement
  environment : entry.environment = r.environment
  leads : Bindings.find? "to_state_id" entry.record = some (.text entry.state)
  comes : Bindings.find? "from_state_id" entry.record =
    some ((Bindings.find? "from_state_id" r.fields).getD (.text before))
  others : ∀ name, name ≠ "to_state_id" → name ≠ "from_state_id" →
    Bindings.find? name entry.record = Bindings.find? name r.fields

/-- A recording becomes an entry behind the state that the log is in. -/
theorem StepLog.entryOf_records (log : StepLog) (r : Recording) :
    (log.entryOf r).Records r log.nextIndex log.lastState := by
  constructor
  · rfl
  · rfl
  · rfl
  · rfl
  · rfl
  · exact Bindings.find?_put_self _ _ _
  · rw [entryOf, nextEntry, linked, Bindings.find?_put_of_ne (by decide)]
    cases held : Bindings.find? "from_state_id" r.fields with
    | some state => exact held
    | none => exact Bindings.find?_put_self _ _ _
  · intro name noTarget noOrigin
    rw [entryOf, nextEntry, linked, Bindings.find?_put_of_ne noTarget.symm]
    cases Bindings.find? "from_state_id" r.fields with
    | some state => rfl
    | none => exact Bindings.find?_put_of_ne noOrigin.symm _ _

/-- The name of the state before the entry at a place: the one that the entry before it led to, and
the seed's before the first. -/
def stateBefore (entries : List LogEntry) : (index : Nat) → String
  | 0 => seedName
  | index + 1 => (entries[index]?.map LogEntry.state).getD seedName

/-- What is made of recordings, and what a log with a limit holds of it. Every recording becomes an
entry at its place; the states that they lead to are distinct; and the last entries are held, in
order, of which the newest is the last. -/
structure StepLog.Chain (limit : Nat) (rs : List Recording) (made : List LogEntry)
    (log : StepLog) : Prop where
  length : made.length = rs.length
  each : ∀ (index : Nat) (r : Recording), rs[index]? = some r →
    ∃ entry : LogEntry, made[index]? = some entry ∧ entry.Records r index (stateBefore made index)
  distinct : ∀ (j k : Nat) (a b : LogEntry), made[j]? = some a → made[k]? = some b →
    a.state = b.state → j = k
  held : log.entries = made.drop (made.length - limit)
  count : log.entries.length = min limit rs.length
  newest : log.newest? = log.entries.getLast?

namespace StepLog

variable {limit : Nat} {rs : List Recording} {index : Nat}

/-- An entry that is made of recordings in an empty log has the index of its place. -/
theorem stepIndex_of_made {entry : LogEntry}
    (found : ((empty limit).made rs)[index]? = some entry) : entry.stepIndex = index := by
  rw [getElem?_made, Option.map_eq_some_iff] at found
  obtain ⟨r, inside, rfl⟩ := found
  obtain ⟨below, _⟩ := List.getElem?_eq_some_iff.mp inside
  rw [(entryOf_records _ r).index, nextIndex_recordAll, List.length_take]
  simp only [empty]
  omega

/-- Before an entry is made the log is in the state that the entry before it led to. -/
theorem lastState_recordAll {r : Recording} (inside : rs[index]? = some r) :
    ((empty limit).recordAll (rs.take index)).lastState =
      stateBefore ((empty limit).made rs) index := by
  obtain ⟨below, _⟩ := List.getElem?_eq_some_iff.mp inside
  have next : ((empty limit).recordAll (rs.take index)).nextIndex = index := by
    rw [nextIndex_recordAll, List.length_take]
    simp only [empty]
    omega
  rw [lastState, next]
  cases index with
  | zero => rfl
  | succ before =>
    have earlier : before < ((empty limit).made rs).length := by
      rw [length_made]
      omega
    have found := List.getElem?_eq_getElem earlier
    rw [stateBefore, found, Option.map_some, Option.getD_some, LogEntry.state,
      stepIndex_of_made found]

/-- Recordings make a chain in an empty log, whatever its limit. A limit of zero holds none of
them. -/
theorem chain_recordAll (limit : Nat) (rs : List Recording) :
    Chain limit rs ((empty limit).made rs) ((empty limit).recordAll rs) := by
  have held : ((empty limit).recordAll rs).entries =
      ((empty limit).made rs).drop (((empty limit).made rs).length - limit) := by
    rw [entries, Window.toList, newestFirst_recordAll]
    simp only [empty, Window.newestFirst_empty, List.append_nil]
    rw [List.reverse_take, List.reverse_reverse, List.length_reverse]
    rfl
  constructor
  · exact length_made _ rs
  · intro index r inside
    have found : ((empty limit).made rs)[index]? =
        some (((empty limit).recordAll (rs.take index)).entryOf r) := by
      rw [getElem?_made, inside, Option.map_some]
    have records := entryOf_records ((empty limit).recordAll (rs.take index)) r
    rw [lastState_recordAll inside, ← records.index, stepIndex_of_made found] at records
    exact ⟨_, found, records⟩
  · intro j k a b foundA foundB same
    rw [← stepIndex_of_made foundA, ← stepIndex_of_made foundB]
    exact stateName_inj same
  · exact held
  · rw [held, List.length_drop, length_made]
    omega
  · exact newest?_eq _

end StepLog

end YololChip
