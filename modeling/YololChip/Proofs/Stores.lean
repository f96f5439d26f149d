import YololChip.Proofs.Deeds
import YololChip.Proofs.WellFormed

/-!
# How variables are kept

There are two ways to a variable: by its name, whose letter case does not count and whose colon
tells the scope; and as a line has it, with a name and a scope that nobody looks into again. Both
lead to the same bindings, because whatever sets a variable keeps them in order: a name is bound in
lower case, in the scope that it tells.

The order of the bindings is that of the deeds. A name stands where it was first set, and the
names of the chip begin anew when they are forgotten.
-/

namespace YololChip

/-! ### Letter case -/

/-- Whether two names are the same but for the case of letters from a to z. Other letters have
to be the same. -/
def SameLetters (name other : String) : Prop :=
  name.toList.map Char.toLower = other.toList.map Char.toLower

instance (name other : String) : Decidable (SameLetters name other) :=
  inferInstanceAs (Decidable (_ = _))

namespace Text

/-- What does not tell the capitals from A to Z from their small letters is the same for
characters that are the same but for their case. -/
theorem eq_of_toLower_eq {α : Type} {f : Char → α}
    (caseless : ∀ n < 26, f (Char.ofNat (n + 65)).toLower = f (Char.ofNat (n + 65))) {c d : Char}
    (same : c.toLower = d.toLower) : f c = f d := by
  have lowered (c : Char) : f c.toLower = f c := by
    by_cases capital : c.val ≥ 'A'.val ∧ c.val ≤ 'Z'.val
    · have least : 65 ≤ c.toNat := UInt32.le_iff_toNat_le.mp capital.1
      have most : c.toNat ≤ 90 := UInt32.le_iff_toNat_le.mp capital.2
      have checked := caseless (c.toNat - 65) (by omega)
      rwa [Nat.sub_add_cancel least, Char.ofNat_toNat] at checked
    · exact congrArg f (dif_neg capital)
  rw [← lowered c, same, lowered]

/-- The letters from A to Z are not passed over in looking for letters. -/
theorem not_ignorable_of_letter {c : Char}
    (letter : 65 ≤ c.toNat ∧ c.toNat ≤ 90 ∨ 97 ≤ c.toNat ∧ c.toNat ≤ 122) :
    inRanges caseIgnorable c = false := by
  have apart : caseIgnorable.all
      (fun range => range.2 < 65 || 122 < range.1 || 90 < range.1 && range.2 < 97) = true := by
    decide +kernel
  rw [inRanges, List.any_eq_false]
  intro range member
  have missed := List.all_eq_true.mp apart range member
  simp only [Bool.or_eq_true, Bool.and_eq_true, decide_eq_true_eq] at missed ⊢
  omega

/-- Whether a letter is met does not depend on the case of letters. So a capital sigma is
lowered alike in both. -/
theorem meetsLetter_of_sameLetters {cs ds : List Char}
    (same : cs.map Char.toLower = ds.map Char.toLower) : meetsLetter cs = meetsLetter ds := by
  have letters : ∀ n < 26, (65 ≤ (Char.ofNat (n + 65)).toNat ∧ (Char.ofNat (n + 65)).toNat ≤ 90) ∧
      97 ≤ (Char.ofNat (n + 65)).toLower.toNat ∧ (Char.ofNat (n + 65)).toLower.toNat ≤ 122 := by
    decide +kernel
  have ignorable {c d : Char} : c.toLower = d.toLower →
      inRanges caseIgnorable c = inRanges caseIgnorable d := by
    apply eq_of_toLower_eq
    intro n below
    rw [not_ignorable_of_letter (.inl (letters n below).1),
      not_ignorable_of_letter (.inr (letters n below).2)]
  have cased {c d : Char} : c.toLower = d.toLower →
      inRanges casedLetters c = inRanges casedLetters d :=
    eq_of_toLower_eq (by decide +kernel)
  induction cs generalizing ds with
  | nil =>
    rw [List.map_nil, eq_comm, List.map_eq_nil_iff] at same
    rw [same]
  | cons c cs inductionHypothesis =>
    cases ds with
    | nil => exact absurd same (List.cons_ne_nil _ _)
    | cons d ds =>
      obtain ⟨here, behind⟩ := List.cons.inj same
      have rest := inductionHypothesis behind
      unfold meetsLetter at rest ⊢
      rw [List.dropWhile_cons, List.dropWhile_cons, ignorable here]
      by_cases passed : inRanges caseIgnorable d = true
      · rw [if_pos passed, if_pos passed]
        exact rest
      · rw [if_neg passed, if_neg passed]
        exact cased here

/-- Names that are the same but for the case of letters have the same lower-case form. -/
theorem lower_eq_of_sameLetters {name other : String} (same : SameLetters name other) :
    lower name = lower other := by
  have sigma {c d : Char} (same : c.toLower = d.toLower) : c = 'Σ' ↔ d = 'Σ' := by
    simpa using eq_of_toLower_eq (f := fun c => decide (c = 'Σ')) (by decide +kernel) same
  have plain {c d : Char} : c.toLower = d.toLower → lowerChar c = lowerChar d :=
    eq_of_toLower_eq (by decide +kernel)
  have all {before after cs ds : List Char}
      (sameBefore : before.map Char.toLower = after.map Char.toLower)
      (same : cs.map Char.toLower = ds.map Char.toLower) :
      lowerFrom before cs = lowerFrom after ds := by
    induction cs generalizing before after ds with
    | nil =>
      rw [List.map_nil, eq_comm, List.map_eq_nil_iff] at same
      rw [same, lowerFrom, lowerFrom]
    | cons c cs inductionHypothesis =>
      cases ds with
      | nil => exact absurd same (List.cons_ne_nil _ _)
      | cons d ds =>
        obtain ⟨here, behind⟩ := List.cons.inj same
        have rest : lowerFrom (c :: before) cs = lowerFrom (d :: after) ds :=
          inductionHypothesis (by rw [List.map_cons, List.map_cons, here, sameBefore]) behind
        simp only [lowerFrom, rest, sigma here, plain here, meetsLetter_of_sameLetters sameBefore,
          meetsLetter_of_sameLetters behind]
  rw [lower, lower, all rfl same]

end Text

/-! ### Variables that names lead to -/

namespace Variable

/-- Whether the name of a variable leads to it. Its name may be empty, unlike that of a settled
one. -/
def Routed (v : Variable) : Prop := named v.name = v

/-- Every name leads to a variable whose own name leads to it. A name is lowered once and for
all. -/
theorem routed_named (name : String) : (named name).Routed := by
  simp only [Routed, named, Text.lower_lower]

/-- The variables that their names lead to are those whose name is lowered and tells the scope. -/
theorem routed_iff (v : Variable) :
    v.Routed ↔ Text.lower v.name = v.name ∧ (isFieldName v.name = true ↔ v.scope = .field) := by
  obtain ⟨name, scope⟩ := v
  simp only [Routed, named, mk.injEq]
  constructor
  · rintro ⟨lowered, told⟩
    rw [lowered] at told
    refine ⟨lowered, ?_⟩
    rw [← told]
    simp
  · rintro ⟨lowered, told⟩
    rw [lowered]
    refine ⟨rfl, ?_⟩
    cases scope <;> simp_all

/-- Names that are the same but for the case of letters lead to the same variable. -/
theorem named_of_sameLetters {name other : String} (same : SameLetters name other) :
    named name = named other := by
  simp only [named, Text.lower_eq_of_sameLetters same]

/-- A name that is that of a variable but for the case of letters leads to it too. -/
theorem Routed.named_of_sameLetters {v : Variable} (routed : v.Routed) {name : String}
    (same : SameLetters name v.name) : named name = v := by
  rw [Variable.named_of_sameLetters same]
  exact routed

end Variable

/-- Whether the name of a variable that a deed sets leads to it. -/
def Deed.Routed : Deed → Prop
  | set v _ => v.Routed
  | forget => True

/-- Whether a line was read, from source by itself or as a line of a program that was loaded. -/
def Line.Loaded (line : Line) : Prop :=
  (∃ text file number, Line.parse text file number = .ok line) ∨
    ∃ p : Program, p.Loaded ∧ line ∈ p.lines

namespace Line.Loaded

variable {line : Line} (loaded : line.Loaded)

include loaded

theorem settled {loc : Option Location} {v : Variable} (member : .var loc v ∈ line.nodes) :
    v.Settled := by
  rcases loaded with ⟨text, file, number, read⟩ | ⟨p, loaded, inProgram⟩
  · exact (Line.portable_of_parse read).1.settled member
  · exact (loaded.portable.lines line inProgram).settled member

/-- The variables that it mentions are those that their names lead to. -/
theorem routed {v : Variable} (mentioned : v ∈ line.mentions) : v.Routed := by
  obtain ⟨e, member, isVariable⟩ := List.mem_filterMap.mp mentioned
  cases e with
  | var loc target =>
    obtain rfl := Option.some.inj isVariable
    exact (loaded.settled member).2
  | _ => contradiction

theorem routed_deeds (ops : Operators) (chip : Chip) :
    ∀ deed ∈ line.deeds ops chip, deed.Routed := by
  intro deed member
  have sets := (line.effect_deeds ops chip).2 deed member
  cases deed with
  | set v value => exact loaded.routed sets
  | forget => trivial

end Line.Loaded

/-! ### The order of names -/

namespace Deed

/-- The names set in a scope in turn, since they were last forgotten, after one more deed. A
name is noted each time it is set. -/
def noted (scope : Scope) (names : List String) : Deed → List String
  | set v _ => if v.scope = scope then names ++ [v.name] else names
  | forget => if scope = .chip then [] else names

/-- The names that deeds set in a scope in turn, since those of the scope were last forgotten. Data
fields are never forgotten. -/
def namesSet (scope : Scope) (deeds : List Deed) : List String := deeds.foldl (noted scope) []

/-- A name that is noted was noted before, or it is that of a variable of the scope that one of
the deeds sets. -/
theorem mem_or_exists_of_mem_noted {scope : Scope} {names : List String} {deeds : List Deed}
    {name : String} (member : name ∈ deeds.foldl (noted scope) names) :
    name ∈ names ∨ ∃ v value, set v value ∈ deeds ∧ v.scope = scope ∧ v.name = name := by
  induction deeds generalizing names with
  | nil => exact .inl member
  | cons deed rest inductionHypothesis =>
    rcases inductionHypothesis member with before | ⟨v, value, later, same⟩
    · cases deed with
      | set v value =>
        rw [noted] at before
        split at before
        · next inScope =>
          rcases List.mem_append.mp before with earlier | here
          · exact .inl earlier
          · exact .inr ⟨v, value, List.mem_cons_self, inScope, (List.mem_singleton.mp here).symm⟩
        · exact .inl before
      | forget =>
        rw [noted] at before
        split at before
        · contradiction
        · exact .inl before
    · exact .inr ⟨v, value, List.mem_cons_of_mem _ later, same⟩

end Deed

/-- A name behind others is a new one, or it is among them. -/
theorem eraseDups_concat (names : List String) (name : String) :
    (names ++ [name]).eraseDups =
      if name ∈ names then names.eraseDups else names.eraseDups ++ [name] := by
  rw [List.eraseDups_append]
  by_cases member : name ∈ names <;> simp [List.removeAll, member, List.eraseDups_cons]

namespace Chip

/-- The names that are bound in a scope of a chip, in their order. -/
def names (chip : Chip) (scope : Scope) : List String := Bindings.names (chip.bindings scope)

theorem bindings_write (chip : Chip) (v : Variable) (value : Value) (scope : Scope) :
    (chip.write v value).bindings scope =
      if v.scope = scope then Bindings.put v.name value (chip.bindings scope)
      else chip.bindings scope := by
  obtain ⟨name, own⟩ := v
  cases own <;> cases scope <;> rfl

theorem nodup_after {chip : Chip} {scope : Scope} (unique : (chip.names scope).Nodup)
    (deed : Deed) : ((chip.after deed).names scope).Nodup := by
  cases deed with
  | set v value =>
    rw [after, names, bindings_write]
    split
    · exact Bindings.nodup_names_put v.name value unique
    · exact unique
  | forget =>
    cases scope with
    | chip => exact List.nodup_nil
    | field => exact unique

/-- A deed binds the name that it sets behind the others, unless it is bound. In the other scope
nothing changes. -/
theorem names_after {chip : Chip} {scope : Scope} {noted : List String}
    (inOrder : chip.names scope = noted.eraseDups) (deed : Deed) :
    (chip.after deed).names scope = (deed.noted scope noted).eraseDups := by
  cases deed with
  | set v value =>
    rw [after, names, bindings_write, Deed.noted]
    split
    · rw [Bindings.names_put, ← names, inOrder, eraseDups_concat]
      simp only [List.mem_eraseDups]
    · exact inOrder
  | forget =>
    cases scope with
    | chip => rfl
    | field => exact inOrder

/-- Deeds bind the names that they set, each where it was first set since the names of its scope
were last forgotten, and each once. -/
theorem names_afterAll {chip : Chip} {scope : Scope} {noted : List String}
    (inOrder : chip.names scope = noted.eraseDups) (unique : (chip.names scope).Nodup)
    (deeds : List Deed) :
    (chip.afterAll deeds).names scope = (deeds.foldl (Deed.noted scope) noted).eraseDups ∧
      ((chip.afterAll deeds).names scope).Nodup := by
  induction deeds generalizing chip noted with
  | nil => exact ⟨inOrder, unique⟩
  | cons deed rest inductionHypothesis =>
    exact inductionHypothesis (names_after inOrder deed) (nodup_after unique deed)

end Chip

/-! ### What can be reached -/

/-- What a chip can come to by what is done to its variables: a chip without variables has them set
by name and those of the chip forgotten, in between its cursor is moved or its error replaced,
and lines and programs that were read are run on it, by any interpreter under observers that
only watch. The deeds are all that was done to variables on the way. -/
inductive Chip.Reached : List Deed → Chip → Prop where
  | empty {chip : Chip} (locals : chip.locals = []) (fields : chip.fields = []) :
    Reached [] chip
  | set {deeds : List Deed} {chip : Chip} (reached : Reached deeds chip) (name : String)
      (value : Value) :
    Reached (deeds ++ [.set (.named name) value]) (chip.write (.named name) value)
  | forget {deeds : List Deed} {chip : Chip} (reached : Reached deeds chip) :
    Reached (deeds ++ [.forget]) chip.resetLocals
  | move {deeds : List Deed} {chip : Chip} (reached : Reached deeds chip) (nextLine : Int)
      (error : String) :
    Reached deeds { chip with nextLine, error }
  | text {deeds : List Deed} {ω : Type} {i : Interpreter ω} {m : Machine ω}
      (reached : Reached deeds m.chip) (watching : i.hooks.Watching) (text : String) :
    Reached (deeds ++ i.textDeeds text m.chip) (i.executeLine text m).2.chip
  | line {deeds : List Deed} {ω : Type} {i : Interpreter ω} {m : Machine ω}
      (reached : Reached deeds m.chip) (watching : i.hooks.Watching) {line : Line}
      (loaded : line.Loaded) :
    Reached (deeds ++ line.deeds i.operators m.chip) (i.runLine line m).2.chip
  | tick {deeds : List Deed} {ω : Type} {i : Interpreter ω} {m : Machine ω}
      (reached : Reached deeds m.chip) (watching : i.hooks.Watching) {p : Program}
      (loaded : p.Loaded) :
    Reached (deeds ++ i.tickDeeds p m.chip) (i.step p m).2.chip

namespace Chip

/-- A chip has the variables that the deeds leave by which it was reached, and each of them sets
a variable that its own name leads to. So everything about its variables can be told from the
deeds. -/
structure Replays (deeds : List Deed) (chip : Chip) : Prop where
  same : chip.SameVariables ((fresh "").afterAll deeds)
  routed : ∀ deed ∈ deeds, deed.Routed

theorem Replays.append {deeds more : List Deed} {chip left : Chip} (replays : Replays deeds chip)
    (same : left.SameVariables (chip.afterAll more)) (routed : ∀ deed ∈ more, deed.Routed) :
    Replays (deeds ++ more) left := by
  constructor
  · rw [afterAll_append]
    exact same.trans (replays.same.afterAll more)
  · intro deed member
    rcases List.mem_append.mp member with before | behind
    · exact replays.routed deed before
    · exact routed deed behind

end Chip

namespace Chip

/-- A chip that can be reached has the variables that its deeds leave.

Proof: induction over what was done. Lines and ticks are done by their deeds. -/
theorem Reached.replays {deeds : List Deed} {chip : Chip} (reached : Reached deeds chip) :
    Replays deeds chip := by
  induction reached with
  | empty locals fields => exact ⟨⟨locals, fields⟩, fun _ member => absurd member List.not_mem_nil⟩
  | set _ name value inductionHypothesis =>
    apply inductionHypothesis.append (.refl _)
    intro deed member
    rw [List.mem_singleton.mp member]
    exact Variable.routed_named name
  | forget _ inductionHypothesis =>
    apply inductionHypothesis.append (.refl _)
    intro deed member
    rw [List.mem_singleton.mp member]
    trivial
  | move _ nextLine error inductionHypothesis =>
    exact ⟨⟨inductionHypothesis.same.locals, inductionHypothesis.same.fields⟩,
      inductionHypothesis.routed⟩
  | @text deeds ω i m _ watching text inductionHypothesis =>
    apply inductionHypothesis.append (Interpreter.executeLine_deeds watching text m)
    unfold Interpreter.textDeeds
    cases read : Line.parse text i.file m.chip.nextLine with
    | error error => exact fun _ member => absurd member List.not_mem_nil
    | ok line => exact Line.Loaded.routed_deeds (.inl ⟨_, _, _, read⟩) _ _
  | line _ watching loaded inductionHypothesis =>
    exact inductionHypothesis.append (Interpreter.runLine_deeds watching _ _)
      (loaded.routed_deeds _ _)
  | @tick deeds ω i m _ watching p loaded inductionHypothesis =>
    apply inductionHypothesis.append (Interpreter.step_deeds watching p m)
    unfold Interpreter.tickDeeds
    cases p.error? m.chip.nextLine with
    | some error => exact fun _ member => absurd member List.not_mem_nil
    | none =>
      rcases p.line_mem_or_blank m.chip.nextLine with inProgram | blank
      · exact Line.Loaded.routed_deeds (.inr ⟨p, loaded, inProgram⟩) _ _
      · simp only [Line.deeds, blank, Effect.deedsAll]
        exact fun _ member => absurd member List.not_mem_nil

/-- How the variables of a chip are kept after deeds. Fields have names that start with a colon, and
the variables of the chip have others; all names are in lower case, and none is bound twice or in
both scopes. In each scope the names stand where they were first set since they were last
forgotten; and a snapshot has one entry for each of them, with those of the chip first. -/
structure Orderly (deeds : List Deed) (chip : Chip) : Prop where
  fields : ∀ name ∈ chip.names .field, isFieldName name = true
  locals : ∀ name ∈ chip.names .chip, isFieldName name = false
  lower : ∀ scope, ∀ name ∈ chip.names scope, Text.lower name = name
  apart : ∀ name ∈ chip.names .chip, name ∉ chip.names .field
  unique : ∀ scope, (chip.names scope).Nodup
  order : ∀ scope, chip.names scope = (Deed.namesSet scope deeds).eraseDups
  snapshot : chip.snapshot =
    (chip.locals ++ chip.fields).map fun entry => (entry.1, snapshotText entry.2)

/-- A snapshot of distinct names has the entries of all bindings. No entry takes the place of
another. -/
theorem snapshot_of_nodup {chip : Chip} (unique : (chip.names .chip ++ chip.names .field).Nodup) :
    chip.snapshot =
      (chip.locals ++ chip.fields).map fun entry => (entry.1, snapshotText entry.2) := by
  rw [snapshot, Bindings.putAll_of_nodup, List.map_append]
  simpa [Bindings.names, names, bindings, Function.comp_def] using unique

theorem Replays.orderly {deeds : List Deed} {chip : Chip} (replays : Replays deeds chip) :
    Orderly deeds chip := by
  have both (scope : Scope) :
      chip.names scope = (Deed.namesSet scope deeds).eraseDups ∧ (chip.names scope).Nodup := by
    have bare : (fresh "").names scope = [].eraseDups := by
      cases scope <;> rfl
    have after := names_afterAll bare (bare ▸ List.nodup_nil) deeds
    rwa [names, ← replays.same.bindings scope] at after
  have told {scope : Scope} {name : String} (member : name ∈ chip.names scope) :
      Text.lower name = name ∧ (isFieldName name = true ↔ scope = .field) := by
    rw [(both scope).1, List.mem_eraseDups] at member
    rcases Deed.mem_or_exists_of_mem_noted member with none | ⟨v, value, isSet, rfl, rfl⟩
    · exact absurd none List.not_mem_nil
    · exact v.routed_iff.mp (replays.routed _ isSet)
  have apart (name : String) (inChip : name ∈ chip.names .chip) : name ∉ chip.names .field := by
    intro inFields
    exact absurd ((told inChip).2.mp ((told inFields).2.mpr rfl)) (by decide)
  constructor
  · intro name member
    exact (told member).2.mpr rfl
  · intro name member
    rw [Bool.eq_false_iff]
    intro isField
    exact absurd ((told member).2.mp isField) (by decide)
  · intro scope name member
    exact (told member).1
  · exact apart
  · exact fun scope => (both scope).2
  · exact fun scope => (both scope).1
  · apply snapshot_of_nodup
    refine List.nodup_append.mpr ⟨(both .chip).2, (both .field).2, ?_⟩
    rintro name inChip _ inFields rfl
    exact apart name inChip inFields

/-- Whether a name leads to a variable on a chip: it reads as the variable does; once the
variable is set, it reads as the value; and all names with another lower-case form read as
before then. It is asked of reading, so it holds also where the variable is not set. -/
structure LeadsTo (chip : Chip) (name : String) (v : Variable) : Prop where
  lookup : chip.read v = chip.read (.named name)
  stored : ∀ value, (chip.write v value).read (.named name) = value
  others : ∀ value other, Text.lower other ≠ Text.lower v.name →
    (chip.write v value).read (.named other) = chip.read (.named other)

/-- The name of a variable that it leads to does so in every letter case. It is lowered first,
so its case does not matter. -/
theorem leadsTo_of_routed (chip : Chip) {v : Variable} (routed : v.Routed) {name : String}
    (same : SameLetters name v.name) : chip.LeadsTo name v := by
  constructor
  · rw [routed.named_of_sameLetters same]
  · intro value
    rw [routed.named_of_sameLetters same, read, read?_write_self, Option.getD_some]
  · intro value other distinct
    rw [read, read?_write_of_ne, read]
    rintro rfl
    exact distinct (by rw [Variable.named, Text.lower_lower])

/-- However a chip was reached from one without variables, it has the variables that its deeds
leave, and keeps them in order. The names of the variables that are mentioned in lines that were
read lead to them, in every letter case. -/
theorem Reached.well_kept {deeds : List Deed} {chip : Chip} (reached : Reached deeds chip) :
    chip.SameVariables ((fresh "").afterAll deeds) ∧ Orderly deeds chip ∧
      ∀ (line : Line) (v : Variable), line.Loaded → v ∈ line.mentions →
        ∀ name, SameLetters name v.name → chip.LeadsTo name v :=
  ⟨reached.replays.same, reached.replays.orderly, fun _ _ loaded mentioned _ same =>
    chip.leadsTo_of_routed (loaded.routed mentioned) same⟩

/-- A chip on which a variable was set by its name in capitals. -/
def oneVariable : Chip := (fresh "chip").write (.named "B") (.num .one)

/-- A line keeps its variables in order, and a field that it sets is reached by its name in
capitals. -/
theorem Reached.well_kept_oneVariable :
    ∃ line : Line, Line.parse ":Door=b++ C=:door" "<line>" 1 = .ok line ∧
      let chip := (Interpreter.plain.executeLine ":Door=b++ C=:door" (.start oneVariable ())).2.chip
      (∃ deeds, Orderly deeds chip) ∧ chip.LeadsTo ":DOOR" ⟨":door", .field⟩ := by
  obtain ⟨line, read, mentioned⟩ := exists_ok_of_any
    (x := Line.parse ":Door=b++ C=:door" "<line>" 1)
    (f := fun line => decide (⟨":door", .field⟩ ∈ line.mentions)) (by decide +kernel)
  have start : Reached ([] ++ [.set (.named "B") (.num .one)])
      (Machine.start oneVariable ()).chip := (Reached.empty rfl rfl).set "B" (.num .one)
  obtain ⟨_, orderly, leads⟩ :=
    (start.text (i := .plain) Hooks.watching_none ":Door=b++ C=:door").well_kept
  exact ⟨line, read, ⟨_, orderly⟩,
    leads line _ (.inl ⟨_, _, _, read⟩) (of_decide_eq_true mentioned) ":DOOR" (by decide)⟩

end Chip

end YololChip
