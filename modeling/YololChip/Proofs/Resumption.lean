import YololChip.Proofs.Views

/-!
# What goes on no more

A parser looks at one or two tokens behind those that it takes, to see that nothing goes on there.
Of other tokens in their place it sees the same if they begin with one that goes on with nothing, or
share their first token with the old ones and go on with nothing behind it, or share two.

So no operator is found among them that was not found before, and an operator in front of them is
found again.
-/

namespace YololChip

/-- Whether nothing goes on with a lexeme that stands behind it: it is no part of an operator
between operands, of a step or of an assignment. Other lexemes may break off an expression too,
but these always do. -/
def Lexeme.breaks : Lexeme → Bool
  | number _ | newline | finish => true
  | symbol s => s = .rightParen
  | keyword k => k = .thenWord || k = .elseWord || k = .endWord
  | _ => false

namespace Grammar

/-! ### Other tokens -/

/-- Whether tokens go on no more than others do, as far as a parser looks ahead. If they share just
the first one, then that is not half of an operator that is written with an equals sign. -/
inductive Resumes : List Token → List Token → Prop where
  | new {ts us : List Token} (breaks : (front us).lexeme.breaks = true) : Resumes ts us
  | one {t : Token} {ts us : List Token} (noUnequal : isPair .bang .equals (t :: ts) = false)
    (noEqual : isPair .equals .equals (t :: ts) = false)
    (breaks : (front us).lexeme.breaks = true) : Resumes (t :: ts) (t :: us)
  | two {a b : Token} {ts us : List Token} : Resumes (a :: b :: ts) (a :: b :: us)

/-- A symbol that goes on with something is no second half of a pair behind which nothing goes
on. -/
theorem isPair_cons_of_breaks {us : List Token} (breaks : (front us).lexeme.breaks = true)
    (t : Token) (first : Symbol) {second : Symbol}
    (goesOn : (Lexeme.symbol second).breaks = false) : isPair first second (t :: us) = false := by
  cases us with
  | nil => rfl
  | cons u us =>
    have differs : u.lexeme ≠ .symbol second := by
      intro same
      change u.lexeme.breaks = true at breaks
      rw [same, goesOn] at breaks
      contradiction
    simp [isPair, differs]

/-- A symbol that goes on with something is no first half of a pair where nothing goes on. -/
theorem isPair_of_breaks {us : List Token} (breaks : (front us).lexeme.breaks = true)
    {first : Symbol} (goesOn : (Lexeme.symbol first).breaks = false) (second : Symbol) :
    isPair first second us = false := by
  cases us with
  | nil => rfl
  | cons u us =>
    have differs : u.lexeme ≠ .symbol first := by
      intro same
      change u.lexeme.breaks = true at breaks
      rw [same, goesOn] at breaks
      contradiction
    cases us <;> simp [isPair, differs]

theorem halves_of_pair {first second : Symbol} {a b : Token} {ts : List Token}
    (pair : isPair first second (a :: b :: ts) = true) :
    a.lexeme = .symbol first ∧ b.lexeme = .symbol second := by
  simp only [isPair, Bool.and_eq_true, decide_eq_true_eq] at pair
  exact pair.1

theorem front_of_pair {first second : Symbol} {ts : List Token}
    (pair : isPair first second ts = true) : (front ts).lexeme = .symbol first := by
  match ts with
  | [] | [_] => contradiction
  | a :: b :: rest => exact (halves_of_pair pair).1

/-- A token that is another symbol is no first half of a pair. -/
theorem isPair_of_ne {t : Token} {first : Symbol} (differs : t.lexeme ≠ .symbol first)
    (second : Symbol) (ts : List Token) : isPair first second (t :: ts) = false := by
  cases ts <;> simp [isPair, differs]

/-- The first of tokens does not depend on what is behind them. -/
theorem front_append {used : List Token} (inhabited : used ≠ []) (ts : List Token) :
    front (used ++ ts) = front used := by
  cases used with
  | nil => exact absurd rfl inhabited
  | cons => rfl

theorem locate_append (sheet : Sheet) {used : List Token} (inhabited : used ≠ [])
    (ts : List Token) : sheet.locate (used ++ ts) = sheet.locate used := by
  rw [Sheet.locate, front_append inhabited, Sheet.locate]

/-- Nothing goes on where a token stands with which nothing does. -/
theorem breaks_cons {t : Token} {lexeme : Lexeme} (same : t.lexeme = lexeme)
    (breaks : lexeme.breaks = true) (us : List Token) : (front (t :: us)).lexeme.breaks = true :=
  same ▸ breaks

namespace Resumes

variable {ts us : List Token}

/-- What stands at the front and goes on with something stood there before. What is new can only
be something with which nothing goes on. -/
theorem front_eq (resumes : Resumes ts us) {lexeme : Lexeme} (goesOn : lexeme.breaks = false)
    (found : (front us).lexeme = lexeme) : (front ts).lexeme = lexeme := by
  cases resumes with
  | new breaks =>
    rw [found, goesOn] at breaks
    contradiction
  | one | two => exact found

theorem isPair_eq (resumes : Resumes ts us) {first second : Symbol}
    (goesOn : (Lexeme.symbol first).breaks = false)
    (goesOnToo : (Lexeme.symbol second).breaks = false) (noPair : isPair first second ts = false) :
    isPair first second us = false := by
  cases resumes with
  | new breaks => exact isPair_of_breaks breaks goesOn second
  | one _ _ breaks => exact isPair_cons_of_breaks breaks _ first goesOnToo
  | two => exact noPair

/-- A token before makes a pair with what stands there only if it made one before. -/
theorem isPair_cons (resumes : Resumes ts us) (t : Token) {first second : Symbol}
    (goesOn : (Lexeme.symbol second).breaks = false)
    (noPair : isPair first second (t :: ts) = false) : isPair first second (t :: us) = false := by
  cases resumes with
  | new breaks => exact isPair_cons_of_breaks breaks t first goesOn
  | one | two => exact noPair

/-- Behind the same tokens other tokens go on no more than they do by themselves. If it is one
token only, it is not half of an operator that is written with an equals sign. -/
theorem behind (resumes : Resumes ts us) {used : List Token}
    (alone : ∀ t, used = [t] → isPair .bang .equals (t :: ts) = false ∧
      isPair .equals .equals (t :: ts) = false) : Resumes (used ++ ts) (used ++ us) := by
  match used with
  | [] => exact resumes
  | [t] =>
    cases resumes with
    | new breaks =>
      obtain ⟨noUnequal, noEqual⟩ := alone t rfl
      exact .one noUnequal noEqual breaks
    | one | two => exact .two
  | _ :: _ :: _ => exact .two

end Resumes

/-- Whether tokens are no single symbol that may be half of an operator. What was read of other
tokens cannot change by what is put behind them. -/
def NoHalf (used : List Token) : Prop :=
  ∀ t, used = [t] → t.lexeme ≠ .symbol .bang ∧ t.lexeme ≠ .symbol .equals

theorem noHalf_of_length {used : List Token} (notOne : used.length ≠ 1) : NoHalf used :=
  fun _ single => absurd (congrArg List.length single) notOne

/-- What is no half of an operator is none with more tokens behind it. Only a single symbol can
be half of one. -/
theorem NoHalf.append {used : List Token} (whole : NoHalf used) (inhabited : used ≠ [])
    (more : List Token) : NoHalf (used ++ more) := by
  intro t single
  cases used with
  | nil => exact absurd rfl inhabited
  | cons u others =>
    obtain ⟨rfl, none⟩ := List.cons.inj single
    obtain ⟨rfl, _⟩ := List.append_eq_nil_iff.mp none
    exact whole u rfl

/-- Behind tokens that are no half of an operator other tokens go on no more than by themselves. -/
theorem Resumes.behindWhole {used ts us : List Token} (whole : NoHalf used)
    (resumes : Resumes ts us) : Resumes (used ++ ts) (used ++ us) :=
  resumes.behind fun t single =>
    ⟨isPair_of_ne (whole t single).1 _ _, isPair_of_ne (whole t single).2 _ _⟩

/-! ### Operators -/

/-- Whether what is found at the front of tokens takes as many of them as its width says, and is
found again if other tokens are behind these. It takes one at least. -/
def Again {ω : Type} (found : List Token → Option (ω × Nat)) (what : ω) (width : Nat)
    (ts : List Token) : Prop :=
  ∃ sign rest, ts = sign ++ rest ∧ sign.length = width ∧ sign ≠ [] ∧ NoHalf sign ∧
    ∀ us, Resumes rest us → found (sign ++ us) = some (what, width)

/-- Whether a matcher looks no further ahead than one token behind what it finds. That is as far
as `Resumes` lets two rows of tokens differ. -/
structure Peeks (found : Matcher) : Prop where
  nothing : found [] = none
  stops : ∀ ⦃ts us : List Token⦄, Resumes ts us → found ts = none → found us = none
  again : ∀ ⦃ts : List Token⦄ ⦃op : BinaryOperator⦄ ⦃width : Nat⦄,
    found ts = some (op, width) → Again found op width ts

theorem lookup_sign (lexeme other : Lexeme) (op : BinaryOperator)
    (signs : List (Lexeme × BinaryOperator)) : ((other, op) :: signs).lookup lexeme =
      if lexeme = other then some op else signs.lookup lexeme := by
  by_cases same : lexeme = other
  · rw [if_pos same, List.lookup_cons, beq_iff_eq.mpr same]
  · rw [if_neg same, List.lookup_cons, beq_false_of_ne same]

/-- A matcher that looks at nothing but the first lexeme, for some that are operators by
themselves. -/
theorem Peeks.of_signs (signs : List (Lexeme × BinaryOperator)) {found : Matcher}
    (shape : ∀ ts, found ts = (signs.lookup (front ts).lexeme).map (·, 1))
    (whole : ∀ sign ∈ signs, sign.1.breaks = false ∧ sign.1 ≠ .symbol .bang ∧
      sign.1 ≠ .symbol .equals) : Peeks found := by
  have member {lexeme : Lexeme} {op : BinaryOperator} (here : signs.lookup lexeme = some op) :
      (lexeme, op) ∈ signs := by
    obtain ⟨before, behind, rfl, _⟩ := List.lookup_eq_some_iff.mp here
    simp
  have missing {lexeme : Lexeme} (breaks : lexeme.breaks = true) : signs.lookup lexeme = none := by
    cases here : signs.lookup lexeme with
    | none => rfl
    | some op =>
      have goesOn := (whole _ (member here)).1
      rw [breaks] at goesOn
      contradiction
  refine ⟨?_, ?_, ?_⟩
  · rw [shape, missing rfl]
    rfl
  · intro ts us resumes none
    rw [shape] at none ⊢
    cases resumes with
    | new breaks => rw [missing breaks]; rfl
    | one | two => exact none
  · intro ts op width here
    rw [shape] at here
    obtain ⟨what, isOp, same⟩ := Option.map_eq_some_iff.mp here
    obtain ⟨rfl, rfl⟩ := Prod.mk.inj same
    cases ts with
    | nil =>
      rw [missing rfl] at isOp
      contradiction
    | cons t rest =>
      refine ⟨[t], rest, rfl, rfl, List.cons_ne_nil _ _, ?_, fun us _ => ?_⟩
      · rintro _ ⟨⟩
        exact (whole _ (member isOp)).2
      · rw [shape, show (front ([t] ++ us)).lexeme = (front (t :: rest)).lexeme from rfl, isOp]
        rfl

theorem peeks_matchOr : Peeks matchOr := by
  refine .of_signs [(.keyword .or, .or)] (fun ts => ?_) (by simp [Lexeme.breaks])
  unfold matchOr
  split <;> simp_all [lookup_sign]

theorem peeks_matchAnd : Peeks matchAnd := by
  refine .of_signs [(.keyword .and, .and)] (fun ts => ?_) (by simp [Lexeme.breaks])
  unfold matchAnd
  split <;> simp_all [lookup_sign]

theorem peeks_matchSum : Peeks matchSum := by
  refine .of_signs [(.symbol .plus, .add), (.symbol .minus, .sub)] (fun ts => ?_)
    (by simp [Lexeme.breaks])
  unfold matchSum
  split <;> simp_all [lookup_sign]

theorem peeks_matchProduct : Peeks matchProduct := by
  refine .of_signs [(.symbol .star, .mul), (.symbol .slash, .div), (.symbol .percent, .mod)]
    (fun ts => ?_) (by simp [Lexeme.breaks])
  unfold matchProduct
  split <;> simp_all [lookup_sign]

/-- Two tokens that are found to be an operator are found again. What stands behind them is not
looked at. -/
theorem Again.pair {ω : Type} {found : List Token → Option (ω × Nat)} {what : ω}
    {first second : Symbol} {ts : List Token} (isPair : isPair first second ts = true)
    (finds : ∀ us, Grammar.isPair first second us = true →
      (front us).lexeme = .symbol first → found us = some (what, 2)) : Again found what 2 ts := by
  match ts with
  | [] | [_] => contradiction
  | a :: b :: rest =>
    refine ⟨[a, b], rest, rfl, rfl, List.cons_ne_nil _ _, ?_, ?_⟩
    · intro t single
      exact absurd (List.cons.inj single).2 (List.cons_ne_nil _ _)
    · intro us _
      exact finds _ isPair (front_of_pair isPair)

theorem peeks_matchEquality : Peeks matchEquality where
  nothing := rfl
  stops := by
    intro ts us resumes none
    unfold matchEquality at none ⊢
    have noEqual : isPair .equals .equals ts = false := by
      rw [Bool.eq_false_iff]
      intro isPair
      rw [if_pos isPair] at none
      contradiction
    have noUnequal : isPair .bang .equals ts = false := by
      rw [Bool.eq_false_iff]
      intro isPair
      rw [noEqual, if_neg Bool.false_ne_true, if_pos isPair] at none
      contradiction
    rw [resumes.isPair_eq rfl rfl noEqual, resumes.isPair_eq rfl rfl noUnequal]
    rfl
  again := by
    intro ts op width here
    unfold matchEquality at here
    split at here
    · next isPair =>
      obtain ⟨rfl, rfl⟩ := Prod.mk.inj (Option.some.inj here)
      exact .pair isPair fun us isPairToo _ => if_pos isPairToo
    · split at here
      · next isPair =>
        obtain ⟨rfl, rfl⟩ := Prod.mk.inj (Option.some.inj here)
        refine .pair isPair fun us isPairToo isBang => ?_
        have noEqual : Grammar.isPair .equals .equals us = false := by
          cases us with
          | nil => rfl
          | cons u us => exact isPair_of_ne (by rw [show u.lexeme = _ from isBang]; simp) _ _
        rw [matchEquality, noEqual, if_neg Bool.false_ne_true, if_pos isPairToo]
      · contradiction

theorem Again.comparison {ts : List Token} {s : Symbol} {op : BinaryOperator}
    (isSign : (front ts).lexeme = .symbol s) (noEqual : isPair s .equals ts = false)
    (finds : ∀ us, (front us).lexeme = .symbol s → isPair s .equals us = false →
      matchComparison us = some (op, 1)) (noBang : s ≠ .bang) (noEquals : s ≠ .equals) :
    Again matchComparison op 1 ts := by
  cases ts with
  | nil => contradiction
  | cons t rest =>
    have same : t.lexeme = .symbol s := isSign
    refine ⟨[t], rest, rfl, rfl, List.cons_ne_nil _ _, ?_, ?_⟩
    · rintro _ ⟨⟩
      simp [same, noBang, noEquals]
    · intro us resumes
      exact finds (t :: us) isSign (resumes.isPair_cons t rfl noEqual)

theorem isPair_of_front {ts : List Token} {s first : Symbol}
    (isSign : (front ts).lexeme = .symbol s) (differs : s ≠ first) (second : Symbol) :
    isPair first second ts = false := by
  cases ts with
  | nil => rfl
  | cons t rest =>
    refine isPair_of_ne ?_ _ _
    rw [show t.lexeme = .symbol s from isSign]
    exact fun same => differs (Lexeme.symbol.inj same)

/-- No comparison is found just where neither of its signs is at the front. -/
theorem matchComparison_eq_none {ts : List Token} : matchComparison ts = none ↔
    (front ts).lexeme ≠ .symbol .less ∧ (front ts).lexeme ≠ .symbol .greater := by
  constructor
  · intro none
    unfold matchComparison at none
    split at none
    · contradiction
    split at none
    · contradiction
    split at none
    · contradiction
    · contradiction
    · next noLess noGreater => exact ⟨noLess, noGreater⟩
  · rintro ⟨noLess, noGreater⟩
    have noPair {s : Symbol} (noSign : (front ts).lexeme ≠ .symbol s) :
        isPair s .equals ts = false :=
      Bool.eq_false_iff.mpr fun pair => noSign (front_of_pair pair)
    rw [matchComparison, noPair noLess, noPair noGreater, if_neg Bool.false_ne_true,
      if_neg Bool.false_ne_true]
    split
    · next isLess => exact absurd isLess noLess
    · next isGreater => exact absurd isGreater noGreater
    · rfl

theorem peeks_matchComparison : Peeks matchComparison where
  nothing := rfl
  stops := by
    intro ts us resumes none
    obtain ⟨noLess, noGreater⟩ := matchComparison_eq_none.mp none
    rw [matchComparison_eq_none]
    exact ⟨mt (resumes.front_eq rfl) noLess, mt (resumes.front_eq rfl) noGreater⟩
  again := by
    intro ts op width here
    unfold matchComparison at here
    split at here
    · next isPair =>
      obtain ⟨rfl, rfl⟩ := Prod.mk.inj (Option.some.inj here)
      exact .pair isPair fun us isPairToo _ => if_pos isPairToo
    · next noLess =>
      split at here
      · next isPair =>
        obtain ⟨rfl, rfl⟩ := Prod.mk.inj (Option.some.inj here)
        refine .pair isPair fun us isPairToo isGreater => ?_
        have noLess : Grammar.isPair .less .equals us = false :=
          isPair_of_front isGreater (by decide) _
        rw [matchComparison, noLess, if_neg Bool.false_ne_true, if_pos isPairToo]
      · next noGreater =>
        split at here
        · next isLess =>
          obtain ⟨rfl, rfl⟩ := Prod.mk.inj (Option.some.inj here)
          refine .comparison isLess (Bool.eq_false_iff.mpr noLess) ?_ (by decide) (by decide)
          intro us isLessToo noEqual
          have noOther : isPair .greater .equals us = false :=
            isPair_of_front isLessToo (by decide) _
          simp [matchComparison, noEqual, noOther, isLessToo]
        · next isGreater =>
          obtain ⟨rfl, rfl⟩ := Prod.mk.inj (Option.some.inj here)
          refine .comparison isGreater (Bool.eq_false_iff.mpr noGreater) ?_ (by decide) (by decide)
          intro us isGreaterToo noEqual
          have noOther : isPair .less .equals us = false :=
            isPair_of_front isGreaterToo (by decide) _
          simp [matchComparison, noEqual, noOther, isGreaterToo]
        · contradiction

/-! ### Signs -/

theorem nameOf?_of_breaks {lexeme : Lexeme} (breaks : lexeme.breaks = true) :
    lexeme.nameOf? = none := by
  cases lexeme with
  | name | field => contradiction
  | _ => rfl

/-- Where no step stands before a variable there is none before other tokens that go on no more. -/
theorem isStepBefore_cons {t : Token} {sign : Symbol} {ts us : List Token}
    (goesOn : (Lexeme.symbol sign).breaks = false) (resumes : Resumes ts us)
    (noStep : isStepBefore sign (t :: ts) = false) : isStepBefore sign (t :: us) = false := by
  cases resumes with
  | new breaks => rw [isStepBefore, isPair_cons_of_breaks breaks t sign goesOn, Bool.false_and]
  | @one u ts us _ _ breaks =>
    have noName : (front ((t :: u :: us).drop 2)).lexeme.nameOf? = none := nameOf?_of_breaks breaks
    rw [isStepBefore, noName, Option.isSome_none, Bool.and_false]
  | two => exact noStep

/-- Whether the sign at the front of tokens is found again if other tokens are behind it that go
on no more. But a variable behind it, if there is one, stays: a step sign is one only before a
variable. -/
def SignAgain (op : UnaryOperator) (width : Nat) (ts : List Token) : Prop :=
  ∃ sign rest, ts = sign ++ rest ∧ sign.length = width ∧ sign ≠ [] ∧
    (∀ t ∈ sign, t.lexeme.beginsExpr = true) ∧
    ∀ us, Resumes rest us → ((front rest).lexeme.nameOf? ≠ none → us.head? = rest.head?) →
      matchSign (sign ++ us) = some (op, width)

theorem SignAgain.step {ts : List Token} {sign : Symbol} {op : UnaryOperator}
    (step : isStepBefore sign ts = true) (begins : (Lexeme.symbol sign).beginsExpr = true)
    (finds : ∀ us, (front us).lexeme = .symbol sign → isStepBefore sign us = true →
      matchSign us = some (op, 2)) : SignAgain op 2 ts := by
  obtain ⟨pair, named⟩ := Bool.and_eq_true_iff.mp step
  match ts with
  | [] | [_] => contradiction
  | a :: b :: rest =>
    obtain ⟨same, sameToo⟩ := halves_of_pair pair
    refine ⟨[a, b], rest, rfl, rfl, List.cons_ne_nil _ _, ?_, fun us _ stays => ?_⟩
    · simp [same, sameToo, begins]
    have sameFront : front us = front rest := by
      rw [front, List.headD_eq_head?_getD, stays (Option.isSome_iff_ne_none.mp named),
        ← List.headD_eq_head?_getD, ← front]
    have namedToo : (front (([a, b] ++ us).drop 2)).lexeme.nameOf?.isSome = true := by
      rw [show ([a, b] ++ us).drop 2 = us from rfl, sameFront]
      exact named
    exact finds _ same (Bool.and_eq_true_iff.mpr ⟨pair, namedToo⟩)

theorem again_matchSign {ts : List Token} {op : UnaryOperator} {width : Nat}
    (here : matchSign ts = some (op, width)) : SignAgain op width ts := by
  unfold matchSign at here
  split at here
  · next k found =>
    obtain ⟨t, more, rfl, same⟩ := Takes.exists_of_front found rfl
    obtain ⟨what, isUnary, shape⟩ := Option.map_eq_some_iff.mp here
    obtain ⟨rfl, rfl⟩ := Prod.mk.inj shape
    refine ⟨[t], more, rfl, rfl, List.cons_ne_nil _ _, ?_, fun us _ _ => ?_⟩
    · rw [List.forall_mem_singleton, same]
      exact Option.isSome_iff_exists.mpr ⟨_, isUnary⟩
    · simp only [matchSign, List.singleton_append, show (front (t :: us)).lexeme = _ from same,
        isUnary, Option.map_some]
  · split at here
    · next step =>
      obtain ⟨rfl, rfl⟩ := Prod.mk.inj (Option.some.inj here)
      refine .step step rfl fun us isPlus stepToo => ?_
      rw [matchSign, isPlus]
      exact if_pos stepToo
    · contradiction
  · next found =>
    split at here
    · next step =>
      obtain ⟨rfl, rfl⟩ := Prod.mk.inj (Option.some.inj here)
      refine .step step rfl fun us isMinus stepToo => ?_
      rw [matchSign, isMinus]
      exact if_pos stepToo
    · next noStep =>
      obtain ⟨rfl, rfl⟩ := Prod.mk.inj (Option.some.inj here)
      obtain ⟨t, more, rfl, same⟩ := Takes.exists_of_front found rfl
      refine ⟨[t], more, rfl, rfl, List.cons_ne_nil _ _, by simp [same, Lexeme.beginsExpr], ?_⟩
      intro us resumes _
      have noStepToo := isStepBefore_cons rfl resumes (Bool.eq_false_iff.mpr noStep)
      rw [matchSign, show (front ([t] ++ us)).lexeme = _ from same]
      exact if_neg (Bool.eq_false_iff.mp noStepToo)
  · contradiction

/-- Where a factorial sign does not follow none follows among other tokens that go on no more. -/
theorem Resumes.noBang {ts us : List Token} (resumes : Resumes ts us)
    (none : ¬ ((front ts).lexeme = .symbol .bang ∧ isPair .bang .equals ts = false)) :
    ¬ ((front us).lexeme = .symbol .bang ∧ isPair .bang .equals us = false) := by
  rintro ⟨isBang, noPair⟩
  cases resumes with
  | new breaks =>
    rw [isBang] at breaks
    contradiction
  | one noUnequal => exact none ⟨isBang, noUnequal⟩
  | two => exact none ⟨isBang, noPair⟩

end Grammar

end YololChip
