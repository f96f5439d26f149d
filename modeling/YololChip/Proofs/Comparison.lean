import Mathlib.Data.String.Basic
import YololChip.Chip.Behaviour
import YololChip.Proofs.ExactValues

/-!
# Comparison

The six comparisons go by three rules. Numbers are in the order of their values; as soon as a text
takes part, both values are in the order of their texts; and values are equal only if they are of
one kind. Still all six hang together on values of any kinds: two are the negations of two others,
two are the other two turned round, and equal values are in order both ways.

Among values of one kind the order is total, and in order both ways is equal. Across kinds it is
neither equality nor, taken with the order of numbers, transitive: a number and its own text are in
order both ways and differ.
-/

namespace YololChip

/-- The operators that compare. The two that connect truth values are not among them. -/
def BinaryOperator.comparisons : List BinaryOperator :=
  [.less, .greater, .lessEqual, .greaterEqual, .equal, .notEqual]

/-- Whether two values are of one kind: both numbers, or both texts. Values of two kinds are
compared as texts, and are never equal. -/
inductive Value.SameKind : Value → Value → Prop where
  | numbers (a b : Fixed) : SameKind (.num a) (.num b)
  | texts (s t : String) : SameKind (.str s) (.str t)

theorem Value.SameKind.refl (a : Value) : a.SameKind a := by
  cases a with
  | num a => exact .numbers a a
  | str s => exact .texts s s

namespace Operators

/-- Whether an operator finds that two values are so: it gives the number that stands for truth.
A table may give anything else instead, or refuse, and then it does not. -/
def Holds (ops : Operators) (op : BinaryOperator) (a b : Value) : Prop :=
  ops.applyBinary op a b = .ok (.ofBool true)

instance (ops : Operators) (op : BinaryOperator) (a b : Value) : Decidable (ops.Holds op a b) :=
  inferInstanceAs (Decidable (_ = _))

theorem ofBool_inj {p q : Bool} : Value.ofBool p = Value.ofBool q ↔ p = q := by
  revert p q
  decide

section

variable {a b c : Value}

theorem holds_less : default.Holds .less a b ↔ Behaviour.less a b = true := by
  simp [Holds, applyBinary, default, Behaviour.binary, ofBool_inj]

theorem holds_greater : default.Holds .greater a b ↔ Behaviour.less b a = true := by
  simp [Holds, applyBinary, default, Behaviour.binary, ofBool_inj]

/-- A value is not above another one if that one is not less. -/
theorem holds_lessEqual : default.Holds .lessEqual a b ↔ Behaviour.less b a = false := by
  simp [Holds, applyBinary, default, Behaviour.binary, ofBool_inj]

theorem holds_greaterEqual : default.Holds .greaterEqual a b ↔ Behaviour.less a b = false := by
  simp [Holds, applyBinary, default, Behaviour.binary, ofBool_inj]

/-- A value is not above another one if that one is not below it. -/
theorem holds_lessEqual_swap :
    default.Holds .lessEqual a b ↔ default.Holds .greaterEqual b a := by
  rw [holds_lessEqual, holds_greaterEqual]

theorem holds_equal : default.Holds .equal a b ↔ a = b := by
  simp [Holds, applyBinary, default, Behaviour.binary, ofBool_inj]

theorem holds_notEqual : default.Holds .notEqual a b ↔ a ≠ b := by
  simp [Holds, applyBinary, default, Behaviour.binary, ofBool_inj]

end

/-! ### Orders -/

theorem lessEqual_numbers (a b : Fixed) :
    default.Holds .lessEqual (.num a) (.num b) ↔ a.value ≤ b.value := by
  rw [holds_lessEqual, Fixed.value_le_iff]
  change decide (b.units < a.units) = false ↔ a.units ≤ b.units
  rw [decide_eq_false_iff_not, Int.not_lt]

/-- Values that are not both numbers are in the order of their texts. -/
theorem lessEqual_texts {a b : Value} (noNumbers : ∀ m n, ¬(a = .num m ∧ b = .num n)) :
    default.Holds .lessEqual a b ↔ a.text ≤ b.text := by
  rw [holds_lessEqual]
  cases a with
  | num m =>
    cases b with
    | num n => exact absurd ⟨rfl, rfl⟩ (noNumbers m n)
    | str t => exact decide_eq_false_iff_not
  | str s =>
    cases b with
    | num n => exact decide_eq_false_iff_not
    | str t => exact decide_eq_false_iff_not

theorem lessEqual_strings (s t : String) : default.Holds .lessEqual (.str s) (.str t) ↔ s ≤ t :=
  lessEqual_texts (by simp)

/-! ### Laws -/

/-- Whether the comparisons of a table hang together: they always answer, opposites exclude each
other, equality is an equivalence, and values of one kind are in a total order. Across the kinds
texts decide, so two values may each be at most the other one without being equal; and the order
need not go on from one kind through another, which is why `trans` asks for kinds. -/
structure ComparesLawfully (ops : Operators) : Prop where
  answers : ∀ op ∈ BinaryOperator.comparisons, ∀ a b,
    ops.applyBinary op a b = .ok (.num .one) ∨ ops.applyBinary op a b = .ok (.num .zero)
  less_iff : ∀ a b, ops.Holds .less a b ↔ ¬ops.Holds .greaterEqual a b
  greater_iff : ∀ a b, ops.Holds .greater a b ↔ ¬ops.Holds .lessEqual a b
  notEqual_iff : ∀ a b, ops.Holds .notEqual a b ↔ ¬ops.Holds .equal a b
  less_swap : ∀ a b, ops.Holds .less a b ↔ ops.Holds .greater b a
  lessEqual_swap : ∀ a b, ops.Holds .lessEqual a b ↔ ops.Holds .greaterEqual b a
  equal : Equivalence (ops.Holds .equal)
  ordered : ∀ a b, ops.Holds .equal a b → ops.Holds .lessEqual a b ∧ ops.Holds .greaterEqual a b
  numbers : ∀ a b, ops.Holds .lessEqual (.num a) (.num b) ↔ a.value ≤ b.value
  texts : ∀ a b, (∀ m n, ¬(a = .num m ∧ b = .num n)) →
    (ops.Holds .lessEqual a b ↔ a.text ≤ b.text)
  total : ∀ a b, a.SameKind b → ops.Holds .lessEqual a b ∨ ops.Holds .lessEqual b a
  trans : ∀ a b c, a.SameKind b → b.SameKind c → ops.Holds .lessEqual a b →
    ops.Holds .lessEqual b c → ops.Holds .lessEqual a c
  bothWays : ∀ a b, a.SameKind b →
    (ops.Holds .lessEqual a b ∧ ops.Holds .lessEqual b a ↔ ops.Holds .equal a b)
  apart : ∀ a b, ¬a.SameKind b → ¬ops.Holds .equal a b ∧
    (ops.Holds .lessEqual a b ∧ ops.Holds .lessEqual b a ↔ a.text = b.text)

theorem one_or_zero (flag : Bool) :
    Value.ofBool flag = .num .one ∨ Value.ofBool flag = .num .zero := by
  cases flag with
  | true => exact .inl rfl
  | false => exact .inr rfl

theorem answers_default {op : BinaryOperator} (compares : op ∈ BinaryOperator.comparisons)
    (a b : Value) : default.applyBinary op a b = .ok (.num .one) ∨
      default.applyBinary op a b = .ok (.num .zero) := by
  have isFlag : ∃ flag, default.applyBinary op a b = .ok (.ofBool flag) := by
    simp only [BinaryOperator.comparisons, List.mem_cons, List.not_mem_nil, or_false] at compares
    rcases compares with rfl | rfl | rfl | rfl | rfl | rfl <;> exact ⟨_, rfl⟩
  obtain ⟨flag, gives⟩ := isFlag
  rw [gives]
  exact (one_or_zero flag).imp (congrArg _) (congrArg _)

theorem lessEqual_total {a b : Value} (sameKind : a.SameKind b) :
    default.Holds .lessEqual a b ∨ default.Holds .lessEqual b a := by
  cases sameKind with
  | numbers m n =>
    rw [lessEqual_numbers, lessEqual_numbers]
    exact le_total m.value n.value
  | texts s t =>
    rw [lessEqual_strings, lessEqual_strings]
    exact le_total s t

/-- A value that is not above another one of its kind is not above what that one is not above. -/
theorem lessEqual_trans {a b c : Value} (sameKind : a.SameKind b) (sameKindToo : b.SameKind c)
    (first : default.Holds .lessEqual a b) (second : default.Holds .lessEqual b c) :
    default.Holds .lessEqual a c := by
  cases sameKind with
  | numbers m n =>
    cases sameKindToo
    rw [lessEqual_numbers] at first second ⊢
    exact first.trans second
  | texts s t =>
    cases sameKindToo
    rw [lessEqual_strings] at first second ⊢
    exact first.trans second

/-- Values of one kind that are in order both ways are equal. -/
theorem lessEqual_antisymm {a b : Value} (sameKind : a.SameKind b) :
    default.Holds .lessEqual a b ∧ default.Holds .lessEqual b a ↔ a = b := by
  cases sameKind with
  | numbers m n =>
    rw [lessEqual_numbers, lessEqual_numbers, ← le_antisymm_iff, Fixed.value_inj, Value.num.injEq]
  | texts s t =>
    rw [lessEqual_strings, lessEqual_strings, ← le_antisymm_iff, Value.str.injEq]

/-- Values of different kinds are in order both ways if they have one text. So being in order
both ways is not being equal. -/
theorem lessEqual_apart {a b : Value} (apart : ¬a.SameKind b) :
    default.Holds .lessEqual a b ∧ default.Holds .lessEqual b a ↔ a.text = b.text := by
  have noNumbers : ∀ m n, ¬(a = .num m ∧ b = .num n) := by
    rintro m n ⟨rfl, rfl⟩
    exact apart (.numbers m n)
  rw [lessEqual_texts noNumbers, lessEqual_texts fun m n both => noNumbers n m both.symm,
    ← le_antisymm_iff]

/-- The comparisons hang together on values of any kinds. Two of them are the negations of two
others, and two the other two turned round; being equal is an equivalence, and equal values are in
order both ways. Values of one kind are in a total order, in which being in order both ways is being
equal. A number and a text are never equal, although they are in order both ways if the number's
text is the other one. -/
theorem comparesLawfully : default.ComparesLawfully where
  answers _ := answers_default
  less_iff a b := by rw [holds_less, holds_greaterEqual, Bool.not_eq_false]
  greater_iff a b := by rw [holds_greater, holds_lessEqual, Bool.not_eq_false]
  notEqual_iff a b := by rw [holds_notEqual, holds_equal]
  less_swap a b := by rw [holds_less, holds_greater]
  lessEqual_swap _ _ := holds_lessEqual_swap
  equal := by
    constructor
    · exact fun a => holds_equal.mpr rfl
    · exact fun same => holds_equal.mpr (holds_equal.mp same).symm
    · exact fun first second =>
        holds_equal.mpr ((holds_equal.mp first).trans (holds_equal.mp second))
  ordered a b equal := by
    obtain rfl := holds_equal.mp equal
    rw [← holds_lessEqual_swap, and_self]
    exact ((lessEqual_antisymm (.refl a)).mpr rfl).1
  numbers := lessEqual_numbers
  texts _ _ := lessEqual_texts
  total _ _ := lessEqual_total
  trans _ _ _ := lessEqual_trans
  bothWays a b sameKind := by rw [lessEqual_antisymm sameKind, holds_equal]
  apart a b differ := by
    refine ⟨?_, lessEqual_apart differ⟩
    rw [holds_equal]
    rintro rfl
    exact differ (.refl a)

/-- Across kinds the order is not transitive: in the order of texts ten is before nine. -/
example : default.Holds .lessEqual (.num (.ofWhole 10)) (.str "9") ∧
    default.Holds .lessEqual (.str "9") (.num (.ofWhole 9)) ∧
    ¬default.Holds .lessEqual (.num (.ofWhole 10)) (.num (.ofWhole 9)) := by
  decide

end Operators

end YololChip
