import YololChip.Source.Tree

/-!
# Names in lower case

Lowering a text twice is lowering it once. The table of capitals settles this: no
image of a capital is again a capital, which is checked range against range and not
character by character. Capital sigma is the one letter whose image depends on its
neighbours, and it occurs in no lowered text.

A variable is settled if naming it again gives the same variable. Every variable
that is made from a name is settled.
-/

namespace YololChip

namespace Text

/-- A character that is its own lower-case form wherever it stands. The capital sigma is apart,
because its lower-case form depends on what is around it. -/
def IsLow (c : Char) : Prop := c ≠ 'Σ' ∧ lowerChar c = [c]

/-- The code point that a range lowers one of its code points to. For others the result means
nothing. -/
def CaseRange.image (r : CaseRange) (code : Nat) : Nat := ((code : Int) + r.offset).toNat

/-- Whether no image of the first range lies in the second, as far as can be told from their
ends: the intervals are apart, or the second takes every other code point and the images fall
between. -/
def CaseRange.misses (r s : CaseRange) : Bool :=
  (r.image r.last).blt s.first || s.last.blt (r.image r.first) ||
    ((r.step == 2 || r.first == r.last) && s.step == 2 &&
      Nat.blt 0 (r.image r.first) && (r.image r.first + s.first) % 2 == 1)

/-- A code point of a range is mapped outside every range that its image misses. This is decided
for all pairs of ranges, and not for all code points. -/
theorem CaseRange.contains_image {r s : CaseRange} {code : Nat} (inside : r.contains code = true)
    (apart : r.misses s = true) : s.contains (r.image code) = false := by
  simp only [contains, Bool.and_eq_true, decide_eq_true_eq, beq_iff_eq] at inside
  obtain ⟨⟨above, below⟩, stride⟩ := inside
  simp only [misses, image, Bool.or_eq_true, Bool.and_eq_true, beq_iff_eq, Nat.blt_eq] at apart
  rw [Bool.eq_false_iff]
  intro imageInside
  simp only [contains, Bool.and_eq_true, decide_eq_true_eq, beq_iff_eq] at imageInside
  simp only [image] at imageInside
  obtain ⟨⟨atLeast, atMost⟩, strideImage⟩ := imageInside
  rcases apart with (before | after) | ⟨⟨⟨twoOrOne, two⟩, natural⟩, odd⟩
  · omega
  · omega
  · rw [two] at strideImage
    rcases twoOrOne with twoSource | single
    · rw [twoSource] at stride
      omega
    · omega

/-- The range of the dotted capital, which lowers to two characters. -/
def dottedCapital : CaseRange := ⟨0x0130, 0x0130, 1, 0⟩

/-- No capital of the table lowers to another one, nor to the dotted capital. -/
theorem capitals_miss :
    capitals.all (fun r => (dottedCapital :: capitals).all r.misses) = true := by
  decide +kernel

theorem not_capital_image {r s : CaseRange} {code : Nat} (member : r ∈ capitals)
    (inside : r.contains code = true) (other : s ∈ dottedCapital :: capitals) :
    s.contains (r.image code) = false :=
  CaseRange.contains_image inside
    (List.all_eq_true.mp (List.all_eq_true.mp capitals_miss r member) s other)

/-- A character outside the table is low, as are those without letter case. Capital sigma stands
in the table. -/
theorem isLow_of_not_capital {c : Char}
    (outside : ∀ s ∈ dottedCapital :: capitals, s.contains c.toNat = false) : IsLow c := by
  have notDotted : c ≠ '\u0130' := by
    rintro rfl
    exact absurd (outside dottedCapital (by simp)) (by decide)
  have notSigma : c ≠ 'Σ' := by
    rintro rfl
    have capital : (dottedCapital :: capitals).any (·.contains 'Σ'.toNat) = true := by
      decide +kernel
    obtain ⟨s, member, inside⟩ := List.any_eq_true.mp capital
    exact Bool.false_ne_true ((outside s member).symm.trans inside)
  have notFound : capitals.find? (·.contains c.toNat) = none := by
    rw [List.find?_eq_none]
    intro s member
    simp [outside s (List.mem_cons_of_mem _ member)]
  exact ⟨notSigma, by simp [lowerChar, notDotted, notFound]⟩

/-- The code point of the character that a code point names, if it names one. -/
theorem toNat_ofNat (code : Nat) :
    (Char.ofNat code).toNat = code ∨ (Char.ofNat code).toNat = 0 := by
  by_cases valid : code.isValidChar
  · left
    rw [Char.ofNat, dif_pos valid]
    rfl
  · right
    rw [Char.ofNat, dif_neg valid]
    rfl

theorem not_capital_null {s : CaseRange} (other : s ∈ dottedCapital :: capitals) :
    s.contains 0 = false := by
  have checked : (dottedCapital :: capitals).all (fun s => !s.contains 0) = true := by
    decide +kernel
  simpa using List.all_eq_true.mp checked s other

theorem isLow_of_mem_lowerChar {c d : Char} (member : d ∈ lowerChar c) (notSigma : c ≠ 'Σ') :
    IsLow d := by
  unfold lowerChar at member
  split at member
  · have cases : d = 'i' ∨ d = '\u0307' := by simpa using member
    rcases cases with rfl | rfl
    · constructor
      · decide
      · decide +kernel
    · constructor
      · decide
      · decide +kernel
  · next notDotted =>
    split at member
    · next r found =>
      rw [List.mem_singleton.mp member]
      apply isLow_of_not_capital
      intro s other
      rcases toNat_ofNat (r.image c.toNat) with same | null
      · rw [← CaseRange.image, same]
        exact not_capital_image (List.mem_of_find?_eq_some found)
          (List.find?_some (p := fun r : CaseRange => r.contains c.toNat) found) other
      · rw [← CaseRange.image, null]
        exact not_capital_null other
    · next notFound =>
      rw [List.mem_singleton.mp member]
      constructor
      · exact notSigma
      · simp [lowerChar, notDotted, notFound]

theorem isLow_of_mem_lowerFrom {before cs : List Char} {d : Char}
    (member : d ∈ lowerFrom before cs) : IsLow d := by
  induction cs generalizing before with
  | nil => simp [lowerFrom] at member
  | cons c rest inductionHypothesis =>
    rw [lowerFrom] at member
    rcases List.mem_append.mp member with here | later
    · split at here
      · have cases : d = 'ς' ∨ d = 'σ' := by
          split at here
          · exact .inl (by simpa using here)
          · exact .inr (by simpa using here)
        rcases cases with rfl | rfl
        · constructor
          · decide
          · decide +kernel
        · constructor
          · decide
          · decide +kernel
      · next notSigma => exact isLow_of_mem_lowerChar here notSigma
    · exact inductionHypothesis later

/-- A row of low characters is its own lower-case form, whatever stands before it. -/
theorem lowerFrom_of_isLow {before cs : List Char} (low : ∀ c ∈ cs, IsLow c) :
    lowerFrom before cs = cs := by
  induction cs generalizing before with
  | nil => rfl
  | cons c rest inductionHypothesis =>
    have head : IsLow c := low c (by simp)
    have tail : ∀ d ∈ rest, IsLow d := fun d member => low d (by simp [member])
    simp [lowerFrom, head.1, head.2, inductionHypothesis tail]

theorem lower_of_isLow {s : String} (low : ∀ c ∈ s.toList, IsLow c) : lower s = s := by
  rw [lower, lowerFrom_of_isLow low, String.ofList_toList]

@[simp] theorem lower_lower (s : String) : lower (lower s) = lower s := by
  apply lower_of_isLow
  intro c member
  rw [lower, String.toList_ofList] at member
  exact isLow_of_mem_lowerFrom member

/-- A text that is not empty has a lower-case form that is not empty. -/
theorem lower_ne_empty {s : String} (inhabited : s ≠ "") : lower s ≠ "" := by
  have oneCharacter (c : Char) : lowerChar c ≠ [] := by
    unfold lowerChar
    split
    · simp
    · split <;> simp
  cases letters : s.toList with
  | nil => exact absurd (String.toList_eq_nil_iff.mp letters) inhabited
  | cons c rest =>
    intro empty
    have vanished : lowerFrom [] (c :: rest) = [] := by
      rw [lower, letters] at empty
      exact String.ofList_eq_empty_iff.mp empty
    rw [lowerFrom, List.append_eq_nil_iff] at vanished
    split at vanished
    · simp at vanished
    · exact oneCharacter c vanished.1

end Text

namespace Variable

/-- A variable that its own name names again. Its name is not empty, is in lower case, and
starts with a colon exactly if the variable is a data field. A reader makes no others, but a
tree that was put together by hand may have some. -/
def Settled (v : Variable) : Prop := v.name ≠ "" ∧ Variable.named v.name = v

instance (v : Variable) : Decidable v.Settled := inferInstanceAs (Decidable (_ ∧ _))

theorem settled_named {name : String} (inhabited : name ≠ "") : (Variable.named name).Settled := by
  constructor
  · exact Text.lower_ne_empty inhabited
  · simp only [Variable.named, Text.lower_lower]

/-- The settled variables are those whose name is lowered and tells the scope. The name need not
be one that a scanner could give. -/
theorem settled_iff (v : Variable) :
    v.Settled ↔ v.name ≠ "" ∧ Text.lower v.name = v.name ∧
      v.scope = if isFieldName v.name then .field else .chip := by
  obtain ⟨name, scope⟩ := v
  simp only [Settled, Variable.named, Variable.mk.injEq]
  constructor
  · rintro ⟨inhabited, lowered, told⟩
    rw [lowered] at told
    exact ⟨inhabited, lowered, told.symm⟩
  · rintro ⟨inhabited, lowered, told⟩
    rw [lowered]
    exact ⟨inhabited, rfl, told.symm⟩

end Variable

end YololChip
