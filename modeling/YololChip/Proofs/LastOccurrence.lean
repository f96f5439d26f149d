import YololChip.Chip.Behaviour

/-!
# The last occurrence

A difference of values that are not both numbers is one of their texts. It takes the second text out
of the first where it occurs last: of all places at which it starts, overlapping ones counted, the
furthest one. A text that does not occur, and the empty one, takes nothing out.

What was joined to the end of a text occurs last there, since no later place has room for it. So a
difference undoes a sum, also where the part that was joined occurs before or across the seam.
-/

namespace YololChip

/-! ### Places in a text -/

/-- Whether a part stands somewhere in a text. The empty part stands everywhere in this sense,
although taking it away does nothing. -/
def Text.Occurs (part text : String) : Prop := ∃ before after, before ++ part ++ after = text

/-- Whether a text is what stands before a part, the part, and what stands behind it, at the
last place where the part starts. Places that overlap count, so the last one may be none of
those that a search finds which goes on behind each. -/
structure Text.LastAt (part text before after : String) : Prop where
  whole : before ++ part ++ after = text
  last : ∀ front back, front ++ part ++ back = text → front.length ≤ before.length

namespace Text

theorem LastAt.unique {part text before after front back : String}
    (here : LastAt part text before after) (there : LastAt part text front back) :
    before = front ∧ after = back := by
  have length : before.length = front.length :=
    Nat.le_antisymm (there.last _ _ here.whole) (here.last _ _ there.whole)
  have same := congrArg String.toList (here.whole.trans there.whole.symm)
  simp only [String.toList_append, List.append_assoc] at same
  rw [← String.length_toList, ← String.length_toList] at length
  obtain ⟨first, rest⟩ := List.append_inj same length
  exact ⟨String.toList_inj.mp first, String.toList_inj.mp (List.append_cancel_left rest)⟩

/-- What is joined to the end of a text stands last there, because there is no room behind. -/
theorem lastAt_append (text part : String) : LastAt part (text ++ part) text "" := by
  constructor
  · exact String.append_empty
  · intro front back same
    have length := congrArg String.length same
    simp only [String.length_append] at length
    omega

end Text

/-! ### The search -/

namespace Behaviour

variable {part cs before after : List Char}

/-- A part that is not found does not stand in the row of characters. -/
theorem not_infix_of_aroundLast? (inhabited : part ≠ []) (missing : aroundLast? part cs = none) :
    ¬part <:+: cs := by
  induction cs with
  | nil =>
    intro inside
    exact inhabited (List.infix_nil.mp inside)
  | cons c cs inductionHypothesis =>
    rw [aroundLast?] at missing
    cases later : aroundLast? part cs with
    | some found => simp [later] at missing
    | none =>
      have notHere : ¬part <+: c :: cs := by simpa [later] using missing
      intro inside
      rcases List.infix_cons_iff.mp inside with here | behind
      · exact notHere here
      · exact inductionHypothesis later behind

/-- A part is found at the last place where it starts.

Proof: induction over the row of characters. A place behind the first character is one in the rest
of the row, where the search looks first. -/
theorem length_le_of_aroundLast? (inhabited : part ≠ [])
    (found : aroundLast? part cs = some (before, after)) {front back : List Char}
    (other : front ++ part ++ back = cs) : front.length ≤ before.length := by
  induction cs generalizing before after front with
  | nil => cases found
  | cons c cs inductionHypothesis =>
    cases front with
    | nil => exact Nat.zero_le _
    | cons d front =>
      have behind : front ++ part ++ back = cs := List.tail_eq_of_cons_eq other
      rw [aroundLast?] at found
      cases later : aroundLast? part cs with
      | none => exact absurd ⟨front, back, behind⟩ (not_infix_of_aroundLast? inhabited later)
      | some around =>
        obtain ⟨inner, rest⟩ := around
        simp only [later, Option.some.injEq, Prod.mk.injEq] at found
        rw [← found.1]
        exact Nat.succ_le_succ (inductionHypothesis later behind)

variable {text part : String}

theorem withoutLast_empty (text : String) : withoutLast text "" = text := rfl

theorem withoutLast_of_not_occurs (absent : ¬Text.Occurs part text) :
    withoutLast text part = text := by
  unfold withoutLast
  split
  · rfl
  · split
    · next before after found =>
      refine absurd ⟨.ofList before, .ofList after, ?_⟩ absent
      rw [← String.toList_inj]
      simpa using append_of_aroundLast? found
    · rfl

/-- A part that occurs is taken out at the last place where it starts. -/
theorem exists_lastAt (inhabited : part ≠ "") (occurs : Text.Occurs part text) :
    ∃ before after, Text.LastAt part text before after ∧
      withoutLast text part = before ++ after := by
  have notEmpty : part.toList ≠ [] := mt String.toList_eq_nil_iff.mp inhabited
  cases search : aroundLast? part.toList text.toList with
  | none =>
    obtain ⟨before, after, rfl⟩ := occurs
    refine absurd ⟨before.toList, after.toList, ?_⟩ (not_infix_of_aroundLast? notEmpty search)
    simp
  | some around =>
    obtain ⟨before, after⟩ := around
    refine ⟨.ofList before, .ofList after, ⟨?_, ?_⟩, ?_⟩
    · rw [← String.toList_inj]
      simpa using append_of_aroundLast? search
    · intro front back other
      have place := congrArg String.toList other
      simp only [String.toList_append] at place
      rw [← String.length_toList, String.length_ofList]
      exact length_le_of_aroundLast? notEmpty search place
    · rw [withoutLast, if_neg (mt String.isEmpty_iff.mp inhabited), search]
      exact String.ofList_append

/-- What was joined to the end of a text is taken out there. It starts there at the last place,
even if it overlaps an earlier one. -/
theorem withoutLast_append (text part : String) : withoutLast (text ++ part) part = text := by
  by_cases isEmpty : part = ""
  · rw [isEmpty, withoutLast_empty, String.append_empty]
  · have joined := Text.lastAt_append text part
    obtain ⟨before, after, last, taken⟩ := exists_lastAt isEmpty ⟨_, _, joined.whole⟩
    obtain ⟨rfl, rfl⟩ := last.unique joined
    rw [taken, String.append_empty]

/-! ### Values -/

variable {a b : Value}

/-- The sum of values that are not both numbers is the text of both. A number in such a sum
stands for its numeral. -/
theorem add_of_mixed (mixed : ∀ x y, ¬(a = .num x ∧ b = .num y)) :
    add a b = .str (a.text ++ b.text) := by
  unfold add
  split
  · next x y => exact absurd ⟨rfl, rfl⟩ (mixed x y)
  · rfl

/-- The difference of values that are not both numbers is what is left of the first text. -/
theorem sub_of_mixed (mixed : ∀ x y, ¬(a = .num x ∧ b = .num y)) :
    sub a b = .str (withoutLast a.text b.text) := by
  unfold sub
  split
  · next x y => exact absurd ⟨rfl, rfl⟩ (mixed x y)
  · rfl

end Behaviour

/-- A difference of values that are not both numbers takes the second text out of the first at the
last place where it starts, and leaves the first text as it is if there is none or the second one
is empty. It gives back the first text of a sum. -/
theorem Operators.difference_of_texts {a b : Value} (mixed : ∀ x y, ¬(a = .num x ∧ b = .num y)) :
    (b.text = "" ∨ ¬Text.Occurs b.text a.text →
      Operators.default.applyBinary .sub a b = .ok (.str a.text)) ∧
    (b.text ≠ "" ∧ Text.Occurs b.text a.text →
      ∃ before after, Text.LastAt b.text a.text before after ∧
        Operators.default.applyBinary .sub a b = .ok (.str (before ++ after))) ∧
    ∃ sum, Operators.default.applyBinary .add a b = .ok sum ∧
      Operators.default.applyBinary .sub sum b = .ok (.str a.text) := by
  have difference : Operators.default.applyBinary .sub a b =
      .ok (.str (Behaviour.withoutLast a.text b.text)) := by
    rw [← Behaviour.sub_of_mixed mixed]
    rfl
  rw [difference]
  refine ⟨?_, ?_, .str (a.text ++ b.text), ?_, ?_⟩
  · rintro (isEmpty | absent)
    · rw [isEmpty, Behaviour.withoutLast_empty]
    · rw [Behaviour.withoutLast_of_not_occurs absent]
  · rintro ⟨inhabited, occurs⟩
    obtain ⟨before, after, last, taken⟩ := Behaviour.exists_lastAt inhabited occurs
    exact ⟨before, after, last, by rw [taken]⟩
  · rw [← Behaviour.add_of_mixed mixed]
    rfl
  · have text : (Value.str (a.text ++ b.text)).text = a.text ++ b.text := rfl
    have back : Behaviour.sub (.str (a.text ++ b.text)) b = .str a.text := by
      rw [Behaviour.sub_of_mixed (by simp), text, Behaviour.withoutLast_append]
    rw [← back]
    rfl

/-- Of two places that overlap the later one is taken out. -/
theorem Operators.difference_of_texts_overlapping :
    Text.LastAt "aba" "ababa" "ab" "" ∧
      Operators.default.applyBinary .sub (.str "ababa") (.str "aba") = .ok (.str "ab") := by
  have mixed : ∀ x y, ¬(Value.str "ababa" = .num x ∧ Value.str "aba" = .num y) := by simp
  have last : Text.LastAt "aba" "ababa" "ab" "" := Text.lastAt_append "ab" "aba"
  have inhabited : "aba" ≠ "" := by decide
  obtain ⟨_, takesOut, _⟩ := Operators.difference_of_texts mixed
  obtain ⟨before, after, here, taken⟩ := takesOut ⟨inhabited, _, _, last.whole⟩
  obtain ⟨rfl, rfl⟩ := here.unique last
  exact ⟨last, taken⟩

end YololChip
