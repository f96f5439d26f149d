import YololChip.Proofs.Simulation

/-!
# What observers keep

A property of the state of the observers that each of them keeps whenever it is told something
holds on through every run, whatever the run does to the chip and however it ends.
-/

namespace YololChip

variable {ω : Type}

/-- Whether all observers keep a property of their state, whatever they are told and on whatever
machine. What they do to the chip or the log is not asked. -/
structure Hooks.Keeps (hooks : Hooks ω) (kept : ω → Prop) : Prop where
  handlers : ∀ event, ∀ handler ∈ hooks.handlers event, ∀ notice m, kept m.observer →
    kept (handler.run notice m).2.observer
  rules : ∀ rule ∈ hooks.rules, ∀ notice m, kept m.observer →
    kept (rule.run notice m).2.observer

namespace Hooks

variable {kept : ω → Prop}

/-- Handlers that keep a property keep it together, whether or not one of them fails. -/
theorem keeps_tell {handlers : List (Handler ω)}
    (keeps : ∀ handler ∈ handlers, ∀ notice m, kept m.observer →
      kept (handler.run notice m).2.observer)
    (notice : Notice) {m : Machine ω} (holds : kept m.observer) :
    kept (tell notice handlers m).2.observer := by
  induction handlers generalizing m with
  | nil => exact holds
  | cons handler rest inductionHypothesis =>
    have here := keeps handler List.mem_cons_self notice m holds
    have others : ∀ other ∈ rest, ∀ notice m, kept m.observer →
        kept (other.run notice m).2.observer :=
      fun other member => keeps other (List.mem_cons_of_mem _ member)
    rw [tell]
    simp only
    split
    · exact here
    · exact inductionHypothesis others here

/-- Rules that keep a property keep it together, whether or not one of them fails. -/
theorem keeps_tellRules {rules : List (StepRule ω)}
    (keeps : ∀ rule ∈ rules, ∀ notice m, kept m.observer → kept (rule.run notice m).2.observer)
    (notice : StepNotice) {m : Machine ω} (holds : kept m.observer) :
    kept (tellRules notice rules m).2.observer := by
  induction rules generalizing m with
  | nil => exact holds
  | cons rule rest inductionHypothesis =>
    have others : ∀ other ∈ rest, ∀ notice m, kept m.observer →
        kept (other.run notice m).2.observer :=
      fun other member => keeps other (List.mem_cons_of_mem _ member)
    rw [tellRules]
    by_cases due : notice.stepIndex % rule.interval = 0
    · have here := keeps rule List.mem_cons_self notice m holds
      rw [if_pos due]
      simp only
      split
      · exact here
      · exact inductionHypothesis others here
    · rw [if_neg due]
      exact inductionHypothesis others holds

/-- Observers that keep a property keep it when they are told of a notice. -/
theorem Keeps.dispatch {hooks : Hooks ω} (keeps : hooks.Keeps kept) (notice : Notice)
    {m : Machine ω} (holds : kept m.observer) : kept (hooks.dispatch notice m).2.observer :=
  keeps_tell (keeps.handlers notice.event) notice holds

end Hooks

namespace Interpreter

variable {i : Interpreter ω} {kept : ω → Prop}

variable (keeps : i.hooks.Keeps kept)

include keeps

theorem preserves_of_keeps : i.Preserves fun m => kept m.observer where
  changed _ holds := holds
  told notice _ := keeps.dispatch notice
  logged _ _ _ holds := Hooks.keeps_tellRules keeps.rules _ holds

theorem keeps_executeLine (text : String) {m : Machine ω} (holds : kept m.observer) :
    kept (i.executeLine text m).2.observer :=
  (preserves_of_keeps keeps).executeLine holds text

end Interpreter

end YololChip
