import YololChip.Run.Hooks

/-!
# The order of handlers

Whoever asks to be told of an event becomes one of its handlers. They stand from the highest
priority down, and those of one priority as they asked, whatever else was asked for in between.
Adding one behind the others and sorting all of them comes to the same. Who asks for an event that
there is not is refused, and changes nothing.

When something is told, the handlers before the first one that does not pass run in turn, then that
one, and none behind it. What that one reports is the fault; if it breaks, the hook is at fault.
-/

namespace YololChip

namespace Hooks

variable {ω : Type}

/-! ### Sorting -/

/-- Handlers sorted from the highest priority down; those of one priority stay as they were. It
is the order that is asked for, said by a sort and not by how handlers are added. -/
def sorted (handlers : List (Handler ω)) : List (Handler ω) :=
  handlers.mergeSort fun first second => second.priority ≤ first.priority

theorem perm_sorted (handlers : List (Handler ω)) : (sorted handlers).Perm handlers :=
  List.mergeSort_perm _ _

theorem ordered_sorted (handlers : List (Handler ω)) : Ordered (sorted handlers) := by
  have pairs : (sorted handlers).Pairwise fun first second =>
      decide (second.priority ≤ first.priority) :=
    List.pairwise_mergeSort
      (fun a b c => by simp only [decide_eq_true_eq]; omega)
      (fun a b => by simp only [Bool.or_eq_true, decide_eq_true_eq]; omega) handlers
  exact pairs.imp fun notAbove => by simpa using notAbove

/-- The handlers of a priority, in the order in which they are. Rows in descending order are the
same if these are, for every priority. -/
def ofPriority (priority : Int) (handlers : List (Handler ω)) : List (Handler ω) :=
  handlers.filter fun handler => handler.priority = priority

/-- Sorting leaves the handlers of a priority as they were. -/
theorem ofPriority_sorted (priority : Int) (handlers : List (Handler ω)) :
    ofPriority priority (sorted handlers) = ofPriority priority handlers := by
  have alike : (ofPriority priority handlers).Pairwise fun first second : Handler ω =>
      decide (second.priority ≤ first.priority) := by
    refine List.pairwise_of_forall_mem_list ?_
    intro first firstOf second secondOf
    have firstHas := (List.mem_filter.mp firstOf).2
    have secondHas := (List.mem_filter.mp secondOf).2
    simp only [decide_eq_true_eq] at firstHas secondHas ⊢
    omega
  have kept : (ofPriority priority handlers).Sublist (sorted handlers) :=
    List.sublist_mergeSort
      (fun a b c => by simp only [decide_eq_true_eq]; omega)
      (fun a b => by simp only [Bool.or_eq_true, decide_eq_true_eq]; omega)
      alike List.filter_sublist
  have inside : (ofPriority priority handlers).Sublist (ofPriority priority (sorted handlers)) := by
    have both := kept.filter fun handler => handler.priority = priority
    simpa only [ofPriority, List.filter_filter, Bool.and_self] using both
  exact (inside.eq_of_length ((perm_sorted handlers).filter _).length_eq.symm).symm

/-- In front of handlers in order stands one of the highest priority. Sorting may therefore
begin with it. -/
theorem Ordered.le_first {first handler : Handler ω} {rest : List (Handler ω)}
    (ordered : Ordered (first :: rest)) (member : handler ∈ first :: rest) :
    handler.priority ≤ first.priority := by
  rcases List.mem_cons.mp member with rfl | inRest
  · exact Int.le_refl _
  · exact (List.pairwise_cons.mp ordered).1 handler inRest

theorem mem_ofPriority_self {handler : Handler ω} {handlers : List (Handler ω)} :
    handler ∈ ofPriority handler.priority handlers ↔ handler ∈ handlers := by
  simp [ofPriority]

/-- Handlers in order are determined by those of each priority.

Proof: induction over the first handlers. In front stands the first of the highest priority that
there is, on both sides. -/
theorem Ordered.ext {first second : List (Handler ω)} (orderedFirst : Ordered first)
    (orderedSecond : Ordered second)
    (same : ∀ priority, ofPriority priority first = ofPriority priority second) :
    first = second := by
  have members (handler : Handler ω) : handler ∈ first ↔ handler ∈ second := by
    rw [← mem_ofPriority_self, same, mem_ofPriority_self]
  induction first generalizing second with
  | nil =>
    cases second with
    | nil => rfl
    | cons b others => exact absurd ((members b).mpr List.mem_cons_self) List.not_mem_nil
  | cons a rest inductionHypothesis =>
    cases second with
    | nil => exact absurd ((members a).mp List.mem_cons_self) List.not_mem_nil
    | cons b others =>
      have alike : a.priority = b.priority := by
        have notAbove := orderedSecond.le_first ((members a).mp List.mem_cons_self)
        have notBelow := orderedFirst.le_first ((members b).mpr List.mem_cons_self)
        omega
      have front : a = b := by
        have highest := same a.priority
        rw [ofPriority, ofPriority, List.filter_cons_of_pos (by simp),
          List.filter_cons_of_pos (by simp [alike])] at highest
        exact (List.cons.inj highest).1
      subst front
      have behind (priority : Int) : ofPriority priority rest = ofPriority priority others := by
        have both := same priority
        simp only [ofPriority, List.filter_cons] at both
        split at both
        · exact (List.cons.inj both).2
        · exact both
      rw [inductionHypothesis (List.pairwise_cons.mp orderedFirst).2
        (List.pairwise_cons.mp orderedSecond).2 behind
        (fun handler => by rw [← mem_ofPriority_self, behind, mem_ofPriority_self])]

/-- A handler that is added comes behind all others of its priority, and moves no others.

Proof: induction over the handlers. If the new one comes in front, all others are below it. -/
theorem ofPriority_insertHandler {handlers : List (Handler ω)} (ordered : Ordered handlers)
    (added : Handler ω) (priority : Int) :
    ofPriority priority (insertHandler added handlers) =
      ofPriority priority (handlers ++ [added]) := by
  induction handlers with
  | nil => rfl
  | cons first rest inductionHypothesis =>
    unfold insertHandler
    split
    · next lower =>
      rw [ofPriority, ofPriority, List.filter_append]
      by_cases its : added.priority = priority
      · have none : (first :: rest).filter (fun handler => handler.priority = priority) = [] := by
          refine List.filter_eq_nil_iff.mpr fun handler member => ?_
          have below := ordered.le_first member
          simp only [decide_eq_true_eq]
          omega
        rw [List.filter_cons_of_pos (by simpa using its), none,
          List.filter_cons_of_pos (by simpa using its)]
        rfl
      · simp [List.filter_cons, its]
    · have others := inductionHypothesis (List.pairwise_cons.mp ordered).2
      simp only [ofPriority, List.cons_append, List.filter_cons] at others ⊢
      rw [others]

/-- Adding a handler in its place is adding it behind all others and sorting them. -/
theorem insertHandler_eq_sorted {handlers : List (Handler ω)} (ordered : Ordered handlers)
    (added : Handler ω) : insertHandler added handlers = sorted (handlers ++ [added]) := by
  apply (ordered.insertHandler added).ext (ordered_sorted _)
  intro priority
  rw [ofPriority_insertHandler ordered, ofPriority_sorted]

/-! ### Asking for events -/

/-- That somebody asks to be told of the event of a name. The name may be that of no event, and
the priority of the handler any number. -/
structure Request (ω : Type) where
  event : String
  handler : Handler ω

/-- What comes of asking: the fault if there is no such event, and the hooks then. A request
that is refused changes nothing. -/
def ask (hooks : Hooks ω) (request : Request ω) : Option HookFault × Hooks ω :=
  match hooks.addNamed request.event request.handler with
  | .ok more => (.none, more)
  | .error fault => (some fault, hooks)

/-- The hooks after some have asked, one after the other. Those that are refused do not stop the
others. -/
def askAll (hooks : Hooks ω) (requests : List (Request ω)) : Hooks ω :=
  requests.foldl (fun hooks request => (hooks.ask request).2) hooks

/-- The handlers that were asked for to be told of an event, the first one first. Requests for
other events may be in between. -/
def asked (requests : List (Request ω)) (event : Event) : List (Handler ω) :=
  (requests.filter fun request => request.event = event.name).map (·.handler)

/-- Who asks for an event becomes one of its handlers, and nothing else changes. The handlers of
all other events, and the rules, are those that there were. -/
theorem ask_name (hooks : Hooks ω) (event : Event) (handler : Handler ω) :
    hooks.ask ⟨event.name, handler⟩ = (.none, hooks.add event handler) := by
  rw [ask, addNamed, Event.ofName?_name]

/-- Who asks for an event that there is not is refused, and nothing changes. -/
theorem ask_unknown (hooks : Hooks ω) {name : String}
    (unknown : ∀ event : Event, event.name ≠ name) (handler : Handler ω) :
    hooks.ask ⟨name, handler⟩ = (some (.unknownEvent name), hooks) := by
  have notFound : Event.ofName? name = .none := by
    refine List.find?_eq_none.mpr fun event _ => ?_
    simpa using unknown event
  rw [ask, addNamed, notFound]

/-- Sorting depends only on how the handlers of each priority stand to each other. -/
theorem sorted_congr {first second : List (Handler ω)}
    (same : ∀ priority, ofPriority priority first = ofPriority priority second) :
    sorted first = sorted second := by
  apply (ordered_sorted first).ext (ordered_sorted second)
  intro priority
  rw [ofPriority_sorted, ofPriority_sorted, same]

theorem Ordered.sorted_eq {handlers : List (Handler ω)} (ordered : Ordered handlers) :
    sorted handlers = handlers :=
  (ordered_sorted handlers).ext ordered fun priority => ofPriority_sorted priority handlers

theorem ordered_ask {hooks : Hooks ω} (ordered : ∀ event, Ordered (hooks.handlers event))
    (request : Request ω) (event : Event) : Ordered ((hooks.ask request).2.handlers event) := by
  unfold ask addNamed
  cases Event.ofName? request.event with
  | none => exact ordered event
  | some asked =>
    simp only [add]
    split
    · exact (ordered event).insertHandler request.handler
    · exact ordered event

/-- Asking adds the handler to those of its event, in its place among them. It comes behind
those of its own priority, which asked before. -/
theorem sorted_ask {hooks : Hooks ω} (ordered : ∀ event, Ordered (hooks.handlers event))
    (request : Request ω) (event : Event) (later : List (Handler ω)) :
    sorted ((hooks.ask request).2.handlers event ++ later) =
      sorted (hooks.handlers event ++ (asked [request] event ++ later)) := by
  obtain ⟨name, handler⟩ := request
  by_cases known : ∃ event : Event, event.name = name
  · obtain ⟨found, rfl⟩ := known
    rw [ask_name, add]
    simp only
    by_cases its : event = found
    · subst its
      apply sorted_congr
      intro priority
      have placed := ofPriority_insertHandler (ordered event) handler priority
      simp only [ofPriority, List.filter_append, if_true] at placed ⊢
      rw [placed]
      simp [asked]
    · have other : found.name ≠ event.name := by
        intro same
        have both := congrArg Event.ofName? same
        rw [Event.ofName?_name, Event.ofName?_name] at both
        exact its (Option.some.inj both).symm
      simp [its, asked, other]
  · have unknown (event : Event) : event.name ≠ name := fun same => known ⟨event, same⟩
    rw [ask_unknown hooks unknown]
    simp [asked, (unknown event).symm]

/-- After some have asked, the handlers of each event are those that it had and those that were
asked for, sorted.

Proof: induction over the requests. -/
theorem handlers_askAll {hooks : Hooks ω} (ordered : ∀ event, Ordered (hooks.handlers event))
    (requests : List (Request ω)) (event : Event) :
    (hooks.askAll requests).handlers event =
      sorted (hooks.handlers event ++ asked requests event) := by
  induction requests generalizing hooks with
  | nil =>
    rw [askAll, asked, List.filter_nil, List.map_nil, List.append_nil, (ordered event).sorted_eq]
    rfl
  | cons request rest inductionHypothesis =>
    rw [askAll, List.foldl_cons, ← askAll, inductionHypothesis (ordered_ask ordered request),
      sorted_ask ordered]
    congr 2
    rw [asked, asked, asked, ← List.map_append, ← List.filter_append, List.singleton_append]

/-- Whether the handlers of an event are those that were asked for: all of them, from the highest
priority down, those of one priority as they were asked for. Their names are given in this order. -/
structure KeepsOrder (hooks : Hooks ω) (requests : List (Request ω)) (event : Event) : Prop where
  all : (hooks.handlers event).Perm (asked requests event)
  descending : Ordered (hooks.handlers event)
  stable : ∀ priority,
    ofPriority priority (hooks.handlers event) = ofPriority priority (asked requests event)
  names : hooks.names event.name = (sorted (asked requests event)).map (·.name)

/-- The handlers of hooks that some have asked are in order. -/
theorem keepsOrder_askAll (requests : List (Request ω)) (event : Event) :
    ((none : Hooks ω).askAll requests).KeepsOrder requests event := by
  have orderedFirst (event : Event) : Ordered ((none : Hooks ω).handlers event) := .nil
  have placed := handlers_askAll orderedFirst requests event
  rw [none, List.nil_append] at placed
  constructor
  · rw [none, placed]
    exact perm_sorted _
  · rw [none, placed]
    exact ordered_sorted _
  · intro priority
    rw [none, placed, ofPriority_sorted]
  · rw [none, names, Event.ofName?_name]
    simp only [placed]

example :
    let silent (priority : Int) (name : String) : Handler Unit :=
      ⟨priority, name, fun _ m => (.passed, m)⟩
    ((none.askAll [⟨"on_goto", silent 1 "first"⟩, ⟨"on_goto", silent 5 "above"⟩,
      ⟨"at_rest", silent 9 "nowhere"⟩, ⟨"on_goto", silent 1 "second"⟩]).names "on_goto") =
      ["above", "first", "second"] := by
  decide

/-- Whether asking comes to this: the handler is added to those of its event, or there is no such
event, and then this is the fault and nothing changes. -/
inductive Answers (hooks : Hooks ω) : Request ω → Option HookFault × Hooks ω → Prop where
  | added (event : Event) (handler : Handler ω) :
    Answers hooks ⟨event.name, handler⟩ (.none, hooks.add event handler)
  | refused {name : String} (handler : Handler ω) (unknown : ∀ event : Event, event.name ≠ name) :
    Answers hooks ⟨name, handler⟩ (some (.unknownEvent name), hooks)

theorem answers_ask (hooks : Hooks ω) (request : Request ω) :
    hooks.Answers request (hooks.ask request) := by
  obtain ⟨name, handler⟩ := request
  by_cases known : ∃ event : Event, event.name = name
  · obtain ⟨event, rfl⟩ := known
    rw [ask_name]
    exact .added event handler
  · have unknown (event : Event) : event.name ≠ name := fun same => known ⟨event, same⟩
    rw [ask_unknown hooks unknown]
    exact .refused handler unknown

/-! ### Telling -/

/-- Somebody who is to be told something: what it does then, and how it is reported if it
breaks. Handlers and rules that are due are both told like this. -/
structure Listener (ω : Type) where
  run : Machine ω → Verdict × Machine ω
  broken : String → HookFault

/-- Whether listeners that are told in turn all pass, each told by the machine that the one
before it leaves, and what the last one leaves. A listener that passes may still have changed
the machine. -/
inductive Pass : List (Listener ω) → Machine ω → Machine ω → Prop where
  | nobody (m : Machine ω) : Pass [] m m
  | next {listener : Listener ω} {rest : List (Listener ω)} {m mid after : Machine ω}
      (passed : listener.run m = (.passed, mid)) (others : Pass rest mid after) :
    Pass (listener :: rest) m after

/-- How telling listeners in turn ends. Either all of them pass, or those before one of them do, and
that one is the last that is told. What it reports is the fault as it is; if it breaks, the hook is
at fault. -/
inductive Hears (listeners : List (Listener ω)) (m : Machine ω) :
    Option Fault × Machine ω → Prop where
  | passed {after : Machine ω} (all : Pass listeners m after) : Hears listeners m (.none, after)
  | refused {before behind : List (Listener ω)} {last : Listener ω} {mid after : Machine ω}
      {fault : Fault} (parts : listeners = before ++ last :: behind) (earlier : Pass before m mid)
      (refuses : last.run mid = (.refused fault, after)) : Hears listeners m (some fault, after)
  | broke {before behind : List (Listener ω)} {last : Listener ω} {mid after : Machine ω}
      {message : String} (parts : listeners = before ++ last :: behind)
      (earlier : Pass before m mid) (breaks : last.run mid = (.broke message, after)) :
    Hears listeners m (some (.hook (last.broken message)), after)

theorem Hears.next {listener : Listener ω} {rest : List (Listener ω)} {m mid : Machine ω}
    {result : Option Fault × Machine ω} (passed : listener.run m = (.passed, mid))
    (hears : Hears rest mid result) : Hears (listener :: rest) m result := by
  cases hears with
  | passed all => exact .passed (.next passed all)
  | refused parts earlier refuses =>
    exact .refused (congrArg (listener :: ·) parts) (.next passed earlier) refuses
  | broke parts earlier breaks =>
    exact .broke (congrArg (listener :: ·) parts) (.next passed earlier) breaks

/-- What a listener answers decides whether those behind it are told. One that passes hands on
the machine that it leaves. -/
theorem Hears.step {listener : Listener ω} (rest : List (Listener ω)) (m : Machine ω)
    {next : Option Fault × Machine ω} (goesOn : Hears rest (listener.run m).2 next) :
    Hears (listener :: rest) m
      (match faultOf listener.broken (listener.run m).1 with
        | some fault => (some fault, (listener.run m).2)
        | .none => next) := by
  rcases answers : listener.run m with ⟨_ | fault | message, after⟩
  · rw [answers] at goesOn
    exact goesOn.next answers
  · exact .refused (List.nil_append _).symm (.nobody m) answers
  · exact .broke (List.nil_append _).symm (.nobody m) answers

end Hooks

/-- A handler as a listener that is told of a notice. If it breaks, the event of the notice is
named in its report. -/
def Handler.listener {ω : Type} (notice : Notice) (handler : Handler ω) : Hooks.Listener ω :=
  ⟨handler.run notice, .handlerBroke notice.event⟩

namespace Hooks

variable {ω : Type}

/-- Telling handlers of a notice tells them in turn, up to the first that does not pass.

Proof: induction over the handlers. -/
theorem hears_tell (notice : Notice) (handlers : List (Handler ω)) (m : Machine ω) :
    Hears (handlers.map (·.listener notice)) m (tell notice handlers m) := by
  induction handlers generalizing m with
  | nil => exact .passed (.nobody m)
  | cons handler rest inductionHypothesis =>
    rw [tell, List.map_cons]
    exact Hears.step _ m (inductionHypothesis _)

/-- The order of handlers. Whatever was asked for, the handlers of every event are those that were
asked for, in order; asking for an event that there is not changes nothing. What is told is told to
the handlers of its event in this order, up to the first that does not pass. -/
theorem order_of_handlers (ω : Type) :
    (∀ (requests : List (Request ω)) (event : Event),
      ((none : Hooks ω).askAll requests).KeepsOrder requests event) ∧
    (∀ (hooks : Hooks ω) (request : Request ω), hooks.Answers request (hooks.ask request)) ∧
    ∀ (hooks : Hooks ω) (notice : Notice) (m : Machine ω),
      Hears ((hooks.handlers notice.event).map (·.listener notice)) m (hooks.dispatch notice m) :=
  ⟨keepsOrder_askAll, answers_ask,
    fun hooks notice => hears_tell notice (hooks.handlers notice.event)⟩

end Hooks

end YololChip
