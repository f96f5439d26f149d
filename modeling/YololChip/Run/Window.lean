/-!
# Windows

A window holds the newest members of a sequence, up to a limit. Members past the limit
are dropped now and then, all at once, so that adding one takes constant time on
average; they never show.
-/

namespace YololChip

/-- The newest members of a sequence. `room` is how many more can be added before
those past the limit are dropped. -/
structure Window (α : Type) where
  limit : Nat
  stored : List α
  room : Nat

namespace Window

variable {α : Type}

def empty (limit : Nat) : Window α := ⟨limit, [], limit⟩

/-- The members that the window holds, the newest first. -/
def newestFirst (w : Window α) : List α := w.stored.take w.limit

/-- The members that the window holds, the oldest first. -/
def toList (w : Window α) : List α := w.newestFirst.reverse

def newest? (w : Window α) : Option α := w.newestFirst.head?

def push (w : Window α) (a : α) : Window α :=
  match w.room with
  | 0 => ⟨w.limit, (a :: w.stored).take w.limit, w.limit⟩
  | room + 1 => ⟨w.limit, a :: w.stored, room⟩

/-- The window of an empty sequence holds nothing. -/
@[simp] theorem newestFirst_empty (limit : Nat) : (empty limit : Window α).newestFirst = [] := by
  simp [empty, newestFirst]

/-- A member that is added comes first, and what then passes the limit is gone, whether or not
it was dropped in the same move. -/
@[simp] theorem newestFirst_push (w : Window α) (a : α) :
    (w.push a).newestFirst = (a :: w.newestFirst).take w.limit := by
  obtain ⟨limit, stored, room⟩ := w
  have shown : (a :: stored).take limit = (a :: stored.take limit).take limit := by
    cases limit with
    | zero => rfl
    | succ limit => simp [List.take_take]
  cases room <;> simp [push, newestFirst, List.take_take, ← shown]

end Window

end YololChip
