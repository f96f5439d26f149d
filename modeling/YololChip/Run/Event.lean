/-!
# Events

The moments of a run that observers can be told of, and what goes wrong with observers.
-/

namespace YololChip

/-- The moments of a run that an observer can be told of. -/
inductive Event where
  | beforeLine
  | afterLine
  | beforeStatement
  | afterStatement
  | onGoto
  | onError
deriving DecidableEq

namespace Event

/-- The name under which observers ask for an event. -/
def name : Event → String
  | beforeLine => "before_line"
  | afterLine => "after_line"
  | beforeStatement => "before_statement"
  | afterStatement => "after_statement"
  | onGoto => "on_goto"
  | onError => "on_error"

def all : List Event := [beforeLine, afterLine, beforeStatement, afterStatement, onGoto, onError]

/-- The event of a name, which is compared as it stands. -/
def ofName? (name : String) : Option Event := all.find? (·.name = name)

/-- The name of an event finds it again, so no two events share a name. -/
@[simp] theorem ofName?_name (event : Event) : ofName? event.name = some event := by
  cases event <;> decide

end Event

/-- What goes wrong with an observer: it asks for no event, or for no interval, or it breaks
while it is told of something. The first two are refusals of what is asked for; the others arise
in a run. -/
inductive HookFault where
  | unknownEvent (name : String)
  | emptyInterval
  | handlerBroke (event : Event) (message : String)
  | ruleBroke (rule message : String)
deriving DecidableEq

def HookFault.message : HookFault → String
  | unknownEvent name => "Unknown event '" ++ name ++ "'"
  | emptyInterval => "every_n must be >= 1"
  | handlerBroke event message => "Hook for '" ++ event.name ++ "' failed: " ++ message
  | ruleBroke rule message => "Step rule '" ++ rule ++ "' failed: " ++ message

end YololChip
