import ReactiveView.Error

/-!
# Classes of events

An instance listens to events of two classes: dispatch events, which are raised by name and climb
from a child to the element it is attached under, and mutation events, which announce that a
primitive property has been written.
-/

set_option autoImplicit false

namespace ReactiveView

/-- The classes of events that an instance listens to. -/
inductive EventClass where
  | dispatch
  | mutation
deriving DecidableEq, Repr

namespace EventClass

/-- The word for a class of events. -/
def word : EventClass → String
  | dispatch => "dispatch"
  | mutation => "mutation"

/-- The class of events a word stands for. -/
def ofWord (word : String) : Except Error EventClass :=
  if word = "dispatch" then .ok dispatch
  else if word = "mutation" then .ok mutation
  else .error (.unknownEventClass word)

/-- The name under which the writing of a property is announced. -/
def propertyChange : String := "propertyvaluechange"

/-- Reading the word of a class gives the class. -/
theorem ofWord_word (c : EventClass) : ofWord c.word = .ok c := by
  cases c <;> rfl

end EventClass

end ReactiveView
