import ReactiveView.Dict

/-!
# What is shown of a world

Instances have no name of their own, so a report names them by labels: the first label in
alphabetical order that an instance is registered under, or a mark in front of the name of its class.
A value is shown with the labels of the moment at which it is shown; a report is therefore plain
data, which later changes of the world leave alone.

Scripts leave *log entries* behind, one for every note they take and for every listener, ancestor
constructor and factory that is called.
-/

set_option autoImplicit false

namespace ReactiveView

/-- A value as it is shown, with labels in place of instances. -/
inductive Shown where
  | null
  | bool (b : Bool)
  | number (x : Float)
  | text (s : String)
  | inst (label : String)
  | coll (property : String) (items : List String)
  | array (items : List Shown)
  | object (fields : List (String × Shown))

/-- What scripts leave behind while they run. -/
inductive LogEntry where
  /-- A note of a script: the running instance, the payload, and the tag of the element whose handler
  called it. -/
  | note (text self : String) (payload : Shown) (node : Option String)
  /-- The next ancestor constructor is asked for; there may be none. -/
  | superCall (present : Bool)
  /-- A factory is asked for an instance. -/
  | factory (init : Shown)
  /-- A listener hears that a property has been written. -/
  | mutation (tag self property : String) (old new : Shown)
  /-- A listener hears of an event; it may have been stopped already. -/
  | dispatch (tag self event : String) (data : Shown) (prevented : Bool)

/-- The label of an instance among registered labels, or a mark and the name of its class. -/
def labelAmong {α : Type} [DecidableEq α] (labels : Dict String α) (i : α) (className : String) :
    String :=
  match labels.find? fun e => e.2 = i with
  | some e => e.1
  | none => "?" ++ className

/-- An instance that no label names is shown by its class. -/
theorem labelAmong_nil {α : Type} [DecidableEq α] (i : α) (className : String) :
    labelAmong ([] : Dict String α) i className = "?" ++ className := rfl

end ReactiveView
