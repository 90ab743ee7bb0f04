import ReactiveView.World.Lifetime

/-!
# Calling back

Writing a property may run listeners, building a child may run constructors, and scripts may do
anything that a host can do. Operations on instances therefore take what they call back into as a
parameter: the construction of instances, the running of scripts, and the dispatch of events. Where
these are tied together the depth of calls is bounded.

A script runs in a *frame*: on an instance, with a payload, for an element that handles an event if
there is one, and with the ancestor constructors that are still to be called.
-/

set_option autoImplicit false

namespace ReactiveView

/-- The circumstances in which a script runs. -/
structure Frame where
  self : InstanceId
  /-- The element whose handler called the script. -/
  node : Option NodeId := none
  payload : Value := .null
  /-- The ancestor constructors still to be called, the closest ancestor last. -/
  chain : List Host.Script := []

/-- What a script ends with: the value it returned, if it did, and whether it stopped the event. -/
structure Outcome where
  returned : Option Value := none
  prevented : Bool := false

/-- What a script's result keeps alive. -/
def Outcome.held (o : Outcome) : List Held :=
  match o.returned with
  | some v => Held.ofValue v
  | none => []

/-- What operations on instances call back into. -/
structure Callbacks where
  /-- Constructs an instance of a class. -/
  construct : ClassId → Option Value → Run InstanceId
  /-- Runs a script in a frame. -/
  script : Frame → Host.Script → Run Outcome
  /-- Dispatches an event on an instance. -/
  dispatch : InstanceId → String → Value → Run Unit

/-- Callbacks for calls that are nested too deeply. -/
def Callbacks.exhausted : Callbacks where
  construct _ _ := throw .exhausted
  script _ _ := throw .exhausted
  dispatch _ _ _ := throw .exhausted

/-- A script that returns nothing keeps nothing alive. -/
theorem Outcome.held_of_none (o : Outcome) (h : o.returned = none) : o.held = [] := by
  simp [Outcome.held, h]

end ReactiveView
