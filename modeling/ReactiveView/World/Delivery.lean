import ReactiveView.Event
import ReactiveView.World.Callback

/-!
# Delivering events

A handler runs its steps in order: a method that returns false keeps the steps after it from
running, and a dispatch step raises an event on the same instance.

An event dispatched on an instance is heard by the listeners of the instance first. Unless one of them
stops it, it climbs to the sink that the instance is attached under: the handlers of the parent's
element around the place. From there it climbs further only if a handler dispatches again.

An event of the host reaches a live element of the view; the answer tells whether a handler ran.
-/

set_option autoImplicit false

namespace ReactiveView

/-- Whether a result keeps the remaining steps of a handler from running. -/
def stopsHandler : Value → Bool
  | .bool false => true
  | _ => false

namespace Run

/-- Calls a method on an instance, for an element that handles an event if there is one. -/
def callMethod (cb : Callbacks) (i : InstanceId) (name : String) (node : Option NodeId)
    (payload : Value) : Run Value := do
  let c ← theClassOf i
  match c.descriptor.methods.get? name with
  | none => fail (.unknownMethod name c.name)
  | some script =>
    let o ← cb.script { self := i, node := node, payload := payload } script
    return o.returned.getD .null

/-- Runs the steps of a handler. -/
def runSteps (cb : Callbacks) (i : InstanceId) (node : Option NodeId) (payload : Value) :
    List HandlerStep → Run Unit
  | [] => pure ()
  | .call name :: rest => do
    let result ← callMethod cb i name node payload
    if stopsHandler result then pure () else runSteps cb i node payload rest
  | .dispatch event :: rest => do
    cb.dispatch i event payload
    runSteps cb i node payload rest

/-- Delivers an event to the handlers around a place. -/
def deliver (cb : Callbacks) (sink : Sink) (event : String) (data : Value) : Run Unit := do
  match sink.handlers.get? event with
  | none => pure ()
  | some handler =>
    if (← get).isAlive sink.owner then
      inScope do
        pin (.inst sink.owner)
        pin (.node sink.node)
        runSteps cb sink.owner (some sink.node) data handler.steps

/-- Tells listeners of an event in order; gives whether it has been stopped. -/
def tellDispatch (cb : Callbacks) (i : InstanceId) (event : String) (data : Value)
    (prevented : Bool) : List Listener → Run Bool
  | [] => pure prevented
  | l :: rest => do
    note fun w => .dispatch l.tag (w.labelOf i) event (w.shown data) prevented
    let o ← cb.script { self := i, payload := data } l.script
    tellDispatch cb i event data (prevented || o.prevented) rest

/-- Dispatches an event on an instance. -/
def dispatchEvent (cb : Callbacks) (i : InstanceId) (name : String) (data : Value) : Run Unit := do
  let event := Text.lowercase name
  let listeners := ((← theInstance i).dispatchListeners.get? event).getD []
  if !(← tellDispatch cb i event data false listeners) then
    match (← get).attachment? i with
    | some a => deliver cb a.sink event data
    | none => pure ()

/-- Delivers an event of the host to a live element; gives whether a handler ran. -/
def handleHostEvent (cb : Callbacks) (i : InstanceId) (node : NodeId) (name : String)
    (payload : Value) : Run Bool := do
  let event := Text.lowercase name
  let view ← theView i
  match (view.handlerSites.find? fun s => s.node = node).bind fun s => s.handlers.get? event with
  | some handler =>
    runSteps cb i (some node) payload handler.steps
    return true
  | none => return false

/-- Delivers an event of the host to an exposed element. -/
def trigger (cb : Callbacks) (i : InstanceId) (key name : String) (payload : Value) :
    Run Bool := do
  match ((← theInstance i).view.bind fun v => v.exposed.get? key) with
  | some node => handleHostEvent cb i node name payload
  | none => fail (.notExposed key)

/-- Registers a listener. -/
def listen (i : InstanceId) (kind : EventClass) (name : String) (l : Listener) : Run Unit :=
  let event := Text.lowercase name
  update fun w => w.modifyInstance i fun x =>
    match kind with
    | .dispatch => { x with dispatchListeners := Dict.append x.dispatchListeners event l }
    | .mutation => { x with mutationListeners := Dict.append x.mutationListeners event l }

/-- A handler without steps does nothing. -/
theorem runSteps_nil (cb : Callbacks) (i : InstanceId) (node : Option NodeId) (payload : Value) :
    runSteps cb i node payload [] = pure () := rfl

end Run

end ReactiveView
