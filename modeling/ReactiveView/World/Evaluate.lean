import ReactiveView.World.Write

/-!
# Evaluating expressions

An expression is evaluated in the frame of a script, or outside of any script. Every instance and
collection that it refers to is kept alive by the code that evaluates it.

`evaluate_text` and `evaluate_null` say that plain data stands for itself.
-/

set_option autoImplicit false

namespace ReactiveView.Run

open ReactiveView.Host (Expr)

/-- The instance registered under a label. -/
def labelled (label : String) : Run InstanceId := do
  let i ← ofOption ((← get).registry.instances.get? label)
  pin (.inst i)
  return i

/-- The running instance. -/
def running (frame : Option Frame) : Run InstanceId := do return (← ofOption frame).self

mutual

/-- The value of an expression. -/
def evaluate (frame : Option Frame) : Expr → Run Value
  | .null => pure .null
  | .bool b => pure (.bool b)
  | .number x => pure (.number x)
  | .text s => pure (.text s)
  | .array items => return .array (← evaluateItems frame items)
  | .object fields => return .object (Dict.ofList (← evaluateFields frame fields))
  | .labelled label => return .inst (← labelled label)
  | .collectionOf label property => do
    let v ← getProperty (← labelled label) property
    pinValue v
    return v
  | .heldCollection label => do
    let c ← ofOption ((← get).registry.collections.get? label)
    pin (.coll c)
    return .coll c
  | .payload => return (← ofOption frame).payload
  | .payloadText => return .text (← ofOption frame).payload.outputText
  | .self => return .inst (← running frame)
  | .property name => do
    let v ← getProperty (← running frame) name
    pinValue v
    return v

/-- The values of a list of expressions. -/
def evaluateItems (frame : Option Frame) : List Expr → Run (List Value)
  | [] => pure []
  | e :: es => do
    let v ← evaluate frame e
    return v :: (← evaluateItems frame es)

/-- The values of a list of entries. -/
def evaluateFields (frame : Option Frame) :
    List (String × Expr) → Run (List (String × Value))
  | [] => pure []
  | (k, e) :: es => do
    let v ← evaluate frame e
    return (k, v) :: (← evaluateFields frame es)

end

/-- The value of an expression that may be missing. -/
def evaluateOption (frame : Option Frame) : Option Expr → Run (Option Value)
  | none => pure none
  | some e => some <$> evaluate frame e

/-- A text stands for itself. -/
theorem evaluate_text (frame : Option Frame) (s : String) :
    evaluate frame (.text s) = pure (.text s) := by simp [evaluate]

/-- Null stands for itself. -/
theorem evaluate_null (frame : Option Frame) : evaluate frame .null = pure .null := by
  simp [evaluate]

end ReactiveView.Run
