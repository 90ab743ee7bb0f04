import ReactiveView.Event
import ReactiveView.World.Callback
import ReactiveView.World.View

/-!
# Writing primitive values

A primitive write checks the value, renders its text in every place of the property, stores the value,
tells the listeners, and then recomputes the bound properties downstream of it, each once and after
everything it reads. Recomputing a bound property is a write of the rendered text without a check.

Writing an attribute checks and renders in the same way and also writes the text to an attribute of the
root element; nobody is told.

`checkPrimitive_eq_ok_iff` states which values a property or an attribute takes.
-/

set_option autoImplicit false

namespace ReactiveView

/-- Checks that a value is primitive and of the declared types. -/
def checkPrimitive (name : String) (types : Option (List PrimitiveType)) (v : Value) :
    Except Error Unit :=
  if v.isPrimitive then
    match types with
    | none => .ok ()
    | some ts =>
      if acceptsValue ts v then .ok () else .error (.typeMismatch name (describeTypes ts))
  else .error (.notPrimitive name v.shapeName)

/-- A value is taken when it is primitive and of a declared type, if types are declared. -/
theorem checkPrimitive_eq_ok_iff (name : String) (types : Option (List PrimitiveType)) (v : Value) :
    checkPrimitive name types v = .ok () ↔
      v.isPrimitive = true ∧ ∀ ts, types = some ts → acceptsValue ts v = true := by
  unfold checkPrimitive
  cases hp : v.isPrimitive <;> cases types with
  | none => simp
  | some ts => cases ha : acceptsValue ts v <;> simp [ha]

namespace World

/-- The text that a source has in an instance. -/
def textOfSource (w : World) (i : InstanceId) (source : Source) : String :=
  match w.inst? i, w.classOf? i with
  | some x, some c =>
    match (c.descriptor.propertyIndex? source.name).bind fun n => x.values[n]? with
    | some v => v.outputText
    | none => ""
  | _, _ => ""

/-- Renders the text of a source in places, with the queue of a class. -/
def renderIn (w : World) (c : Class) (places : NodeSet) (source : Source) (text : String) : World :=
  w.mapScreen fun s => s.render c.queue places source text

/-- Stores the value of a property. -/
def storeValue (w : World) (i : InstanceId) (n : Nat) (v : Value) : World :=
  w.modifyInstance i fun x => { x with values := x.values.set n v }

/-- Stores the value of an attribute. -/
def storeAttr (w : World) (i : InstanceId) (n : Nat) (v : Value) : World :=
  w.modifyInstance i fun x => { x with attrValues := x.attrValues.set n v }

end World

/-- The name of the markup attribute that shows an attribute of a class. -/
def dataName (name : String) : QName := .plain ("data-" ++ name)

namespace Run

/-- The position of a property of an instance. -/
def propertyIndex (i : InstanceId) (name : String) : Run Nat := do
  let c ← theClassOf i
  match c.descriptor.propertyIndex? name with
  | some n => pure n
  | none => fail (.unknownProperty name c.name)

/-- The position of an attribute of an instance. -/
def attributeIndex (i : InstanceId) (name : String) : Run Nat := do
  let c ← theClassOf i
  match c.descriptor.attributeIndex? name with
  | some n => pure n
  | none => fail (.unknownAttribute name c.name)

/-- The value of a property. -/
def getProperty (i : InstanceId) (name : String) : Run Value := do
  let n ← propertyIndex i name
  ofOption (← theInstance i).values[n]?

/-- The value of an attribute. -/
def getAttribute (i : InstanceId) (name : String) : Run Value := do
  let n ← attributeIndex i name
  ofOption (← theInstance i).attrValues[n]?

/-- The values of all attributes by name. -/
def getAttributes (i : InstanceId) : Run (Dict String Value) := do
  let c ← theClassOf i
  return Dict.ofList ((c.descriptor.attributes.map (·.name)).zip (← theInstance i).attrValues)

/-- Tells a listener that a property has been written. -/
def tellMutation (cb : Callbacks) (i : InstanceId) (property : String) (old new : Value)
    (l : Listener) : Run Unit := do
  note fun w => .mutation l.tag (w.labelOf i) property (w.shown old) (w.shown new)
  let _ ← cb.script { self := i, payload := new } l.script

/-- Tells the listeners that a property has been written. -/
def announce (cb : Callbacks) (i : InstanceId) (property : String) (old new : Value) :
    Run Unit := do
  let x ← theInstance i
  let listeners := (x.mutationListeners.get? EventClass.propertyChange).getD []
  listeners.forM (tellMutation cb i property old new)

/-- Renders, stores and announces the value of a primitive property. -/
def writePrimitive (cb : Callbacks) (i : InstanceId) (n : Nat) (name : String) (v : Value) :
    Run Unit := do
  let c ← theClassOf i
  match (← theView i).sites[n]? with
  | some (.nodes places) => update fun w => w.renderIn c places (.property name) v.outputText
  | _ => pure ()
  let old ← ofOption (← theInstance i).values[n]?
  update fun w => w.storeValue i n v
  announce cb i name old v

/-- Recomputes a bound property. -/
def writeBinding (cb : Callbacks) (i : InstanceId) (name : String) : Run Unit := do
  let n ← propertyIndex i name
  let c ← theClassOf i
  match (c.descriptor.property? name).bind (·.binding) with
  | none => fail (.noBinding name)
  | some format =>
    let text ← ask fun w => format.render (w.textOfSource i)
    writePrimitive cb i n name (.text text)

/-- Recomputes the bound properties downstream of a property. -/
def propagate (cb : Callbacks) (i : InstanceId) (changed : String) : Run Unit := do
  let c ← theClassOf i
  (c.affected changed).forM (writeBinding cb i)

/-- Recomputes a bound property and what is downstream of it. -/
def recomputeBinding (cb : Callbacks) (i : InstanceId) (name : String) : Run Unit := do
  writeBinding cb i name
  propagate cb i name

/-- Writes a primitive property. -/
def setPrimitive (cb : Callbacks) (i : InstanceId) (n : Nat) (name : String)
    (types : Option (List PrimitiveType)) (v : Value) : Run Unit := do
  ofExcept (checkPrimitive name types v)
  writePrimitive cb i n name v
  propagate cb i name

/-- Writes an attribute. -/
def setAttribute (i : InstanceId) (name : String) (v : Value) : Run Unit := do
  let n ← attributeIndex i name
  let c ← theClassOf i
  let a ← ofOption c.descriptor.attributes[n]?
  ofExcept (checkPrimitive name a.types v)
  let view ← theView i
  update fun w =>
    let w := w.renderIn c (view.attributeNodes[n]?.getD []) (.attr name) v.outputText
    (w.mapForest fun f => f.setAttr view.root (dataName name) v.outputText).storeAttr i n v

/-- Writes several attributes, if all of them exist. -/
def setAttributes (i : InstanceId) (values : Dict String Value) : Run Unit := do
  values.forM fun e => do
    let _ ← attributeIndex i e.1
  values.forM fun e => setAttribute i e.1 e.2

end Run

end ReactiveView
