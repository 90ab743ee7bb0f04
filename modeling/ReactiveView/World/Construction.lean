import ReactiveView.Json.Reader
import ReactiveView.World.Children
import ReactiveView.World.Evaluate

/-!
# Constructing instances

An initial state names properties and the values they start with. Attributes start with their defaults;
properties are written in the order of declaration, with the supplied value or the default; then the
bound properties that nobody supplied are recomputed, each after what it reads; last, the constructors
run, the closest ancestor's first. A construction that fails sets free what the new instance has taken.

An abstract class has its instances made by a factory, whose product must be of the class.

`initialFields_eq_ok_iff` says which initial states there are, `initialValue_of_none` that a value
without a passthrough key is taken as it is.
-/

set_option autoImplicit false

namespace ReactiveView

/-- The entries of an initial state. -/
def initialFields (className : String) : Option Value → Except Error (Dict String Value)
  | none | some .null => .ok []
  | some (.object fields) => .ok fields
  | some v => .error (.initialNotObject className v.shapeName)

/-- An initial state is missing, null or an object. -/
theorem initialFields_eq_ok_iff (className : String) (init : Option Value)
    (fields : Dict String Value) :
    initialFields className init = .ok fields ↔
      (fields = [] ∧ (init = none ∨ init = some .null)) ∨ init = some (.object fields) := by
  cases init with
  | none => simp [initialFields, eq_comm]
  | some v => cases v <;> simp [initialFields, eq_comm]

/-- What a property starts with when a value is supplied. Under a passthrough key the value is put into
the default object. -/
def initialValue (p : PropertyDescriptor) (given : Value) : Except Error Value :=
  match p.passthrough with
  | none => .ok given
  | some key =>
    let base : Value :=
      match p.default with
      | .null => .object []
      | v => v
    match base.mergedWith (.object [(key, given)]) with
    | some v => .ok v
    | none => .error (.passthroughDefault p.name)

/-- Without a passthrough key a supplied value is taken as it is. -/
theorem initialValue_of_none (p : PropertyDescriptor) (given : Value) (h : p.passthrough = none) :
    initialValue p given = .ok given := by
  simp [initialValue, h]

/-- The value that a text of data stands for as an initial state. -/
def initialOfText (text : String) : Except Error Value :=
  match Json.parse? text with
  | some j => .ok (Value.ofJson j)
  | none => .error .badInitialText

namespace Run

/-- Writes all that waits in the queue of a class. -/
def flushQueue (q : QueueId) : Run Nat :=
  change fun w =>
    let (n, screen) := w.screen.flush q
    (n, { w with screen := screen })

/-- Runs the last constructor of a chain, which may call the one before it. -/
def runConstructors (cb : Callbacks) (i : InstanceId) (chain : List Host.Script) : Run Unit := do
  match chain.getLast? with
  | none => pure ()
  | some script => let _ ← cb.script { self := i, chain := chain.dropLast } script

/-- Writes the value that a property starts with. -/
def initializeProperty (cb : Callbacks) (i : InstanceId) (fields : Dict String Value)
    (p : PropertyDescriptor) : Run Unit := do
  match fields.get? p.name with
  | some given => setProperty cb i p.name (← ofExcept (initialValue p given))
  | none => setProperty cb i p.name p.default

/-- Gives a new instance its initial state. -/
def giveInitialState (cb : Callbacks) (i : InstanceId) (c : Class) (fields : Dict String Value) :
    Run Unit := do
  c.descriptor.attributes.forM fun a => setAttribute i a.name a.default
  c.descriptor.properties.forM (initializeProperty cb i fields)
  (c.graph.order.filter fun name => !fields.contains name).forM (recomputeBinding cb i)
  runConstructors cb i c.constructors

/-- Adds an instance of a class with a live view of its own. -/
def create (id : ClassId) (c : Class) : Run InstanceId := do
  let (i, w) ← ofExcept ((← get).createInstance id c.descriptor)
  update fun _ => w
  pin (.inst i)
  return i

/-- Gives a new instance its initial state; if that fails, sets free what it has taken. -/
def populate (cb : Callbacks) (i : InstanceId) (c : Class) (fields : Dict String Value) :
    Run InstanceId := do
  try
    giveInitialState cb i c fields
  catch h =>
    releaseChildren cb i
    let _ ← flushQueue c.queue
    throw h
  let _ ← flushQueue c.queue
  update fun w => w.modifyInstance i fun x => { x with built := true }
  return i

/-- Constructs an instance of a concrete class. -/
def constructConcrete (cb : Callbacks) (id : ClassId) (c : Class) (init : Option Value) :
    Run InstanceId := do
  let fields ← ofExcept (initialFields c.name init)
  match fields.keys.find? fun k => (c.descriptor.property? k).isNone with
  | some k => fail (.unknownProperty k c.name)
  | none => populate cb (← create id c) c fields

/-- The class that a name stands for in a namespace. -/
def resolveIn (space : NamespaceId) (name : String) : Run ClassRef := do
  match (← theSpace space).resolve? name with
  | some ref => return ref
  | none => fail (.unknownClass name)

/-- Has a factory make an instance. -/
def runFactory (cb : Callbacks) (space : NamespaceId) (factory : Host.Factory)
    (init : Option Value) : Run InstanceId := do
  note fun w => .factory (w.shown (init.getD .null))
  match factory with
  | .fail e => fail e
  | .existing label => labelled label
  | .construct name given =>
    let ref ← resolveIn space name
    let own ← evaluateOption none given
    cb.construct ref.id (own.or init)

/-- Constructs an instance through a factory, whose product must be of the class. -/
def constructThrough (cb : Callbacks) (id : ClassId) (space : NamespaceId)
    (factory : Host.Factory) (init : Option Value) : Run InstanceId := do
  let i ← runFactory cb space factory init
  let x ← theInstance i
  if (← get).isA x.classId id then return i
  else fail (.unrelatedProduct (← theClass id).name ((← get).className i))

/-- Constructs an instance through the factory of its class, which needs the namespace in use. -/
def throughFactory (cb : Callbacks) (id : ClassId) (space : NamespaceId) (factory : Host.Factory)
    (init : Option Value) : Run InstanceId := do
  if !(← theSpace space).alive then fail .namespaceGone
  pin (.space space)
  constructThrough cb id space factory init

/-- Constructs an instance of a class, through its factory if the class is abstract. -/
def constructInstance (cb : Callbacks) (id : ClassId) (init : Option Value) : Run InstanceId :=
  keeping (fun i => [.inst i]) do
    let c ← theClass id
    if c.descriptor.isAbstract then
      match c.factory, c.ns with
      | some factory, some space => throughFactory cb id space factory init
      | _, _ => fail (.abstractClass c.name)
    else constructConcrete cb id c init

/-- Constructs an instance from a text of data. -/
def constructFromText (cb : Callbacks) (id : ClassId) (text : String) : Run InstanceId := do
  let v ← ofExcept (initialOfText text)
  cb.construct id (some v)

end Run

end ReactiveView
