import ReactiveView.Class.Basic
import ReactiveView.Screen.Basic
import ReactiveView.Settings
import ReactiveView.World.Report

/-!
# Worlds of live objects

A world holds everything that lives: the screen with its live trees, compiled classes, instances,
collections and namespaces, and the registry through which a host keeps hold of them.

An instance has a *view*, the live tree made from the shape of its class, together with the *sites*
where its properties are rendered: places in texts and formatted attributes, the slot of a single
child, or the sequence of a collection. It holds one value per property and attribute. While an
instance stands in a slot or a collection of another it carries an *attachment*: the place that holds
it and the sink that takes the events which climb out of it.

An operation is a `Run`: it changes the world and ends with a result or halts. What it has changed
before it halts stays changed; which operations undo what they did is stated where they are defined.

`World.isA_self` and `World.inst?_pushInstance` are the small laws used everywhere.
-/

set_option autoImplicit false

namespace ReactiveView

/-- Takes the events that climb out of the children attached under an element. -/
structure Sink where
  owner : InstanceId
  node : NodeId
  handlers : Dict String Handler

/-- What can hold an instance. -/
inductive Place where
  | sequence (c : CollectionId)
  | slot (owner : InstanceId) (property : String)
deriving DecidableEq, Repr

/-- The place that holds an instance and the sink of the events that climb out of it. -/
structure Attachment where
  place : Place
  sink : Sink

/-- Where a property is rendered. -/
inductive Site where
  | nodes (places : NodeSet)
  | slot (anchor : NodeId) (sink : Sink)
  | sequence (c : CollectionId)

/-- An element of a view that handles events of the host. -/
structure HandlerSite where
  node : NodeId
  handlers : Dict String Handler

/-- The live view of an instance; sites stand in the order of the properties, and the places of
attributes in the order of the attributes. -/
structure View where
  root : NodeId
  sites : List Site
  attributeNodes : List NodeSet
  exposed : Dict String NodeId
  handlerSites : List HandlerSite

/-- A script that listens to events, and the tag under which it is logged. -/
structure Listener where
  tag : String
  script : Host.Script

/-- A live object. -/
structure Instance where
  classId : ClassId
  view : Option View := none
  values : List Value
  attrValues : List Value
  attachment : Option Attachment := none
  dispatchListeners : Dict String (List Listener) := []
  mutationListeners : Dict String (List Listener) := []
  /-- Whether its construction has ended well. -/
  built : Bool := false
  alive : Bool := true

/-- The children in an array property, whose roots stand behind an anchor in this order. -/
structure Collection where
  element : ElementType
  anchor : NodeId
  owner : InstanceId
  property : String
  sink : Sink
  items : List InstanceId := []
  alive : Bool := true

/-- Classes and objects under names, and the documents they came from. -/
structure Namespace where
  settings : Settings
  queue : QueueId
  imports : Dict String ClassRef := []
  classes : Dict String ClassRef := []
  objects : Dict String InstanceId := []
  documents : List NodeId := []
  alive : Bool := true

/-- The class that a name stands for; own classes come before imported ones. -/
def Namespace.resolve? (ns : Namespace) (name : String) : Option ClassRef :=
  match ns.classes.get? name with
  | some ref => some ref
  | none => ns.imports.get? name

/-- Something that code in progress keeps alive. -/
inductive Held where
  | inst (i : InstanceId)
  | coll (c : CollectionId)
  | node (n : NodeId)
  | space (n : NamespaceId)
deriving DecidableEq, Repr

/-- What a host keeps hold of, by label. -/
structure Registry where
  instances : Dict String InstanceId := []
  collections : Dict String CollectionId := []
  namespaces : Dict String NamespaceId := []

/-- Everything that lives. -/
structure World where
  screen : Screen := {}
  classes : Table Class := {}
  instances : Table Instance := {}
  collections : Table Collection := {}
  spaces : Table Namespace := {}
  registry : Registry := {}
  /-- What code in progress keeps alive. -/
  pins : List Held := []
  log : List LogEntry := []

/-- Why an operation ends without a result. -/
inductive Halt where
  | failed (e : Error)
  /-- The calls are nested too deeply. -/
  | exhausted
  /-- A label or an identity names nothing. -/
  | lost

/-- An operation on a world. -/
abbrev Run := ExceptT Halt (StateM World)

namespace World

/-- The live trees. -/
def forest (w : World) : Forest := w.screen.forest

/-- The instance with an identity. -/
def inst? (w : World) (i : InstanceId) : Option Instance := w.instances.get? i.index

/-- The collection with an identity. -/
def coll? (w : World) (c : CollectionId) : Option Collection := w.collections.get? c.index

/-- The class with an identity. -/
def class? (w : World) (c : ClassId) : Option Class := w.classes.get? c.index

/-- The namespace with an identity. -/
def space? (w : World) (n : NamespaceId) : Option Namespace := w.spaces.get? n.index

/-- The class of an instance. -/
def classOf? (w : World) (i : InstanceId) : Option Class :=
  (w.inst? i).bind fun x => w.class? x.classId

/-- The name of the class of an instance. -/
def className (w : World) (i : InstanceId) : String :=
  match w.classOf? i with
  | some c => c.name
  | none => ""

/-- Whether an instance is in use. -/
def isAlive (w : World) (i : InstanceId) : Bool :=
  match w.inst? i with
  | some x => x.alive
  | none => false

/-- Whether a collection is in use. -/
def isAliveColl (w : World) (c : CollectionId) : Bool :=
  match w.coll? c with
  | some x => x.alive
  | none => false

/-- The outermost node of the view of an instance. -/
def rootOf? (w : World) (i : InstanceId) : Option NodeId :=
  ((w.inst? i).bind (·.view)).map (·.root)

/-- The attachment of an instance. -/
def attachment? (w : World) (i : InstanceId) : Option Attachment :=
  (w.inst? i).bind (·.attachment)

/-- The items of a collection. -/
def itemsOf (w : World) (c : CollectionId) : List InstanceId :=
  match w.coll? c with
  | some x => x.items
  | none => []

/-- Whether a class is another class or descends from it. -/
def isA (w : World) (c other : ClassId) : Bool :=
  c == other ||
    match w.class? c with
    | some x => x.ancestors.contains other
    | none => false

/-- Whether an element type accepts an instance. -/
def accepts (w : World) (element : ElementType) (i : InstanceId) : Bool :=
  match element with
  | .any => true
  | .ofClass ref =>
    match w.inst? i with
    | some x => w.isA x.classId ref.id
    | none => false

/-- The label that an instance is shown under. -/
def labelOf (w : World) (i : InstanceId) : String :=
  labelAmong w.registry.instances i (w.className i)

/-- The tag of a node, if it is an element. -/
def tagOf (w : World) (n : NodeId) : Option String := w.forest.tag? n

/-! ## Changes -/

/-- Changes an instance. -/
def modifyInstance (w : World) (i : InstanceId) (f : Instance → Instance) : World :=
  { w with instances := w.instances.modify i.index f }

/-- Changes a collection. -/
def modifyCollection (w : World) (c : CollectionId) (f : Collection → Collection) : World :=
  { w with collections := w.collections.modify c.index f }

/-- Changes a namespace. -/
def modifySpace (w : World) (n : NamespaceId) (f : Namespace → Namespace) : World :=
  { w with spaces := w.spaces.modify n.index f }

/-- Changes the screen. -/
def mapScreen (w : World) (f : Screen → Screen) : World := { w with screen := f w.screen }

/-- Changes the live trees. -/
def mapForest (w : World) (f : Forest → Forest) : World := w.mapScreen fun s => s.mapForest f

/-- Adds an instance. -/
def pushInstance (w : World) (x : Instance) : InstanceId × World :=
  (⟨w.instances.size⟩, { w with instances := w.instances.push x })

/-- Adds a collection. -/
def pushCollection (w : World) (x : Collection) : CollectionId × World :=
  (⟨w.collections.size⟩, { w with collections := w.collections.push x })

/-- Adds a class. -/
def pushClass (w : World) (x : Class) : ClassId × World :=
  (⟨w.classes.size⟩, { w with classes := w.classes.push x })

/-- Adds a namespace. -/
def pushSpace (w : World) (x : Namespace) : NamespaceId × World :=
  (⟨w.spaces.size⟩, { w with spaces := w.spaces.push x })

/-! ## Showing values -/

mutual

/-- A value with labels in place of instances. -/
def shown (w : World) : Value → Shown
  | .null => .null
  | .bool b => .bool b
  | .number x => .number x
  | .text s => .text s
  | .inst i => .inst (w.labelOf i)
  | .coll c =>
    match w.coll? c with
    | some x => .coll x.property (x.items.map w.labelOf)
    | none => .null
  | .array items => .array (shownItems w items)
  | .object fields => .object (shownFields w fields)

/-- A list of values with labels in place of instances. -/
def shownItems (w : World) : List Value → List Shown
  | [] => []
  | v :: vs => shown w v :: shownItems w vs

/-- A list of entries with labels in place of instances. -/
def shownFields (w : World) : List (String × Value) → List (String × Shown)
  | [] => []
  | (k, v) :: vs => (k, shown w v) :: shownFields w vs

end

/-! ## Laws -/

/-- A class is itself. -/
theorem isA_self (w : World) (c : ClassId) : w.isA c c = true := by simp [isA]

/-- An added instance is found. -/
theorem inst?_pushInstance (w : World) (x : Instance) :
    (w.pushInstance x).2.inst? (w.pushInstance x).1 = some x := by
  simp [pushInstance, inst?]

/-- Adding an instance leaves the others. -/
theorem inst?_pushInstance_of_lt (w : World) (x : Instance) (i : InstanceId)
    (h : i.index < w.instances.size) : (w.pushInstance x).2.inst? i = w.inst? i := by
  simp [pushInstance, inst?, Table.get?_push_of_lt _ _ _ h]

end World

/-! ## Operations -/

namespace Run

/-- Halts with an error. -/
def fail {α : Type} (e : Error) : Run α := throw (.failed e)

/-- Gives the result of a computation that may fail. -/
def ofExcept {α : Type} (r : Except Error α) : Run α :=
  match r with
  | .ok a => pure a
  | .error e => fail e

/-- Gives the result of a look-up that finds something in every world made by operations. -/
def ofOption {α : Type} (o : Option α) : Run α :=
  match o with
  | some a => pure a
  | none => throw .lost

/-- Reads from the world. -/
def ask {α : Type} (f : World → α) : Run α := return f (← get)

/-- Changes the world. -/
def update (f : World → World) : Run Unit := modify f

/-- Changes the world and gives what the change answers. -/
def change {α : Type} (f : World → α × World) : Run α := modifyGet f

/-- Changes the live trees by an edit that may fail. -/
def edit (f : Forest → Except Error Unit × Forest) : Run Unit := do
  let r ← change fun w =>
    let (r, forest) := f w.forest
    (r, w.mapForest fun _ => forest)
  ofExcept r

/-- Leaves an entry in the log. -/
def note (f : World → LogEntry) : Run Unit := update fun w => { w with log := w.log ++ [f w] }

/-- Keeps something alive as long as the code in progress runs. -/
def pin (h : Held) : Run Unit := update fun w => { w with pins := h :: w.pins }

/-- Carries on when an operation fails. -/
def tolerate (r : Run Unit) : Run Unit :=
  tryCatch r fun h =>
    match h with
    | .failed _ => pure ()
    | h => throw h

/-- The instance with an identity. -/
def theInstance (i : InstanceId) : Run Instance := do ofOption ((← get).inst? i)

/-- The class with an identity. -/
def theClass (c : ClassId) : Run Class := do ofOption ((← get).class? c)

/-- The class of an instance. -/
def theClassOf (i : InstanceId) : Run Class := do theClass (← theInstance i).classId

/-- The collection with an identity. -/
def theCollection (c : CollectionId) : Run Collection := do ofOption ((← get).coll? c)

/-- The namespace with an identity. -/
def theSpace (n : NamespaceId) : Run Namespace := do ofOption ((← get).space? n)

/-- The view of an instance. -/
def theView (i : InstanceId) : Run View := do
  match (← theInstance i).view with
  | some v => pure v
  | none => fail .viewMissing

/-- The outermost node of the view of an instance. -/
def theRoot (i : InstanceId) : Run NodeId := return (← theView i).root

end Run

end ReactiveView
