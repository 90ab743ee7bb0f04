import ReactiveView.Host.Answer
import ReactiveView.World.Delivery
import ReactiveView.World.Loading
import ReactiveView.World.Projection

/-!
# Carrying out commands

A command is carried out in the frame of a script or outside of any script; in a frame, a missing target
stands for the running instance. A namespace is made with default settings when it is first named.

A script is a list of actions, run in order until one returns a value. What an action keeps alive it
lets go when it ends. `Callbacks.ofDepth` ties construction, scripts and dispatch together, each call one
level down.

`runScript_nil` and `ofDepth_zero` are the ends of both recursions.
-/

set_option autoImplicit false

namespace ReactiveView

namespace World

/-- The printed view of an instance. -/
def html (w : World) (i : InstanceId) : String :=
  match w.rootOf? i with
  | some root => (w.forest.tree root).printed
  | none => ""

/-- The names of the classes of a namespace, while that is in use. -/
def classNamesOf (w : World) (space : Option NamespaceId) : Option (List String) :=
  match space.bind w.space? with
  | some ns => if ns.alive then some ns.classes.keys else none
  | none => none

/-- What a host is told of a class. -/
def summaryOf (w : World) (c : Class) : Host.ClassSummary where
  name := c.name
  isAbstract := c.descriptor.isAbstract
  parent := c.descriptor.parent.map (·.name)
  properties := c.descriptor.propertyNames
  predefinedProperties := w.shownFields c.descriptor.predefinedProperties
  predefinedAttributes := w.shownFields c.descriptor.predefinedAttributes
  hasConstructor := c.descriptor.constructor.isSome
  rootTag := c.descriptor.rootTag?
  classNames := w.classNamesOf c.ns

/-- What a host is told of the place that holds an instance. -/
def heldBy (w : World) (i : InstanceId) : Host.HeldBy :=
  match w.attachment? i with
  | none => .nothing
  | some a =>
    match a.place with
    | .sequence _ => .sequence
    | .slot owner property => .slot property (w.isAlive owner)

/-- The node that a path of child positions leads to. -/
def nodeAt? (w : World) (n : NodeId) : List Nat → Option NodeId
  | [] => some n
  | k :: rest =>
    match (w.forest.children n)[k]? with
    | some child => w.nodeAt? child rest
    | none => none

end World

namespace Run

open ReactiveView.Host (Expr Answer Action Command NamespaceOp InstanceOp CollectionOp
  CollectionRef Behavior Script)

/-! ## Targets and labels -/

/-- The word that stands for the running instance. -/
def selfWord : String := "self"

/-- The instance that a target names. -/
def target (frame : Option Frame) (name : Option String) : Run InstanceId := do
  match name, frame with
  | none, _ => running frame
  | some label, some f => if label = selfWord then return f.self else labelled label
  | some label, none => labelled label

/-- The collection that a value is. -/
def theColl (v : Value) : Run CollectionId := do
  let c ← ofOption v.coll?
  pin (.coll c)
  return c

/-- The collection that a reference names. -/
def collectionAt (frame : Option Frame) : CollectionRef → Run CollectionId
  | .property owner name => do theColl (← getProperty (← target frame owner) name)
  | .held label => do
    let c ← ofOption ((← get).registry.collections.get? label)
    pin (.coll c)
    return c

/-- Registers an instance under a label. -/
def register (label : String) (i : InstanceId) : Run Unit :=
  update fun w => { w with registry :=
    { w.registry with instances := w.registry.instances.insert label i } }

/-- Registers an instance if there is a label for it. -/
def registerAs (label : Option String) (i : InstanceId) : Run Unit :=
  label.forM fun l => register l i

/-- Registers instances under labels in order, as far as both go. -/
def registerAll (labels : List String) (is : List InstanceId) : Run Unit :=
  (labels.zip is).forM fun e => register e.1 e.2

/-- The namespace with a name. -/
def spaceNamed (name : String) : Run NamespaceId := do
  match (← get).registry.namespaces.get? name with
  | some n => return n
  | none =>
    change fun w =>
      let settings : Settings := {}
      let (queue, screen) := w.screen.addQueue settings.writeDelay
      let (n, w) := { w with screen := screen }.pushSpace { settings := settings, queue := queue }
      (n, { w with registry :=
        { w.registry with namespaces := w.registry.namespaces.insert name n } })

/-! ## Showing -/

/-- The label of an instance. -/
def shownLabel (i : InstanceId) : Run String := ask fun w => w.labelOf i

/-- An instance that a command took out or found. -/
def found (label : Option String) (i : Option InstanceId) : Run Answer := do
  match i with
  | none => return .maybeText none
  | some i =>
    registerAs label i
    return .maybeText (some (← shownLabel i))

/-- Instances that a command took out. -/
def foundAll (labels : List String) (is : List InstanceId) : Run Answer := do
  registerAll labels is
  return .texts (← is.mapM shownLabel)

/-- An instance that a command made or found by name. -/
def madeAnswer (label : Option String) (i : InstanceId) : Run Answer := do
  registerAs label i
  ask fun w => .made (w.className i) (w.html i)

/-- What a host is told of a namespace. -/
def summaryAnswer (space : NamespaceId) (loaded : Option Nat) : Run Answer := do
  let ns ← theSpace space
  return .summary ⟨ns.classes.keys, ns.objects.keys, ns.documents.length⟩ loaded

/-! ## Commands on namespaces -/

/-- The class that an import names, under the name it is given. -/
def importClass (i : String × String × String) : Run (String × ClassRef) := do
  let (name, space, className) := i
  return (name, ← resolveIn (← spaceNamed space) className)

/-- Makes a namespace in place of the one that has its name. -/
def createNamespace (name : String) (settings : Option Json)
    (imports : List (String × String × String)) : Run Answer := do
  let settings ← ofExcept ((settings.map Settings.ofJson).getD (.ok {}))
  let imports ← imports.mapM importClass
  update fun w =>
    let (queue, screen) := w.screen.addQueue settings.writeDelay
    let (n, w) := { w with screen := screen }.pushSpace {
      settings := settings, queue := queue, imports := Dict.ofList imports }
    { w with registry := { w.registry with namespaces := w.registry.namespaces.insert name n } }
  return .settings settings

/-- The printed elements with a tag in a document. -/
def documentElements (ns : Namespace) (position : Nat) (tag : String) : Run Answer := do
  match ns.documents[position]? with
  | none => return .maybeTexts none
  | some top =>
    ask fun w => .maybeTexts (some ((Markup.findIn (fun m => m.tag? == some tag)
      (w.forest.tree top).contentChildren).map Markup.printed))

/-- Carries out a command on a namespace. -/
def onNamespace (cb : Callbacks) (frame : Option Frame) (name : String) :
    NamespaceOp → Run Answer
  | .create settings imports => createNamespace name settings imports
  | .names => do summaryAnswer (← spaceNamed name) none
  | .debug => do return .text (World.spaceDebug (← theSpace (← spaceNamed name)))
  | .document position tag => do documentElements (← theSpace (← spaceNamed name)) position tag
  | .classSummary className => do
    let c ← theClass (← resolveIn (← spaceNamed name) className).id
    ask fun w => .classSummary (w.summaryOf c)
  | .classDescriptor className => do
    let c ← theClass (← resolveIn (← spaceNamed name) className).id
    return .descriptor c.descriptor
  | .isA className other => do
    let space ← spaceNamed name
    let c ← resolveIn space className
    let d ← resolveIn space other
    ask fun w => .flag (w.isA c.id d.id)
  | .construct className init label => do
    let ref ← resolveIn (← spaceNamed name) className
    let init ← evaluateOption frame init
    madeAnswer label (← cb.construct ref.id init)
  | .constructText className text label => do
    let ref ← resolveIn (← spaceNamed name) className
    madeAnswer label (← constructFromText cb ref.id text)
  | .constructWith className factory init label => do
    let space ← spaceNamed name
    let ref ← resolveIn space className
    let init ← evaluateOption frame init
    madeAnswer label (← constructThrough cb ref.id space factory init)
  | .object objectName label => do
    match (← theSpace (← spaceNamed name)).objects.get? objectName with
    | none => return .nothing
    | some i => madeAnswer label i
  | .flush => do return .count (← flushQueue (← theSpace (← spaceNamed name)).queue)
  | .poll delta => do
    let queue := (← theSpace (← spaceNamed name)).queue
    let n ← change fun w =>
      let (n, screen) := w.screen.pollAfterDeadline queue delta
      (n, { w with screen := screen })
    return .count n
  | .queue => do
    let queue := (← theSpace (← spaceNamed name)).queue
    let q ← ofOption ((← get).screen.queue? queue)
    return .queue q.pending.length q.flushes q.deadline.isSome

/-- Loads documents and tells what the namespace then holds. -/
def load (cb : Callbacks) (name : String) (sources : List String) (behaviors : Behaviors)
    (tellNumber : Bool) : Run Answer := do
  let space ← spaceNamed name
  let n ← loadDocuments cb space behaviors sources
  summaryAnswer space (if tellNumber then some n else none)

/-! ## Commands on instances -/

/-- Carries out a command on an instance. -/
def onInstance (cb : Callbacks) (frame : Option Frame) (i : InstanceId) :
    InstanceOp → Run Answer
  | .get name label => do
    let v ← getProperty i name
    v.inst?.forM (registerAs label)
    ask fun w => .value (w.shown v)
  | .set name v => do
    setProperty cb i name (← evaluate frame v)
    return .nothing
  | .attr name => do
    let v ← getAttribute i name
    ask fun w => .value (w.shown v)
  | .attrs => do
    let d ← getAttributes i
    ask fun w => .fields (w.shownFields d)
  | .setAttr name v => do
    setAttribute i name (← evaluate frame v)
    return .nothing
  | .setAttrs values => do
    setAttributes i (Dict.ofList (← evaluateFields frame values))
    return .nothing
  | .assign v => do
    assign cb i (← evaluate frame v)
    return .nothing
  | .values => do
    let x ← theInstance i
    ask fun w => .values (w.shownItems x.values)
  | .toObject => ask fun w => .text (w.toData i).compact
  | .toJson => ask fun w => .text (w.toData i).compact
  | .html => ask fun w => .text (w.html i)
  | .text => do
    let root ← theRoot i
    ask fun w => .text (w.forest.tree root).textContent
  | .classOf => do
    let c ← theClassOf i
    ask fun w => .classOf c.name (w.classNamesOf c.ns)
  | .same other => do return .flag (i == (← target frame (some other)))
  | .debug => do
    let c ← theClassOf i
    let x ← theInstance i
    ask fun w => .texts [w.instanceDebug i, World.classDebug c,
      World.listDebug (x.values.map w.valueDebug)]
  | .state => do
    let root ← theRoot i
    ask fun w => .state (w.isAttached i) (w.heldBy i) (w.forest.parent? root).isSome
  | .attach parent name => do
    attach cb i (← target frame (some parent)) name
    return .nothing
  | .detach => do
    detach cb i
    return .nothing
  | .exposed key => do
    match (← theInstance i).view.bind fun v => v.exposed.get? key with
    | none => return .maybeText none
    | some n => ask fun w => .maybeText (some (w.forest.tree n).printed)
  | .call name data => do
    let v ← callMethod cb i name none (← evaluate frame data)
    ask fun w => .value (w.shown v)
  | .dispatch name data => do
    dispatchEvent cb i name (← evaluate frame data)
    return .nothing
  | .domEvent path event data => do
    let root ← theRoot i
    let n ← ofOption ((← get).nodeAt? root path)
    pin (.node n)
    return .flag (← handleHostEvent cb i n event (← evaluate frame data))
  | .trigger key event data => do
    return .flag (← trigger cb i key event (← evaluate frame data))
  | .hold name label => do
    let c ← theColl (← getProperty i name)
    update fun w => { w with registry :=
      { w.registry with collections := w.registry.collections.insert label c } }
    return .nothing

/-! ## Commands on collections -/

/-- Carries out a command on a collection. -/
def onCollection (cb : Callbacks) (frame : Option Frame) (c : CollectionId) :
    CollectionOp → Run Answer
  | .push v => do return .count (← push cb c (← evaluate frame v))
  | .unshift v => do return .count (← unshift cb c (← evaluate frame v))
  | .pop label => do found label (← pop cb c)
  | .shift label => do found label (← shift cb c)
  | .remove position label => do found label (some (← removeItem cb c position))
  | .get position label => do found label ((← get).itemsOf c)[position]?
  | .insert position v => do
    insertItem cb c position (← evaluate frame v)
    return .nothing
  | .move source destination => do
    moveItem cb c source destination
    return .nothing
  | .splice start count values labels => do
    foundAll labels (← splice cb c start count (← evaluateItems frame values))
  | .replaceAll values labels => do
    foundAll labels (← replaceAll cb c (← evaluateItems frame values))
  | .items => do return .texts (← ((← get).itemsOf c).mapM shownLabel)
  | .indexOf item => do
    let i ← target frame (some item)
    ask fun w => .maybeCount ((w.itemsOf c).idxOf? i)
  | .info => do
    let x ← theCollection c
    ask fun w => .collection x.items.length x.property x.element.name
      (if w.isAlive x.owner then some (w.labelOf x.owner) else none)
  | .debug => ask fun w => .text (w.collectionDebug c)
  | .toArray start stop => ask fun w => .text (w.itemsData c start stop).compact
  | .toJson start stop indentation => do
    return .text (← ofExcept ((← get).itemsText c start stop indentation))

/-! ## Commands and scripts -/

/-- Carries out a command. -/
def perform (cb : Callbacks) (frame : Option Frame) : Command → Run Answer
  | .namespaceOp name op => onNamespace cb frame name op
  | .load name html behaviors => load cb name [html] behaviors false
  | .loadFiles name files directory behaviors => do
    let entries ← ofExcept (Template.discover files (FileTree.components directory))
    load cb name (entries.map (·.source)) behaviors true
  | .instanceOp name op => do
    let i ← target frame name
    onInstance cb frame i op
  | .listen name kind event tag script => do
    let i ← target frame name
    listen i (← ofExcept (EventClass.ofWord kind)) event ⟨tag, script⟩
    return .nothing
  | .drop label => do
    let there ← ask fun w => w.registry.instances.contains label
    update fun w => { w with registry :=
      { w.registry with instances := w.registry.instances.erase label } }
    return .flag there
  | .collectionOp source op => do
    let c ← collectionAt frame source
    onCollection cb frame c op

/-- What a script ends with when one part of it comes before another. -/
def Outcome.andThen (first second : Outcome) : Outcome :=
  ⟨second.returned, first.prevented || second.prevented⟩

mutual

/-- Carries out one action of a script. -/
def runAction (cb : Callbacks) (frame : Frame) : Action → Run Outcome
  | .log text => do
    note fun w => .note text (w.labelOf frame.self) (w.shown frame.payload)
      (frame.node.bind w.tagOf)
    return {}
  | .give value => do return { returned := some (← evaluate (some frame) value) }
  | .fail e => fail e
  | .branch left right yes no => do
    let a ← evaluate (some frame) left
    let b ← evaluate (some frame) right
    if a.same b then runScript cb frame yes else runScript cb frame no
  | .callSuper => do
    note fun _ => .superCall (!frame.chain.isEmpty)
    runConstructors cb frame.self frame.chain
    return {}
  | .prevent => return { prevented := true }
  | .emit name data => do
    cb.dispatch frame.self name (← evaluate (some frame) data)
    return {}
  | .command c => do
    let _ ← perform cb (some frame) c
    return {}

/-- Runs the actions of a script until one returns a value. -/
def runScript (cb : Callbacks) (frame : Frame) : List Action → Run Outcome
  | [] => pure {}
  | a :: rest => do
    let o ← keeping Outcome.held (runAction cb frame a)
    match o.returned with
    | some _ => return o
    | none => return Outcome.andThen o (← runScript cb frame rest)

end

/-- A script without actions returns nothing. -/
theorem runScript_nil (cb : Callbacks) (frame : Frame) : runScript cb frame [] = pure {} := by
  simp [runScript]

end Run

/-- Callbacks for calls that are nested at most so deeply. -/
def Callbacks.ofDepth : Nat → Callbacks
  | 0 => Callbacks.exhausted
  | depth + 1 =>
    let inner := ofDepth depth
    { construct := Run.constructInstance inner
      script := Run.runScript inner
      dispatch := Run.dispatchEvent inner }

/-- At depth zero nothing can be called. -/
theorem Callbacks.ofDepth_zero : Callbacks.ofDepth 0 = Callbacks.exhausted := rfl

end ReactiveView
