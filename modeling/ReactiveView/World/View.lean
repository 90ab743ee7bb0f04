import ReactiveView.World.Lifetime

/-!
# Live views

The shape of a class is turned into a live tree for one instance, depth first and in document order.
On the way every place where a property or an attribute is rendered is listed, the marker of every
element or array property becomes an anchor, and exposed elements and elements with handlers are
noted. A formatted attribute is written once while its holes are still empty, so that attributes stand
on the element in the order of the shape.

`Building` is the state of this walk; `bindView` runs it and sorts what it finds by property.
`build_extensionPoint` says that an extension point that nothing fills leaves no node.
-/

set_option autoImplicit false

namespace ReactiveView

/-- The state of building a live view. -/
structure Building where
  screen : Screen
  /-- For each property the places where it is rendered. -/
  propertyNodes : List NodeSet
  /-- For each attribute the places where it is rendered. -/
  attributeNodes : List NodeSet
  anchors : Dict String (NodeId × Sink) := []
  exposed : Dict String NodeId := []
  handlerSites : List HandlerSite := []

namespace Building

/-- Lists a place at which a source is rendered. -/
def addPlace (d : Descriptor) (b : Building) (source : Source) (place : BoundNode) :
    Except Error Building :=
  match source with
  | .property name =>
    match d.propertyIndex? name with
    | some i =>
      .ok { b with propertyNodes := b.propertyNodes.modify i fun places => places ++ [place] }
    | none => .error (.undeclaredSource name)
  | .attr name =>
    match d.attributeIndex? name with
    | some i =>
      .ok { b with attributeNodes := b.attributeNodes.modify i fun places => places ++ [place] }
    | none => .error (.undeclaredSource name)

/-- Lists a place at which several sources are rendered. -/
def addPlaces (d : Descriptor) (b : Building) (place : BoundNode) :
    List Source → Except Error Building
  | [] => .ok b
  | s :: rest =>
    match b.addPlace d s place with
    | .error e => .error e
    | .ok b => addPlaces d b place rest

/-- Changes the screen. -/
def mapScreen (b : Building) (f : Screen → Screen) : Building := { b with screen := f b.screen }

/-- Adds a node that stands alone. -/
def create (b : Building) (kind : NodeKind) : NodeId × Building :=
  let (n, forest) := b.screen.forest.create kind
  (n, b.mapScreen fun s => { s with forest := forest })

/-- Makes a node the last child of another. -/
def append (b : Building) (parent n : NodeId) : Building :=
  b.mapScreen fun s => s.mapForest fun f => f.append parent n

/-- Gives an element the attributes of its shape. -/
def addAttributes (d : Descriptor) (n : NodeId) (b : Building) :
    List AttributeShape → Except Error Building
  | [] => .ok b
  | a :: rest =>
    match a.format with
    | none =>
      addAttributes d n (b.mapScreen fun s => s.mapForest fun f => f.setAttr n a.name a.value) rest
    | some format =>
      let (id, screen) := b.screen.addBinding (Binding.ofFormat n a.name format)
      let b := { b with screen := (screen.write id).2 }
      match b.addPlaces d (.attr id) format.sources with
      | .error e => .error e
      | .ok b => addAttributes d n b rest

/-- Notes what an element handles and whether it is exposed. -/
def noteElement (b : Building) (shape : ElementShape) (n : NodeId) : Building :=
  let b :=
    if shape.domHandlers.isEmpty then b
    else { b with handlerSites := b.handlerSites ++ [⟨n, shape.domHandlers⟩] }
  match shape.exposeKey with
  | some key => { b with exposed := b.exposed.insert key n }
  | none => b

mutual

/-- Builds a node; nothing is built for an extension point. The sink is that of the element around. -/
def build (d : Descriptor) (owner : InstanceId) (around : Option Sink) (b : Building) :
    ViewNode → Except Error (Option NodeId × Building)
  | .element shape children =>
    let (n, b) := b.create (.element shape.name [] false)
    match b.addAttributes d n shape.attrs with
    | .error e => .error e
    | .ok b =>
      match buildAll d owner ⟨owner, n, shape.childHandlers⟩ (b.noteElement shape n) children with
      | .error e => .error e
      | .ok b => .ok (some n, b)
  | .text value source =>
    let (n, b) := b.create (.text value)
    match b.addPlaces d (.text n) source.toList with
    | .error e => .error e
    | .ok b => .ok (some n, b)
  | .marker value property =>
    let (n, b) := b.create (.comment value)
    match property, around with
    | some name, some sink => .ok (some n, { b with anchors := b.anchors.insert name (n, sink) })
    | _, _ => .ok (some n, b)
  | .extensionPoint => .ok (none, b)

/-- Builds nodes and makes them the last children of the element that a sink belongs to. -/
def buildAll (d : Descriptor) (owner : InstanceId) (sink : Sink) (b : Building) :
    List ViewNode → Except Error Building
  | [] => .ok b
  | v :: rest =>
    match build d owner (some sink) b v with
    | .error e => .error e
    | .ok (some n, b) => buildAll d owner sink (b.append sink.node n) rest
    | .ok (none, b) => buildAll d owner sink b rest

end

end Building

namespace World

/-- The site of a property, and the world with its collection if it has one. -/
def siteOf (w : World) (owner : InstanceId) (anchors : Dict String (NodeId × Sink))
    (p : PropertyDescriptor) (places : NodeSet) : Except Error (Site × World) :=
  match p.kind with
  | .primitive _ => .ok (.nodes places, w)
  | .slot _ =>
    match anchors.get? p.name with
    | some (anchor, sink) => .ok (.slot anchor sink, w)
    | none => .error (.unboundSlot p.name)
  | .sequence element =>
    match anchors.get? p.name with
    | some (anchor, sink) =>
      let (c, w) := w.pushCollection {
        element := element, anchor := anchor, owner := owner, property := p.name, sink := sink }
      .ok (.sequence c, w)
    | none => .error (.unboundSlot p.name)

/-- The sites of properties in order. -/
def sitesOf (w : World) (owner : InstanceId) (anchors : Dict String (NodeId × Sink)) :
    List PropertyDescriptor → List NodeSet → Except Error (List Site × World)
  | [], _ => .ok ([], w)
  | p :: ps, nodes =>
    match w.siteOf owner anchors p (nodes.head?.getD []) with
    | .error e => .error e
    | .ok (site, w) =>
      match w.sitesOf owner anchors ps nodes.tail with
      | .error e => .error e
      | .ok (sites, w) => .ok (site :: sites, w)

/-- Builds the live view of an instance. -/
def bindView (w : World) (d : Descriptor) (owner : InstanceId) : Except Error (View × World) :=
  match d.view with
  | some (.element shape children) =>
    let start : Building := {
      screen := w.screen
      propertyNodes := d.properties.map fun _ => []
      attributeNodes := d.attributes.map fun _ => [] }
    match start.build d owner none (.element shape children) with
    | .error e => .error e
    | .ok (none, _) => .error (.unboundRoot d.name)
    | .ok (some root, b) =>
      match sitesOf { w with screen := b.screen } owner b.anchors d.properties b.propertyNodes with
      | .error e => .error e
      | .ok (sites, w) =>
        .ok (⟨root, sites, b.attributeNodes, b.exposed, b.handlerSites⟩, w)
  | _ => .error (.unboundRoot d.name)

/-- What a property holds before anything has been written to it. -/
def placeholder : Site → Value
  | .sequence c => .coll c
  | _ => .null

/-- Adds an instance of a class with a live view of its own. -/
def createInstance (w : World) (c : ClassId) (d : Descriptor) :
    Except Error (InstanceId × World) :=
  let (i, w) := w.pushInstance {
    classId := c
    values := d.properties.map fun _ => .null
    attrValues := d.attributes.map fun _ => .null }
  match w.bindView d i with
  | .error e => .error e
  | .ok (view, w) =>
    .ok (i, w.modifyInstance i fun x =>
      { x with view := some view, values := view.sites.map placeholder })

end World

/-- An extension point that nothing fills leaves no node. -/
theorem Building.build_extensionPoint (d : Descriptor) (owner : InstanceId) (around : Option Sink)
    (b : Building) : b.build d owner around .extensionPoint = .ok (none, b) := by
  simp [Building.build]

/-- A class without an outermost element has no live view. -/
theorem World.bindView_of_none (w : World) (d : Descriptor) (owner : InstanceId)
    (h : d.view = none) : w.bindView d owner = .error (.unboundRoot d.name) := by
  simp [World.bindView, h]

end ReactiveView
