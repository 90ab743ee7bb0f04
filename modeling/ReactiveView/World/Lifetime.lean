import ReactiveView.World.Basic

/-!
# What stays alive

Nothing is thrown away by hand: an instance, a collection or a node goes out of use when nothing holds
it any more. An instance is held by code in progress, by a label, by the slot or the collection of an
instance in use, or by the object table of a namespace in use. A collection is held by code in
progress, by a label, or by its owner while that is in use. A node is held by code in progress, by a
view or a collection in use, by the sink of an attachment, by the documents of a namespace in use, or by
the node in use that lists it.

An instance that goes out of use sets its children free, which includes taking their roots out of its
view; only then does its view go out of use. A node that goes out of use leaves all nodes
below it without children. `World.settle` takes out of use whatever nothing holds.

`Run.keeping` runs code that keeps things alive only as long as it runs, apart from what its result refers
to; `Run.pins_keeping` says that it leaves the pins of the surrounding code in place.
-/

set_option autoImplicit false

namespace ReactiveView

namespace Held

/-- The instance that is held. -/
def inst? : Held → Option InstanceId
  | inst i => some i
  | _ => none

/-- The collection that is held. -/
def coll? : Held → Option CollectionId
  | coll c => some c
  | _ => none

/-- The node that is held. -/
def node? : Held → Option NodeId
  | node n => some n
  | _ => none

/-- The namespace that is held. -/
def space? : Held → Option NamespaceId
  | space n => some n
  | _ => none

/-- What a value refers to. -/
def ofValue (v : Value) : List Held := v.instances.map inst ++ v.collections.map coll

end Held

/-- The nodes that a sink holds. -/
def Sink.nodes (s : Sink) : List NodeId := [s.node]

/-- The text nodes among places. -/
def NodeSet.textNodes (places : NodeSet) : List NodeId :=
  places.filterMap fun p =>
    match p with
    | .text n => some n
    | .attr _ => none

/-- The nodes that a site holds. -/
def Site.nodesHeld : Site → List NodeId
  | .nodes places => NodeSet.textNodes places
  | .slot anchor sink => anchor :: sink.nodes
  | .sequence _ => []

/-- The nodes that a view holds. -/
def View.nodesHeld (v : View) : List NodeId :=
  v.root :: v.sites.flatMap Site.nodesHeld ++ v.attributeNodes.flatMap NodeSet.textNodes
    ++ v.exposed.map (·.2) ++ v.handlerSites.map (·.node)

/-- The nodes that an instance holds. -/
def Instance.nodesHeld (x : Instance) : List NodeId :=
  (match x.view with
  | some v => v.nodesHeld
  | none => []) ++
  match x.attachment with
  | some a => a.sink.nodes
  | none => []

/-- The nodes that a collection holds. -/
def Collection.nodesHeld (x : Collection) : List NodeId := x.anchor :: x.sink.nodes

namespace World

/-- The instances in use. -/
def liveInstances (w : World) : List Instance := w.instances.toList.filter (·.alive)

/-- The collections in use. -/
def liveCollections (w : World) : List Collection := w.collections.toList.filter (·.alive)

/-- The namespaces in use. -/
def liveSpaces (w : World) : List Namespace := w.spaces.toList.filter (·.alive)

/-- The instances that something holds. -/
def heldInstances (w : World) : List InstanceId :=
  w.pins.filterMap Held.inst? ++ w.registry.instances.map (·.2)
    ++ w.liveInstances.flatMap (fun x => x.values.filterMap Value.inst?)
    ++ w.liveCollections.flatMap (·.items)
    ++ w.liveSpaces.flatMap (fun ns => ns.objects.map (·.2))

/-- Whether something holds a collection. -/
def holdsCollection (w : World) (c : CollectionId) (x : Collection) : Bool :=
  w.isAlive x.owner || w.pins.contains (.coll c) || (w.registry.collections.map (·.2)).contains c

/-- Whether something holds a namespace. -/
def holdsSpace (w : World) (n : NamespaceId) : Bool :=
  w.pins.contains (.space n) || (w.registry.namespaces.map (·.2)).contains n

/-- The nodes that something other than a node holds. -/
def heldNodes (w : World) : List NodeId :=
  w.pins.filterMap Held.node? ++ w.liveInstances.flatMap Instance.nodesHeld
    ++ w.liveCollections.flatMap Collection.nodesHeld ++ w.liveSpaces.flatMap (·.documents)

/-! ## Setting children free -/

/-- Takes the root of an instance out of its place. -/
def unlinkRoot (w : World) (i : InstanceId) : World :=
  match w.rootOf? i with
  | some root => w.mapForest fun f => f.unlink root
  | none => w

/-- Sets an instance free if a place that passes a test holds it. -/
def freeIf (w : World) (test : Place → Bool) (i : InstanceId) : World :=
  match w.attachment? i with
  | some a =>
    if test a.place then
      (w.modifyInstance i fun x => { x with attachment := none }).unlinkRoot i
    else w
  | none => w

/-- Sets the items of a collection free and leaves it empty. -/
def freeItems (w : World) (c : CollectionId) : World :=
  (w.itemsOf c).foldl (fun w i => w.freeIf (fun p => p == .sequence c) i)
    (w.modifyCollection c fun x => { x with items := [] })

/-- Whether a place is a slot of an instance. -/
def isSlotOf (i : InstanceId) : Place → Bool
  | .slot owner _ => owner == i
  | .sequence _ => false

/-- Sets a child free that stands in a property of an instance. -/
def freeChild (i : InstanceId) (w : World) : Value → World
  | .inst child => w.freeIf (isSlotOf i) child
  | .coll c => w.freeItems c
  | _ => w

/-! ## Going out of use -/

/-- Takes an instance out of use and sets its children free. -/
def dropInstance (w : World) (i : InstanceId) : World :=
  match w.inst? i with
  | some x => x.values.foldl (freeChild i) (w.modifyInstance i fun x => { x with alive := false })
  | none => w

/-- Takes a collection out of use and sets its items free. -/
def dropCollection (w : World) (c : CollectionId) : World :=
  (w.modifyCollection c fun x => { x with alive := false }).freeItems c

/-- The namespaces in use that nothing holds. -/
def idleSpaces (w : World) : List NamespaceId :=
  ((List.range w.spaces.size).map NamespaceId.mk).filter fun n =>
    match w.space? n with
    | some ns => ns.alive && !w.holdsSpace n
    | none => false

/-- The instances in use that nothing holds. -/
def idleInstances (w : World) : List InstanceId :=
  let held := w.heldInstances
  ((List.range w.instances.size).map InstanceId.mk).filter fun i =>
    w.isAlive i && !held.contains i

/-- The collections in use that nothing holds. -/
def idleCollections (w : World) : List CollectionId :=
  ((List.range w.collections.size).map CollectionId.mk).filter fun c =>
    match w.coll? c with
    | some x => x.alive && !w.holdsCollection c x
    | none => false

/-- Takes instances and collections out of use until all that are in use are held. -/
def dropIdle (w : World) : Nat → World
  | 0 => w
  | fuel + 1 =>
    match w.idleInstances, w.idleCollections with
    | [], [] => w
    | is, cs => (cs.foldl dropCollection (is.foldl dropInstance w)).dropIdle fuel

/-- Takes out of use what nothing holds: namespaces, then instances and collections, then nodes. -/
def settle (w : World) : World :=
  let w := w.idleSpaces.foldl
    (fun w n => w.modifySpace n fun ns => { ns with alive := false }) w
  let w := w.dropIdle (w.instances.size + w.collections.size + 1)
  let held := w.heldNodes
  w.mapForest fun f => f.sweep held.contains (f.size + 1)

end World

namespace Run

/-- Keeps alive what a value refers to as long as the code in progress runs. -/
def pinValue (v : Value) : Run Unit :=
  update fun w => { w with pins := Held.ofValue v ++ w.pins }

/-- No longer keeps something alive, and takes out of use what is then held by nothing. -/
def unpin (h : Held) : Run Unit := update fun w => { w with pins := w.pins.erase h }.settle

/-- What stays pinned after code that ended in a certain way. -/
def keptBy {α : Type} (keep : α → List Held) : Except Halt α → List Held
  | .ok a => keep a
  | .error _ => []

/-- Runs code; what it has kept alive is let go when it ends, apart from what its result keeps. -/
def keeping {α : Type} (keep : α → List Held) (body : Run α) : Run α := fun w =>
  let out := body w
  (out.1, { out.2 with pins := keptBy keep out.1 ++ w.pins }.settle)

/-- A body that keeps nothing alive. -/
def inScope {α : Type} (body : Run α) : Run α := keeping (fun _ => []) body

end Run

/-! ## Laws -/

namespace World

/-- Steps that leave the pins alone do so one after the other. -/
theorem pins_foldl {α : Type} (f : World → α → World) (h : ∀ w a, (f w a).pins = w.pins)
    (as : List α) (w : World) : (as.foldl f w).pins = w.pins := by
  induction as generalizing w with
  | nil => rfl
  | cons a as ih => exact (ih (f w a)).trans (h w a)

/-- Setting an instance free leaves the pins alone. -/
theorem pins_freeIf (w : World) (test : Place → Bool) (i : InstanceId) :
    (w.freeIf test i).pins = w.pins := by
  unfold freeIf unlinkRoot
  split
  · split
    · split <;> rfl
    · rfl
  · rfl

/-- Setting the items of a collection free leaves the pins alone. -/
theorem pins_freeItems (w : World) (c : CollectionId) : (w.freeItems c).pins = w.pins := by
  unfold freeItems
  rw [pins_foldl _ (fun w i => pins_freeIf w _ i)]
  rfl

/-- Setting a child free leaves the pins alone. -/
theorem pins_freeChild (i : InstanceId) (w : World) (v : Value) :
    (freeChild i w v).pins = w.pins := by
  cases v <;> simp [freeChild, pins_freeIf, pins_freeItems]

/-- Taking an instance out of use leaves the pins alone. -/
theorem pins_dropInstance (w : World) (i : InstanceId) : (w.dropInstance i).pins = w.pins := by
  unfold dropInstance
  split
  · rw [pins_foldl _ (pins_freeChild i)]
    rfl
  · rfl

/-- Taking a collection out of use leaves the pins alone. -/
theorem pins_dropCollection (w : World) (c : CollectionId) : (w.dropCollection c).pins = w.pins := by
  unfold dropCollection
  rw [pins_freeItems]
  rfl

/-- Taking instances and collections out of use leaves the pins alone. -/
theorem pins_dropIdle (fuel : Nat) (w : World) : (w.dropIdle fuel).pins = w.pins := by
  induction fuel generalizing w with
  | zero => rfl
  | succ fuel ih =>
    unfold dropIdle
    split
    · rfl
    · rw [ih, pins_foldl _ pins_dropCollection, pins_foldl _ pins_dropInstance]

/-- Taking what is idle out of use leaves the pins alone. -/
theorem pins_settle (w : World) : w.settle.pins = w.pins := by
  unfold settle mapForest mapScreen
  dsimp only
  rw [pins_dropIdle, pins_foldl]
  intro w n
  rfl

end World

/-- Code in a scope leaves the pins of the surrounding code, and adds what its result keeps. -/
theorem Run.pins_keeping {α : Type} (keep : α → List Held) (body : Run α) (w : World) :
    (Run.keeping keep body w).2.pins = Run.keptBy keep (Run.keeping keep body w).1 ++ w.pins := by
  unfold Run.keeping
  rw [World.pins_settle]

end ReactiveView
