import ReactiveView.World.Write

/-!
# Children

An instance stands in at most one place: a slot of another instance or a collection. Attaching puts its
root behind an anchor and records the place; releasing takes the root out and clears the record. An
instance cannot be attached inside its own view.

What is written to a slot or put into a collection is *coerced*: an instance must be of the element
class, and a plain object makes a new instance of it.

Every edit of a collection is a *splice*: a stretch of items is replaced by new ones. All new items are
coerced and checked before anything changes; then the replaced items are released and the new ones
attached in order, each behind the root before it.

`length_spliced` and `getElem?_spliced_of_lt` describe the edit on the list of items.
-/

set_option autoImplicit false

namespace ReactiveView

/-- A list with `removed` items from position `start` on replaced by others. -/
def spliced {α : Type} (items : List α) (start removed : Nat) (inserted : List α) : List α :=
  items.take start ++ inserted ++ items.drop (start + removed)

/-- The number of items after a splice within the list. -/
theorem length_spliced {α : Type} (items : List α) (start removed : Nat) (inserted : List α)
    (h : start + removed ≤ items.length) :
    (spliced items start removed inserted).length
      = items.length - removed + inserted.length := by
  simp [spliced]
  omega

/-- A splice leaves the items before it. -/
theorem getElem?_spliced_of_lt {α : Type} (items : List α) (start removed : Nat)
    (inserted : List α) (i : Nat) (hi : i < start) (h : start ≤ items.length) :
    (spliced items start removed inserted)[i]? = items[i]? := by
  have hl : i < (items.take start).length := by simp; omega
  rw [spliced, List.append_assoc, List.getElem?_append_left hl, List.getElem?_take]
  simp [hi]

namespace World

/-- Records the place that holds an instance. -/
def setAttachment (w : World) (i : InstanceId) (a : Option Attachment) : World :=
  w.modifyInstance i fun x => { x with attachment := a }

/-- Whether an instance is held by a place. -/
def isAttached (w : World) (i : InstanceId) : Bool := (w.attachment? i).isSome

/-- Replaces the items of a collection. -/
def setItems (w : World) (c : CollectionId) (items : List InstanceId) : World :=
  w.modifyCollection c fun x => { x with items := items }

end World

namespace Run

/-! ## Attaching and releasing -/

/-- Fails if an instance stands above a node. -/
def checkOutside (i : InstanceId) (node : NodeId) : Run Unit := do
  let root ← theRoot i
  if (← get).forest.isInclusiveAncestor root node then
    fail (.insideItself ((← get).className i))

/-- Puts the root of an instance behind a node and records the place. -/
def attachAfter (i : InstanceId) (anchor : NodeId) (a : Attachment) : Run Unit := do
  if (← get).isAttached i then fail (.inUse ((← get).className i))
  checkOutside i anchor
  let root ← theRoot i
  edit fun f => f.insertAfter anchor root
  update fun w => w.setAttachment i (some a)

/-- Takes the root of an instance out of its place and clears the record. -/
def release (i : InstanceId) : Run Unit := do
  if !(← get).isAttached i then fail (.releasedFree ((← get).className i))
  update fun w => w.setAttachment i none
  let root ← theRoot i
  update fun w => w.mapForest fun f => f.unlink root

/-! ## Coercion -/

/-- The instance that a value written to an element stands for. -/
def coerce (cb : Callbacks) (element : ElementType) (v : Value) : Run InstanceId := do
  match v with
  | .inst i =>
    if (← get).accepts element i then return i
    else fail (.wrongClass element.name ((← get).className i))
  | .object _ =>
    match element with
    | .ofClass ref => cb.construct ref.id (some v)
    | .any => fail .objectForAnyElement
  | other => fail (.notElement other.shapeName)

/-- The instances that values stand for. -/
def coerceAll (cb : Callbacks) (element : ElementType) : List Value → Run (List InstanceId)
  | [] => pure []
  | v :: vs => do
    let i ← coerce cb element v
    return i :: (← coerceAll cb element vs)

/-! ## Collections -/

/-- Checks that instances can be put into a collection from which others are removed. -/
def checkInserted (anchor : NodeId) (removed before : List InstanceId) :
    List InstanceId → Run Unit
  | [] => pure ()
  | i :: rest => do
    if before.contains i then fail (.appearsTwice ((← get).className i))
    if (← get).isAttached i && !removed.contains i then fail (.inUse ((← get).className i))
    checkOutside i anchor
    checkInserted anchor removed (before ++ [i]) rest

/-- Attaches instances one behind the other. -/
def attachInOrder (a : Attachment) (previous : NodeId) : List InstanceId → Run Unit
  | [] => pure ()
  | i :: rest => do
    attachAfter i previous a
    attachInOrder a (← theRoot i) rest

/-- The node behind which the item at a position goes. -/
def nodeBefore (anchor : NodeId) (items : List InstanceId) : Nat → Run NodeId
  | 0 => pure anchor
  | n + 1 => do theRoot (← ofOption items[n]?)

/-- Replaces `count` items from `start` on by new ones, both clamped; gives the replaced items. -/
def splice (cb : Callbacks) (c : CollectionId) (start count : Nat) (values : List Value) :
    Run (List InstanceId) :=
  keeping (fun removed => removed.map Held.inst) do
    let size := ((← get).itemsOf c).length
    let start := min start size
    let count := min count (size - start)
    let coll ← theCollection c
    let inserted ← coerceAll cb coll.element values
    let items ← ask fun w => w.itemsOf c
    let removed := (items.drop start).take count
    checkInserted coll.anchor removed [] inserted
    removed.forM release
    let items := spliced items start count inserted
    update fun w => w.setItems c items
    attachInOrder ⟨.sequence c, coll.sink⟩ (← nodeBefore coll.anchor items start) inserted
    return removed

/-- The number of items of a collection. -/
def sizeOf (c : CollectionId) : Run Nat := ask fun w => (w.itemsOf c).length

/-- Replaces all items; gives the old ones. -/
def replaceAll (cb : Callbacks) (c : CollectionId) (values : List Value) :
    Run (List InstanceId) := do
  splice cb c 0 (← sizeOf c) values

/-- Adds an item at the end; gives the new size. -/
def push (cb : Callbacks) (c : CollectionId) (v : Value) : Run Nat := do
  let _ ← splice cb c (← sizeOf c) 0 [v]
  sizeOf c

/-- Adds an item at the front; gives the new size. -/
def unshift (cb : Callbacks) (c : CollectionId) (v : Value) : Run Nat := do
  let _ ← splice cb c 0 0 [v]
  sizeOf c

/-- Takes the last item out. -/
def pop (cb : Callbacks) (c : CollectionId) : Run (Option InstanceId) := do
  match ← sizeOf c with
  | 0 => return none
  | n + 1 => return (← splice cb c n 1 []).getLast?

/-- Takes the first item out. -/
def shift (cb : Callbacks) (c : CollectionId) : Run (Option InstanceId) := do
  match ← sizeOf c with
  | 0 => return none
  | _ => return (← splice cb c 0 1 []).getLast?

/-- Puts an item at a position of a collection or at its end. -/
def insertItem (cb : Callbacks) (c : CollectionId) (position : Nat) (v : Value) : Run Unit := do
  let size ← sizeOf c
  if size < position then fail (.insertRange position size)
  let _ ← splice cb c position 0 [v]

/-- Takes the item at a position out. -/
def removeItem (cb : Callbacks) (c : CollectionId) (position : Nat) : Run InstanceId := do
  let size ← sizeOf c
  if size ≤ position then fail (.removeRange position size)
  match (← splice cb c position 1 []).getLast? with
  | some i => return i
  | none => fail .nothingRemoved

/-- Takes the item at one position out and puts it back at another. -/
def moveItem (cb : Callbacks) (c : CollectionId) (source target : Nat) : Run Unit := do
  let size ← sizeOf c
  if size ≤ source ∨ size ≤ target then fail (.moveRange source target size)
  if source ≠ target then
    let i ← removeItem cb c source
    let _ ← splice cb c target 0 [.inst i]

/-! ## Writing properties -/

/-- The child that a value written to a slot stands for; null stands for none. -/
def slotChild (cb : Callbacks) (element : ElementType) (v : Value) : Run (Option InstanceId) :=
  match v with
  | .null => pure none
  | v => some <$> coerce cb element v

/-- Puts a child into a slot, or none: the new child is attached before the old one is released. -/
def replaceChild (i : InstanceId) (n : Nat) (name : String) (child : Option InstanceId) :
    Run Unit := do
  let current := (← ofOption (← theInstance i).values[n]?).inst?
  if child.isSome && child == current then pure ()
  else
    match (← theView i).sites[n]? with
    | some (.slot anchor sink) =>
      child.forM fun child => attachAfter child anchor ⟨.slot i name, sink⟩
      current.forM release
      update fun w => w.storeValue i n ((child.map Value.inst).getD .null)
    | _ => fail (.notSlot name)

/-- Writes a slot. -/
def setSlot (cb : Callbacks) (i : InstanceId) (n : Nat) (name : String) (element : ElementType)
    (v : Value) : Run Unit :=
  inScope do
    let child ← slotChild cb element v
    replaceChild i n name child

/-- Writes an array property: its collection gets the items of an array or of another collection. -/
def setSequence (cb : Callbacks) (i : InstanceId) (n : Nat) (v : Value) : Run Unit :=
  inScope do
    match (← theView i).sites[n]? with
    | some (.sequence c) =>
      match v with
      | .array items => let _ ← replaceAll cb c items
      | .coll other =>
        if other ≠ c then
          let items ← ask fun w => w.itemsOf other
          let _ ← replaceAll cb c (items.map Value.inst)
      | other => fail (.notArray other.shapeName)
    | _ => fail .arrayWithoutCollection

/-- Writes a property. -/
def setProperty (cb : Callbacks) (i : InstanceId) (name : String) (v : Value) : Run Unit := do
  let n ← propertyIndex i name
  let c ← theClassOf i
  let p ← ofOption c.descriptor.properties[n]?
  match p.kind with
  | .primitive types => setPrimitive cb i n name types v
  | .slot element => setSlot cb i n name element v
  | .sequence _ => setSequence cb i n v

/-- Fails if an entry names a property that does not exist. -/
def checkKnown (i : InstanceId) (fields : List (String × Value)) : Run Unit :=
  fields.forM fun e => do
    let _ ← propertyIndex i e.1

/-- Writes several properties from a plain object, if all of them exist. -/
def assign (cb : Callbacks) (i : InstanceId) (v : Value) : Run Unit := do
  match v with
  | .object fields =>
    checkKnown i fields
    fields.forM fun e => setProperty cb i e.1 e.2
  | other => fail (.assignFrom other.shapeName)

/-! ## Coming and going -/

/-- Sets free what stands in a property, whatever goes wrong. -/
def releaseChild (cb : Callbacks) (i : InstanceId) (n : Nat) (v : Value) : Run Unit := do
  match v with
  | .inst child =>
    tolerate (release child)
    update fun w => w.storeValue i n .null
  | .coll c => tolerate do
      let _ ← replaceAll cb c []
  | _ => pure ()

/-- Sets all children of an instance free. -/
def releaseChildren (cb : Callbacks) (i : InstanceId) : Run Unit := do
  let values := (← theInstance i).values
  values.zipIdx.forM fun e => releaseChild cb i e.2 e.1

/-- Takes an instance out of the place that holds it. -/
def detach (cb : Callbacks) (i : InstanceId) : Run Unit :=
  inScope do
    match (← get).attachment? i with
    | none => fail (.notInUse ((← get).className i))
    | some a =>
      match a.place with
      | .sequence c =>
        if !(← get).isAliveColl c then fail .collectionGone
        pin (.coll c)
        match ((← get).itemsOf c).idxOf? i with
        | none => fail .notInCollection
        | some n => let _ ← splice cb c n 1 []
      | .slot owner property =>
        if !(← get).isAlive owner then fail .ownerGone
        pin (.inst owner)
        setProperty cb owner property .null

/-- Puts an instance into a slot, or at the end of an array property, of another instance. -/
def attach (cb : Callbacks) (i parent : InstanceId) (name : String) : Run Unit := do
  let n ← propertyIndex parent name
  let c ← theClassOf parent
  let p ← ofOption c.descriptor.properties[n]?
  match p.kind with
  | .slot _ =>
    if (← get).isAttached i then fail (.inUse ((← get).className i))
    setProperty cb parent name (.inst i)
  | .sequence _ =>
    match (← getProperty parent name).coll? with
    | some coll => let _ ← push cb coll (.inst i)
    | none => fail .noCollectionHeld
  | .primitive _ => fail (.notElementProperty name)

end Run

end ReactiveView
