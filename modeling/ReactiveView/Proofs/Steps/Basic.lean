import ReactiveView.Proofs.Ownership.Create
import ReactiveView.Proofs.Template.Chain
import ReactiveView.Proofs.Upkeep

/-!
# Elementary changes of a world

Whatever an operation does to a world, it does in elementary changes (`World.Step`): records that do not
show are changed, nodes are moved, a root takes over an attribute of the marker that it stands for, a class, a
namespace or an instance is added, a collection gets its items, a child is stored in a slot, a primitive value
or an attribute is rendered and stored, a queue is flushed. Each change that brings something into an instance or a
collection carries what has been checked of it: that a value is admissible, or that an element type accepts an
instance. A change that moves nodes puts none somewhere but roots of instances and new nodes.

A change never takes anything away: classes, instances and collections that are there stay, with the same
class, view, element type, owner and marker (`World.Grows`, `World.Step.grows`). So what an element type
accepts it accepts for good (`World.Grows.accepts`).
-/

set_option autoImplicit false

namespace ReactiveView

/-- Every primitive property and every attribute of an instance of a class holds an admissible value. -/
structure Instance.Typed (x : Instance) (c : Class) : Prop where
  values : ∀ (n : Nat) p types v, c.descriptor.properties[n]? = some p → p.kind = .primitive types →
    x.values[n]? = some v → Admissible types v
  attrs : ∀ (n : Nat) a v, c.descriptor.attributes[n]? = some a → x.attrValues[n]? = some v →
    Admissible a.types v

namespace World

variable {w w' w'' : World}

/-! ## Worlds that grow -/

/-- Classes, instances and collections that are there stay, with what is settled when they are made. -/
structure Grows (w w' : World) : Prop where
  cls : ∀ id c, w.class? id = some c → w'.class? id = some c
  inst : ∀ i x, w.inst? i = some x → ∃ x', w'.inst? i = some x' ∧ x'.classId = x.classId ∧
    x'.view = x.view
  coll : ∀ k y, w.coll? k = some y → ∃ y', w'.coll? k = some y' ∧ y'.element = y.element ∧
    y'.owner = y.owner ∧ y'.property = y.property ∧ y'.anchor = y.anchor ∧ y'.sink = y.sink

namespace Grows

theorem rfl : w.Grows w where
  cls _ _ h := h
  inst _ x h := ⟨x, h, .refl _, .refl _⟩
  coll _ y h := ⟨y, h, .refl _, .refl _, .refl _, .refl _, .refl _⟩

theorem trans (h : w.Grows w') (h' : w'.Grows w'') : w.Grows w'' where
  cls id c hc := h'.cls id c (h.cls id c hc)
  inst i x hx := by
    obtain ⟨x', hx', hid, hview⟩ := h.inst i x hx
    obtain ⟨x'', hx'', hid', hview'⟩ := h'.inst i x' hx'
    exact ⟨x'', hx'', hid'.trans hid, hview'.trans hview⟩
  coll k y hy := by
    obtain ⟨y', hy', he, ho, hp, ha, hs⟩ := h.coll k y hy
    obtain ⟨y'', hy'', he', ho', hp', ha', hs'⟩ := h'.coll k y' hy'
    exact ⟨y'', hy'', he'.trans he, ho'.trans ho, hp'.trans hp, ha'.trans ha, hs'.trans hs⟩

theorem of_same (hc : w'.classes = w.classes) (hi : w'.instances = w.instances)
    (hk : w'.collections = w.collections) : w.Grows w' where
  cls id c h := by
    unfold World.class?
    rw [hc]
    exact h
  inst i x h := ⟨x, by unfold World.inst?; rw [hi]; exact h, .refl _, .refl _⟩
  coll k y h := ⟨y, by unfold World.coll?; rw [hk]; exact h, .refl _, .refl _, .refl _, .refl _, .refl _⟩

theorem modifyInstance (w : World) (i : InstanceId) (f : Instance → Instance)
    (hf : ∀ x, (f x).classId = x.classId ∧ (f x).view = x.view) : w.Grows (w.modifyInstance i f) where
  cls _ _ h := h
  inst j x hx := by
    by_cases hij : i = j
    · subst hij
      exact ⟨f x, by rw [inst?_modifyInstance_self, hx]; exact .refl _, hf x⟩
    · exact ⟨x, by rw [inst?_modifyInstance_of_ne _ _ hij]; exact hx, .refl _, .refl _⟩
  coll _ y h := ⟨y, h, .refl _, .refl _, .refl _, .refl _, .refl _⟩

variable (h : w.Grows w')

include h

theorem isA {c other : ClassId} {x : Class} (hc : w.class? c = some x) :
    w'.isA c other = w.isA c other := by
  unfold World.isA
  rw [hc, h.cls c x hc]

/-- What is accepted is accepted for good. -/
theorem accepts {element : ElementType} {i : InstanceId} (hi : w.accepts element i = true) :
    w'.accepts element i = true := by
  unfold World.accepts at hi ⊢
  cases element with
  | any => exact .refl _
  | ofClass ref =>
    dsimp only at hi ⊢
    cases hx : w.inst? i with
    | none =>
      rw [hx] at hi
      cases hi
    | some x =>
      rw [hx] at hi
      obtain ⟨x', hx', hid, -⟩ := h.inst i x hx
      rw [hx']
      dsimp only at hi ⊢
      rw [hid]
      unfold World.isA at hi ⊢
      rw [Bool.or_eq_true] at hi ⊢
      refine hi.imp_right fun hanc => ?_
      cases hc : w.class? x.classId with
      | none =>
        rw [hc] at hanc
        cases hanc
      | some c =>
        rw [hc] at hanc
        rw [h.cls _ c hc]
        exact hanc

end Grows

/-! ## Elementary changes -/

/-- The world after the text of a primitive property has been rendered at its site. -/
def rendered (w : World) (c : Class) (site : Option Site) (source : Source) (text : String) : World :=
  match site with
  | some (.nodes places) => w.renderIn c places source text
  | _ => w

/-- One elementary change. -/
inductive Step (w : World) : World → Prop where
  /-- Pins, labels or the log. -/
  | quiet {w' : World} (screen : w'.screen = w.screen) (classes : w'.classes = w.classes)
      (instances : w'.instances = w.instances) (collections : w'.collections = w.collections)
      (spaces : w'.spaces = w.spaces) : Step w w'
  /-- Nodes are moved. -/
  | moves (f : Forest) (hf : w.forest.Moves f) (hputs : w.PutsRoots f) : Step w (w.mapForest fun _ => f)
  /-- The root of an instance takes over an attribute of a marker. -/
  | mark {i : InstanceId} {r m : NodeId} (hr : w.rootOf? i = some r)
      (hm : (w.forest.attr? m Template.markerAttr).isSome = true) (a : Attr)
      (ha : (w.forest.attr? m a.name.tag).isSome = true) :
      Step w (w.mapForest fun f => f.setAttr r a.name a.value)
  /-- A namespace is changed. -/
  | space (n : NamespaceId) (f : Namespace → Namespace) (hf : ∀ ns, (f ns).queue = ns.queue) :
      Step w (w.modifySpace n f)
  /-- A namespace is added with a queue of its own. -/
  | addSpace (delay : Nat) (ns : Namespace) (hq : ns.queue = (w.screen.addQueue delay).1) :
      Step w ({ w with screen := (w.screen.addQueue delay).2 }.pushSpace ns).2
  /-- A class is added to a namespace. -/
  | addClass (c : Class) (hc : Compiled w.classes → Compiled (w.classes.push c))
      (hq : ∃ n ns, w.space? n = some ns ∧ c.queue = ns.queue) : Step w (w.pushClass c).2
  /-- The attachment or the listeners of an instance, or whether it is in use. -/
  | record (i : InstanceId) (f : Instance → Instance)
      (hf : ∀ x, (f x).classId = x.classId ∧ (f x).view = x.view ∧ (f x).values = x.values ∧
        (f x).attrValues = x.attrValues ∧ (f x).built = x.built) : Step w (w.modifyInstance i f)
  /-- The construction of an instance has ended well; all its attributes stand on its root. -/
  | finish (i : InstanceId)
      (h : ∀ x c, w.inst? i = some x → w.class? x.classId = some c → x.Typed c)
      (hroot : ∀ x c view, w.inst? i = some x → w.class? x.classId = some c → x.view = some view →
        ∀ a ∈ c.descriptor.attributes, (w.forest.attr? view.root (dataName a.name).tag).isSome = true) :
      Step w (w.modifyInstance i fun x => { x with built := true })
  /-- The items of a collection, or whether it is in use. -/
  | contents (k : CollectionId) (f : Collection → Collection)
      (hf : ∀ y, (f y).element = y.element ∧ (f y).owner = y.owner ∧ (f y).property = y.property ∧
        (f y).anchor = y.anchor ∧ (f y).sink = y.sink)
      (hitems : ∀ y, w.coll? k = some y → ∀ j ∈ (f y).items, w.accepts y.element j = true) :
      Step w (w.modifyCollection k f)
  /-- An instance of a class is made. -/
  | create {id : ClassId} {c : Class} {i : InstanceId} {w' : World} (hc : w.class? id = some c)
      (h : w.createInstance id c.descriptor = .ok (i, w')) : Step w w'
  /-- A primitive property is rendered and stored. -/
  | write {i : InstanceId} {x : Instance} {c : Class} {view : View} {n : Nat} {p : PropertyDescriptor}
      {types : Option (List PrimitiveType)} {v : Value} (hx : w.inst? i = some x)
      (hc : w.class? x.classId = some c) (hview : x.view = some view)
      (hp : c.descriptor.properties[n]? = some p) (hkind : p.kind = .primitive types)
      (hv : Admissible types v) :
      Step w ((w.rendered c view.sites[n]? (.property p.name) v.outputText).storeValue i n v)
  /-- A child is stored in a slot, or none. -/
  | slot {i : InstanceId} {x : Instance} {c : Class} {n : Nat} {p : PropertyDescriptor}
      {element : ElementType} {v : Value} (hx : w.inst? i = some x) (hc : w.class? x.classId = some c)
      (hp : c.descriptor.properties[n]? = some p) (hkind : p.kind = .slot element)
      (hv : v = .null ∨ ∃ j, v = .inst j ∧ w.accepts element j = true) : Step w (w.storeValue i n v)
  /-- An attribute is rendered and stored. -/
  | attr {i : InstanceId} {x : Instance} {c : Class} {view : View} {n : Nat} {a : AttributeDescriptor}
      {v : Value} (hx : w.inst? i = some x) (hc : w.class? x.classId = some c)
      (hview : x.view = some view) (ha : c.descriptor.attributes[n]? = some a)
      (hv : Admissible a.types v) :
      Step w (((w.renderIn c (view.attributeNodes[n]?.getD []) (.attr a.name) v.outputText).mapForest
        fun f => f.setAttr view.root (dataName a.name) v.outputText).storeAttr i n v)
  /-- What waits in a queue is written. -/
  | flush (q : QueueId) : Step w { w with screen := (w.screen.flush q).2 }

/-- A new instance comes with its view and its collections; everything else is as before. -/
theorem grows_createInstance {id : ClassId} {c : Class} {i : InstanceId}
    (h : w.createInstance id c.descriptor = .ok (i, w')) : w.Grows w' := by
  obtain ⟨-, view, b, b', hjoins⟩ := createInstance_joins h
  refine ⟨fun id c hc => ?_, fun j x hx => ?_, fun k y hy => ?_⟩
  · unfold class?
    rw [hjoins.classes]
    exact hc
  · have hne : j ≠ i := by
      rintro rfl
      rw [hjoins.fresh] at hx
      cases hx
    exact ⟨x, (hjoins.other j hne).trans hx, rfl, rfl⟩
  · exact ⟨y, (hjoins.old k (index_lt_of_coll? hy)).trans hy, rfl, rfl, rfl, rfl, rfl⟩

/-- Nothing is taken away by a change. -/
theorem Step.grows (h : w.Step w') : w.Grows w' := by
  cases h with
  | quiet screen classes instances collections spaces => exact .of_same classes instances collections
  | moves f hf => exact .of_same rfl rfl rfl
  | mark hr hm a ha => exact .of_same rfl rfl rfl
  | space n f hf => exact .of_same rfl rfl rfl
  | addSpace delay ns hq => exact .of_same rfl rfl rfl
  | addClass c hc hq =>
    refine ⟨fun id d hd => ?_, fun _ x hx => ⟨x, hx, rfl, rfl⟩, fun _ y hy => ⟨y, hy, rfl, rfl, rfl, rfl, rfl⟩⟩
    have hlt : id.index < w.classes.size := (Array.getElem?_eq_some_iff.1 hd).1
    exact (Table.get?_push_of_lt _ _ _ hlt).trans hd
  | record i f hf => exact .modifyInstance w i f fun x => ⟨(hf x).1, (hf x).2.1⟩
  | finish i h hroot => exact .modifyInstance w i _ fun _ => ⟨rfl, rfl⟩
  | contents k f hf hitems =>
    refine ⟨fun _ _ h => h, fun _ x hx => ⟨x, hx, rfl, rfl⟩, fun k' y hy => ?_⟩
    by_cases hk : k = k'
    · subst hk
      exact ⟨f y, by rw [coll?_modifyCollection_self, hy]; rfl, hf y⟩
    · exact ⟨y, by rw [coll?_modifyCollection_of_ne _ _ hk]; exact hy, rfl, rfl, rfl, rfl, rfl⟩
  | create hc h => exact grows_createInstance h
  | @write i x c view n p types v hx hc hview hp hkind hv =>
    have hrender : w.Grows (w.rendered c view.sites[n]? (.property p.name) v.outputText) := by
      unfold rendered
      split
      · exact .of_same rfl rfl rfl
      · exact .rfl
    exact hrender.trans (.modifyInstance _ i _ fun _ => ⟨rfl, rfl⟩)
  | @slot i => exact .modifyInstance w i _ fun _ => ⟨rfl, rfl⟩
  | @attr i x c view n a v hx hc hview ha hv =>
    have hrender : w.Grows ((w.renderIn c (view.attributeNodes[n]?.getD []) (.attr a.name)
        v.outputText).mapForest fun f => f.setAttr view.root (dataName a.name) v.outputText) :=
      .of_same rfl rfl rfl
    exact hrender.trans (.modifyInstance _ i _ fun _ => ⟨rfl, rfl⟩)
  | flush q => exact .of_same rfl rfl rfl

/-- Any number of elementary changes. -/
abbrev Steps : World → World → Prop := Relation.ReflTransGen Step

theorem Steps.grows (h : w.Steps w') : w.Grows w' := by
  induction h with
  | refl => exact .rfl
  | tail _ hstep ih => exact ih.trans hstep.grows

end World

end ReactiveView
