import ReactiveView.Proofs.Binding.Plain
import ReactiveView.Proofs.Ownership.Layout

/-!
# Orderly worlds

The layout of a world is read off its views and collections, the occupants of a place off the stored
values and the items (`World.layout`, `World.occupants`). A world is *orderly* when its records fit their
classes, its forest is linked to the recorded attachments and to the occupants, and every handle refers to
an instance in use (`World.Orderly`).

A set of instances is *anchored* when each of them is in use and is held by a handle or by a place of an
instance of the set (`World.Anchored`). What operations do not touch is said of such a set: they *respect*
it when its instances stay in use, with the same occupants and the same views (`World.Respects`). A set
that is anchored stays so as long as it is respected (`World.Respects.anchored`), and respect is transitive.
-/

set_option autoImplicit false

namespace ReactiveView

namespace World

/-! ## What a world says about places -/

/-- The value that an instance stores for a property. -/
def stored? (w : World) (P : InstanceId) (name : String) : Option Value :=
  (w.inst? P).bind fun x => (w.class? x.classId).bind fun c => c.valueIn x.values name

/-- The marker of a slot. -/
def slotMarker? (w : World) (P : InstanceId) (name : String) : Option NodeId :=
  (w.inst? P).bind fun x => (w.class? x.classId).bind fun c =>
    (c.descriptor.propertyIndex? name).bind fun n => x.view.bind fun v =>
      match v.sites[n]? with
      | some (.slot anchor _) => some anchor
      | _ => none

/-- The owner and the marker of a place. -/
def spot? (w : World) : Place → Option (InstanceId × NodeId)
  | .sequence c => (w.coll? c).map fun x => (x.owner, x.anchor)
  | .slot P name => (w.slotMarker? P name).map fun m => (P, m)

/-- The layout of the views and collections of a world. -/
def layout (w : World) : Layout := ⟨w.rootOf?, w.spot?⟩

/-- The place that an instance is recorded to stand in. -/
def placeOf? (w : World) (i : InstanceId) : Option Place := (w.attachment? i).map (·.place)

/-- The instances that stand in a place, as far as its owner is in use. -/
def occupants (w : World) : Place → List InstanceId
  | .sequence c => w.itemsOf c
  | .slot P name => if w.isAlive P then ((w.stored? P name).bind Value.inst?).toList else []

/-- The instances that a host or code in progress keeps hold of. -/
def handles (w : World) : List InstanceId :=
  w.pins.filterMap Held.inst? ++ w.registry.instances.map (·.2)

/-- Two worlds in which the same is kept hold of. -/
structure SameHandles (w w' : World) : Prop where
  pins : w'.pins = w.pins
  registry : w'.registry = w.registry

theorem SameHandles.handles {w w' : World} (h : w.SameHandles w') : w'.handles = w.handles := by
  unfold World.handles
  rw [h.pins, h.registry]

theorem SameHandles.rfl {w : World} : w.SameHandles w := ⟨.refl _, .refl _⟩

theorem SameHandles.trans {w w' w'' : World} (h : w.SameHandles w') (h' : w'.SameHandles w'') :
    w.SameHandles w'' :=
  ⟨h'.pins.trans h.pins, h'.registry.trans h.registry⟩

/-! ## Orderly worlds -/

/-- The site and the value that a property of a kind may have. -/
inductive Fits (w : World) (P : InstanceId) : PropertyKind → Site → Value → Prop where
  | primitive {types : Option (List PrimitiveType)} {places : NodeSet} {v : Value} :
      v.isPrimitive = true → Fits w P (.primitive types) (.nodes places) v
  | empty {element : ElementType} {anchor : NodeId} {sink : Sink} :
      Fits w P (.slot element) (.slot anchor sink) .null
  | child {element : ElementType} {anchor : NodeId} {sink : Sink} {i : InstanceId} :
      Fits w P (.slot element) (.slot anchor sink) (.inst i)
  | sequence {element : ElementType} {c : CollectionId} {x : Collection} :
      w.coll? c = some x → x.owner = P → x.element = element →
        Fits w P (.sequence element) (.sequence c) (.coll c)

/-- The record of an instance fits its class. -/
structure Formed (w : World) (P : InstanceId) (x : Instance) (c : Class) (v : View) : Prop where
  cls : w.class? x.classId = some c
  view : x.view = some v
  sites : v.sites.length = c.descriptor.properties.length
  values : x.values.length = c.descriptor.properties.length
  unheard : x.mutationListeners = []
  fits : ∀ (n : Nat) (p : PropertyDescriptor) (site : Site) (val : Value), c.descriptor.properties[n]? = some p → v.sites[n]? = some site →
    x.values[n]? = some val → w.Fits P p.kind site val

/-- All records fit the classes, which are plain. -/
structure Built (w : World) : Prop where
  compiled : Compiled w.classes
  plain : PlainClasses w.classes
  inst : ∀ P x, w.inst? P = some x → ∃ c v, w.Formed P x c v
  coll : ∀ c x, w.coll? c = some x → ∃ y, w.inst? x.owner = some y ∧ Value.coll c ∈ y.values
  collAlive : ∀ c x, w.coll? c = some x → w.isAlive x.owner = true → x.alive = true
  accepted : ∀ c x i, w.coll? c = some x → i ∈ x.items → w.accepts x.element i = true
  noObjects : ∀ n ns, w.space? n = some ns → ns.objects = []

/-- The forest and the recorded attachments agree with the given occupants, where the given instances
count as in use. -/
def LinkedFor (w : World) (live : InstanceId → Prop) (occ : Place → List InstanceId) : Prop :=
  w.layout.Linked w.forest w.placeOf? live occ

/-- The forest and the recorded attachments agree with the given occupants. -/
def Linked (w : World) (occ : Place → List InstanceId) : Prop :=
  w.LinkedFor (fun i => w.isAlive i = true) occ

/-- The records fit, the forest is linked to the stored occupants, and handles are in use. -/
structure Orderly (w : World) : Prop extends Built w where
  linked : w.Linked w.occupants
  handled : ∀ i ∈ w.handles, w.isAlive i = true

/-! ## Anchored sets -/

/-- Every instance of the set is in use and held, by a handle or by a place of another one. -/
def Anchored (w : World) (K : InstanceId → Prop) : Prop :=
  ∀ i, K i → w.isAlive i = true ∧ (i ∈ w.handles ∨
    ∃ pl P m, i ∈ w.occupants pl ∧ w.layout.spot pl = some (P, m) ∧ K P)

end World

/-! ## Worlds of the same shape -/

/-- What of an instance is settled when it is made. -/
def Instance.shape (x : Instance) : ClassId × Option View × Dict String (List Listener) :=
  (x.classId, x.view, x.mutationListeners)

/-- What of a collection is settled when it is made. -/
def Collection.shape (x : Collection) : ElementType × NodeId × InstanceId :=
  (x.element, x.anchor, x.owner)

namespace World

/-- Two worlds with the same classes, instances and collections, as far as these are settled when they
are made. -/
structure SameShape (w w' : World) : Prop where
  classes : w'.classes = w.classes
  inst : ∀ i, (w'.inst? i).map Instance.shape = (w.inst? i).map Instance.shape
  coll : ∀ c, (w'.coll? c).map Collection.shape = (w.coll? c).map Collection.shape
  objects : ∀ n, (w'.space? n).map (·.objects) = (w.space? n).map (·.objects)

variable {w w' : World}

theorem SameShape.rfl : w.SameShape w := ⟨.refl _, fun _ => .refl _, fun _ => .refl _, fun _ => .refl _⟩

theorem SameShape.trans {w'' : World} (h : w.SameShape w') (h' : w'.SameShape w'') :
    w.SameShape w'' where
  classes := h'.classes.trans h.classes
  inst i := (h'.inst i).trans (h.inst i)
  coll c := (h'.coll c).trans (h.coll c)
  objects n := (h'.objects n).trans (h.objects n)

theorem map_inst?_modifyInstance {β : Type} (g : Instance → β) {f : Instance → Instance}
    (hg : ∀ x, g (f x) = g x) (w : World) (i j : InstanceId) :
    ((w.modifyInstance i f).inst? j).map g = (w.inst? j).map g := by
  by_cases hij : i = j
  · subst hij
    rw [inst?_modifyInstance_self]
    cases w.inst? i with
    | none => rfl
    | some x => exact congrArg some (hg x)
  · rw [inst?_modifyInstance_of_ne w f hij]

theorem coll?_modifyCollection_self (w : World) (c : CollectionId) (f : Collection → Collection) :
    (w.modifyCollection c f).coll? c = (w.coll? c).map f :=
  Table.get?_modify_self _ _ _

theorem coll?_modifyCollection_of_ne (w : World) {c d : CollectionId} (f : Collection → Collection)
    (h : c ≠ d) : (w.modifyCollection c f).coll? d = w.coll? d :=
  Table.get?_modify_of_ne _ _ _ _ fun hi => h (congrArg CollectionId.mk hi)

theorem map_coll?_modifyCollection {β : Type} (g : Collection → β) {f : Collection → Collection}
    (hg : ∀ x, g (f x) = g x) (w : World) (c d : CollectionId) :
    ((w.modifyCollection c f).coll? d).map g = (w.coll? d).map g := by
  by_cases hcd : c = d
  · subst hcd
    rw [coll?_modifyCollection_self]
    cases w.coll? c with
    | none => rfl
    | some x => exact congrArg some (hg x)
  · rw [coll?_modifyCollection_of_ne w f hcd]

theorem sameShape_modifyInstance (w : World) (i : InstanceId) {f : Instance → Instance}
    (hf : ∀ x, (f x).shape = x.shape) : w.SameShape (w.modifyInstance i f) :=
  ⟨rfl, fun j => map_inst?_modifyInstance _ hf w i j, fun _ => rfl, fun _ => rfl⟩

theorem sameShape_modifyCollection (w : World) (c : CollectionId) {f : Collection → Collection}
    (hf : ∀ x, (f x).shape = x.shape) : w.SameShape (w.modifyCollection c f) :=
  ⟨rfl, fun _ => rfl, fun d => map_coll?_modifyCollection _ hf w c d, fun _ => rfl⟩

namespace SameShape

variable (h : w.SameShape w')

include h

theorem class? (c : ClassId) : w'.class? c = w.class? c := by
  unfold World.class?
  rw [h.classes]

theorem exists_inst {i : InstanceId} {x : Instance} (hx : w.inst? i = some x) :
    ∃ y, w'.inst? i = some y ∧ y.shape = x.shape := by
  have hi := h.inst i
  rw [hx] at hi
  obtain ⟨y, hy, hxy⟩ := Option.map_eq_some_iff.1 hi
  exact ⟨y, hy, hxy⟩

theorem exists_inst' {i : InstanceId} {y : Instance} (hy : w'.inst? i = some y) :
    ∃ x, w.inst? i = some x ∧ y.shape = x.shape := by
  have hi := h.inst i
  rw [hy] at hi
  obtain ⟨x, hx, hxy⟩ := Option.map_eq_some_iff.1 hi.symm
  exact ⟨x, hx, hxy.symm⟩

theorem exists_coll {c : CollectionId} {x : Collection} (hx : w.coll? c = some x) :
    ∃ y, w'.coll? c = some y ∧ y.shape = x.shape := by
  have hc := h.coll c
  rw [hx] at hc
  obtain ⟨y, hy, hxy⟩ := Option.map_eq_some_iff.1 hc
  exact ⟨y, hy, hxy⟩

theorem exists_coll' {c : CollectionId} {y : Collection} (hy : w'.coll? c = some y) :
    ∃ x, w.coll? c = some x ∧ y.shape = x.shape := by
  have hc := h.coll c
  rw [hy] at hc
  obtain ⟨x, hx, hxy⟩ := Option.map_eq_some_iff.1 hc.symm
  exact ⟨x, hx, hxy.symm⟩

theorem rootOf? (i : InstanceId) : w'.rootOf? i = w.rootOf? i := by
  unfold World.rootOf?
  cases hx : w.inst? i with
  | none =>
    cases hy : w'.inst? i with
    | none => rfl
    | some y =>
      obtain ⟨x, hx', -⟩ := h.exists_inst' hy
      rw [hx] at hx'
      cases hx'
  | some x =>
    obtain ⟨y, hy, hxy⟩ := h.exists_inst hx
    rw [hy]
    have hview : y.view = x.view := congrArg (·.2.1) hxy
    simp only [Option.bind_some, hview]

theorem slotMarker? (P : InstanceId) (name : String) : w'.slotMarker? P name = w.slotMarker? P name := by
  unfold World.slotMarker?
  cases hx : w.inst? P with
  | none =>
    cases hy : w'.inst? P with
    | none => rfl
    | some y =>
      obtain ⟨x, hx', -⟩ := h.exists_inst' hy
      rw [hx] at hx'
      cases hx'
  | some x =>
    obtain ⟨y, hy, hxy⟩ := h.exists_inst hx
    have hview : y.view = x.view := congrArg (·.2.1) hxy
    have hid : y.classId = x.classId := congrArg (·.1) hxy
    rw [hy]
    simp only [Option.bind_some, hview, hid, h.class?]

/-- Worlds of the same shape have the same layout. -/
theorem layout : w'.layout = w.layout := by
  have hspot : w'.spot? = w.spot? := by
    funext pl
    cases pl with
    | sequence c =>
      have hmap (o : Option Collection) : (o.map fun x => (x.owner, x.anchor)) =
          (o.map Collection.shape).map fun s => (s.2.2, s.2.1) := by
        rw [Option.map_map]
        rfl
      unfold World.spot?
      dsimp only
      rw [hmap, hmap, h.coll c]
    | slot P name =>
      unfold World.spot?
      dsimp only
      rw [h.slotMarker?]
  unfold World.layout
  rw [hspot, funext h.rootOf?]

end SameShape

/-! ## What a world looks like through its records -/

theorem isAlive_congr {i : InstanceId} (h : (w'.inst? i).map (·.alive) = (w.inst? i).map (·.alive)) :
    w'.isAlive i = w.isAlive i := by
  have hmap (w : World) : w.isAlive i = ((w.inst? i).map (·.alive)).getD false := by
    unfold isAlive
    cases w.inst? i <;> rfl
  rw [hmap, hmap, h]

theorem attachment?_congr {i : InstanceId}
    (h : (w'.inst? i).map (·.attachment) = (w.inst? i).map (·.attachment)) :
    w'.attachment? i = w.attachment? i := by
  have hmap (w : World) : w.attachment? i = ((w.inst? i).map (·.attachment)).getD none := by
    unfold attachment?
    cases w.inst? i <;> rfl
  rw [hmap, hmap, h]

theorem placeOf?_congr {i : InstanceId}
    (h : (w'.inst? i).map (·.attachment) = (w.inst? i).map (·.attachment)) :
    w'.placeOf? i = w.placeOf? i :=
  congrArg (Option.map Attachment.place) (attachment?_congr h)

theorem placeOf?_eq_none_iff_attachment? {i : InstanceId} : w.placeOf? i = none ↔ w.attachment? i = none :=
  Option.map_eq_none_iff

theorem itemsOf_congr {c : CollectionId} (h : (w'.coll? c).map (·.items) = (w.coll? c).map (·.items)) :
    w'.itemsOf c = w.itemsOf c := by
  have hmap (w : World) : w.itemsOf c = ((w.coll? c).map (·.items)).getD [] := by
    unfold itemsOf
    cases w.coll? c <;> rfl
  rw [hmap, hmap, h]

theorem stored?_congr (hs : w.SameShape w') {P : InstanceId}
    (h : (w'.inst? P).map (·.values) = (w.inst? P).map (·.values)) (name : String) :
    w'.stored? P name = w.stored? P name := by
  unfold stored?
  cases hx : w.inst? P with
  | none =>
    rw [hx] at h
    rw [Option.map_eq_none_iff.1 h]
    rfl
  | some x =>
    obtain ⟨y, hy, hxy⟩ := hs.exists_inst hx
    have hid : y.classId = x.classId := congrArg (·.1) hxy
    rw [hx, hy] at h
    rw [hy]
    simp only [Option.bind_some, hid, hs.class?, Option.some.inj h]

theorem occupants_congr (hs : w.SameShape w')
    (halive : ∀ i, (w'.inst? i).map (·.alive) = (w.inst? i).map (·.alive))
    (hvalues : ∀ i, (w'.inst? i).map (·.values) = (w.inst? i).map (·.values))
    (hitems : ∀ c, (w'.coll? c).map (·.items) = (w.coll? c).map (·.items)) :
    w'.occupants = w.occupants := by
  funext pl
  cases pl with
  | sequence c => exact itemsOf_congr (hitems c)
  | slot P name =>
    unfold occupants
    dsimp only
    rw [isAlive_congr (halive P), stored?_congr hs (hvalues P)]

/-! ## Worlds that go on -/

/-- Everything that was there is there, with the same class, the same view and the same markers. -/
structure Extends (w w' : World) : Prop where
  classes : w'.classes = w.classes
  inst : ∀ i x, w.inst? i = some x → ∃ y, w'.inst? i = some y ∧ y.shape = x.shape
  coll : ∀ c x, w.coll? c = some x → ∃ y, w'.coll? c = some y ∧ y.shape = x.shape

namespace Extends

theorem rfl : w.Extends w :=
  ⟨.refl _, fun _ x hx => ⟨x, hx, .refl _⟩, fun _ x hx => ⟨x, hx, .refl _⟩⟩

theorem trans {w'' : World} (h : w.Extends w') (h' : w'.Extends w'') : w.Extends w'' where
  classes := h'.classes.trans h.classes
  inst i x hx := by
    obtain ⟨y, hy, hxy⟩ := h.inst i x hx
    obtain ⟨z, hz, hyz⟩ := h'.inst i y hy
    exact ⟨z, hz, hyz.trans hxy⟩
  coll c x hx := by
    obtain ⟨y, hy, hxy⟩ := h.coll c x hx
    obtain ⟨z, hz, hyz⟩ := h'.coll c y hy
    exact ⟨z, hz, hyz.trans hxy⟩

theorem of_sameShape (hs : w.SameShape w') : w.Extends w' :=
  ⟨hs.classes, fun _ _ hx => hs.exists_inst hx, fun _ _ hx => hs.exists_coll hx⟩

variable (h : w.Extends w')

include h

theorem class? (c : ClassId) : w'.class? c = w.class? c := by
  unfold World.class?
  rw [h.classes]

theorem classOf? {i : InstanceId} {c : Class} (hc : w.classOf? i = some c) :
    w'.classOf? i = some c := by
  obtain ⟨x, hx, hcx⟩ := Option.bind_eq_some_iff.1 hc
  obtain ⟨y, hy, hxy⟩ := h.inst i x hx
  have hid : y.classId = x.classId := congrArg (·.1) hxy
  unfold World.classOf?
  rw [hy, Option.bind_some, hid, h.class?, hcx]

theorem root {i : InstanceId} {r : NodeId} (hr : w.layout.root i = some r) :
    w'.layout.root i = some r := by
  have hroot : ((w.inst? i).bind (·.view)).map (·.root) = some r := hr
  obtain ⟨v, hv, rfl⟩ := Option.map_eq_some_iff.1 hroot
  obtain ⟨x, hx, hxv⟩ := Option.bind_eq_some_iff.1 hv
  obtain ⟨y, hy, hxy⟩ := h.inst i x hx
  have hview : y.view = x.view := congrArg (·.2.1) hxy
  change ((w'.inst? i).bind (·.view)).map (·.root) = some v.root
  rw [hy, Option.bind_some, hview, hxv]
  exact .refl _

theorem spot {pl : Place} {s : InstanceId × NodeId} (hs : w.layout.spot pl = some s) :
    w'.layout.spot pl = some s := by
  cases pl with
  | sequence c =>
    have hspot : (w.coll? c).map (fun x => (x.owner, x.anchor)) = some s := hs
    obtain ⟨x, hx, rfl⟩ := Option.map_eq_some_iff.1 hspot
    obtain ⟨y, hy, hxy⟩ := h.coll c x hx
    have howner : y.owner = x.owner := congrArg (·.2.2) hxy
    have hanchor : y.anchor = x.anchor := congrArg (·.2.1) hxy
    change (w'.coll? c).map (fun x => (x.owner, x.anchor)) = _
    rw [hy, Option.map_some, howner, hanchor]
  | slot P name =>
    have hspot : (w.slotMarker? P name).map (fun m => (P, m)) = some s := hs
    obtain ⟨m, hm, rfl⟩ := Option.map_eq_some_iff.1 hspot
    unfold slotMarker? at hm
    obtain ⟨x, hx, hm⟩ := Option.bind_eq_some_iff.1 hm
    obtain ⟨y, hy, hxy⟩ := h.inst P x hx
    have hview : y.view = x.view := congrArg (·.2.1) hxy
    have hid : y.classId = x.classId := congrArg (·.1) hxy
    change (w'.slotMarker? P name).map (fun m => (P, m)) = _
    unfold slotMarker?
    rw [hy, Option.bind_some, hid, h.class?, hview, hm, Option.map_some]

theorem accepts {element : ElementType} {i : InstanceId} (ha : w.accepts element i = true) :
    w'.accepts element i = true := by
  cases element with
  | any => exact .refl _
  | ofClass ref =>
    unfold World.accepts at ha ⊢
    dsimp only at ha ⊢
    cases hx : w.inst? i with
    | none =>
      rw [hx] at ha
      cases ha
    | some x =>
      obtain ⟨y, hy, hxy⟩ := h.inst i x hx
      have hid : y.classId = x.classId := congrArg (·.1) hxy
      rw [hx] at ha
      rw [hy]
      unfold isA at ha ⊢
      dsimp only at ha ⊢
      rw [hid, h.class?]
      exact ha

end Extends

/-! ## Carrying over what is known of a world -/

theorem Fits.congr {P : InstanceId} {k : PropertyKind} {site : Site} {val : Value}
    (h : w.Fits P k site val) (hs : w.Extends w') : w'.Fits P k site val := by
  cases h with
  | primitive hv => exact .primitive hv
  | empty => exact .empty
  | child => exact .child
  | sequence hx howner helement =>
    obtain ⟨y, hy, hxy⟩ := hs.coll _ _ hx
    have hyo : y.owner = _ := congrArg (·.2.2) hxy
    have hye : y.element = _ := congrArg (·.1) hxy
    exact .sequence hy (hyo.trans howner) (hye.trans helement)

theorem Formed.congr {P : InstanceId} {x y : Instance} {c : Class} {v : View} (h : w.Formed P x c v)
    (hs : w.Extends w') (hshape : y.shape = x.shape) (hvalues : y.values = x.values) :
    w'.Formed P y c v where
  cls := by
    have hid : y.classId = x.classId := congrArg (·.1) hshape
    rw [hs.class?, hid, h.cls]
  view := by
    have hview : y.view = x.view := congrArg (·.2.1) hshape
    rw [hview, h.view]
  sites := h.sites
  values := by rw [hvalues, h.values]
  unheard := by
    have hl : y.mutationListeners = x.mutationListeners := congrArg (·.2.2) hshape
    rw [hl, h.unheard]
  fits n p site val hp hsite hval := by
    rw [hvalues] at hval
    exact (h.fits n p site val hp hsite hval).congr hs

/-- Records that fit stay so as long as the values stay, and no collection gets items. -/
theorem Built.congr (h : w.Built) (hs : w.SameShape w')
    (hvalues : ∀ i, (w'.inst? i).map (·.values) = (w.inst? i).map (·.values))
    (halive : ∀ c x, w'.coll? c = some x → w'.isAlive x.owner = true → x.alive = true)
    (hitems : ∀ c, w'.itemsOf c ⊆ w.itemsOf c) : w'.Built where
  compiled := hs.classes ▸ h.compiled
  plain := hs.classes ▸ h.plain
  inst P y hy := by
    obtain ⟨x, hx, hxy⟩ := hs.exists_inst' hy
    obtain ⟨c, v, hf⟩ := h.inst P x hx
    have hval := hvalues P
    rw [hx, hy] at hval
    exact ⟨c, v, hf.congr (.of_sameShape hs) hxy (Option.some.inj hval)⟩
  coll c y hy := by
    obtain ⟨x, hx, hxy⟩ := hs.exists_coll' hy
    obtain ⟨z, hz, hmem⟩ := h.coll c x hx
    obtain ⟨z', hz', -⟩ := hs.exists_inst hz
    have hval := hvalues x.owner
    rw [hz, hz'] at hval
    have howner : y.owner = x.owner := congrArg (·.2.2) hxy
    have hvz : z'.values = z.values := Option.some.inj hval
    exact ⟨z', howner ▸ hz', hvz ▸ hmem⟩
  collAlive := halive
  accepted c y i hy hi := by
    obtain ⟨x, hx, hxy⟩ := hs.exists_coll' hy
    have hel : y.element = x.element := congrArg (·.1) hxy
    have hmem : i ∈ w'.itemsOf c := by
      unfold itemsOf
      rw [hy]
      exact hi
    have hmem' := hitems c hmem
    unfold itemsOf at hmem'
    rw [hx] at hmem'
    rw [hel, (Extends.of_sameShape hs).accepts (h.accepted c x i hx hmem')]
  noObjects n ns hns := by
    have hobj := hs.objects n
    rw [hns] at hobj
    obtain ⟨ns', hns', heq⟩ := Option.map_eq_some_iff.1 hobj.symm
    exact heq.symm.trans (h.noObjects n ns' hns')

/-- What is linked stays so as long as the shape, the attachments and the links stay. -/
theorem LinkedFor.congr {live : InstanceId → Prop} {occ : Place → List InstanceId}
    (h : w.LinkedFor live occ) (hs : w.SameShape w') (hplace : ∀ i, w'.placeOf? i = w.placeOf? i)
    (hlinks : w.forest.SameLinks w'.forest) : w'.LinkedFor live occ := by
  unfold LinkedFor at *
  rw [hs.layout, funext hplace]
  exact Layout.Linked.congr h hlinks

/-! ## Reading off records that fit -/

theorem mem_occupants_slot {i P : InstanceId} {name : String} :
    i ∈ w.occupants (.slot P name) ↔ w.isAlive P = true ∧ w.stored? P name = some (.inst i) := by
  unfold occupants
  dsimp only
  cases w.isAlive P with
  | false => simp
  | true =>
    cases w.stored? P name with
    | none => simp
    | some v => cases v <;> simp [Value.inst?, eq_comm]

/-- A stored value is one of the values. -/
theorem exists_of_stored? {P : InstanceId} {name : String} {v : Value} (h : w.stored? P name = some v) :
    ∃ x c n, w.inst? P = some x ∧ w.class? x.classId = some c ∧
      c.descriptor.propertyIndex? name = some n ∧ x.values[n]? = some v := by
  unfold stored? at h
  obtain ⟨x, hx, h⟩ := Option.bind_eq_some_iff.1 h
  obtain ⟨c, hc, h⟩ := Option.bind_eq_some_iff.1 h
  obtain ⟨n, hn, h⟩ := Option.bind_eq_some_iff.1 h
  exact ⟨x, c, n, hx, hc, hn, h⟩

/-- Every value stands at a property and a site that it fits. -/
theorem Formed.exists_fits {P : InstanceId} {x : Instance} {c : Class} {v : View} {n : Nat} {val : Value}
    (h : w.Formed P x c v) (hval : x.values[n]? = some val) :
    ∃ p site, c.descriptor.properties[n]? = some p ∧ v.sites[n]? = some site ∧
      w.Fits P p.kind site val := by
  have hlt : n < c.descriptor.properties.length := h.values ▸ (List.getElem?_eq_some_iff.1 hval).1
  have hlt' : n < v.sites.length := h.sites ▸ hlt
  refine ⟨_, _, List.getElem?_eq_getElem hlt, List.getElem?_eq_getElem hlt', ?_⟩
  exact h.fits n _ _ val (List.getElem?_eq_getElem hlt) (List.getElem?_eq_getElem hlt') hval

/-- The collections among the values of an instance belong to it. -/
theorem Built.owner_of_mem_values (h : w.Built) {P : InstanceId} {x : Instance} {c : CollectionId}
    (hx : w.inst? P = some x) (hc : Value.coll c ∈ x.values) :
    ∃ y, w.coll? c = some y ∧ y.owner = P := by
  obtain ⟨cls, v, hf⟩ := h.inst P x hx
  obtain ⟨n, hn⟩ := List.mem_iff_getElem?.1 hc
  obtain ⟨p, site, -, -, hfits⟩ := hf.exists_fits hn
  generalize p.kind = k at hfits
  cases hfits with
  | primitive hprim => cases hprim
  | sequence hy howner _ => exact ⟨_, hy, howner⟩

theorem spot_slot {P Q : InstanceId} {name : String} {m : NodeId}
    (h : w.layout.spot (.slot P name) = some (Q, m)) : Q = P := by
  have hspot : (w.slotMarker? P name).map (fun m => (P, m)) = some (Q, m) := h
  obtain ⟨m', -, heq⟩ := Option.map_eq_some_iff.1 hspot
  exact (Prod.mk.inj heq).1.symm

theorem spot_sequence {c : CollectionId} {Q : InstanceId} {m : NodeId}
    (h : w.layout.spot (.sequence c) = some (Q, m)) :
    ∃ x, w.coll? c = some x ∧ x.owner = Q ∧ x.anchor = m := by
  have hspot : (w.coll? c).map (fun x => (x.owner, x.anchor)) = some (Q, m) := h
  obtain ⟨x, hx, heq⟩ := Option.map_eq_some_iff.1 hspot
  obtain ⟨hQ, hm⟩ := Prod.mk.inj heq
  exact ⟨x, hx, hQ, hm⟩

theorem spot_of_coll? {c : CollectionId} {x : Collection} (hx : w.coll? c = some x) :
    w.layout.spot (.sequence c) = some (x.owner, x.anchor) := by
  change (w.coll? c).map (fun x => (x.owner, x.anchor)) = _
  rw [hx, Option.map_some]

/-- The owner of a place. -/
def ownerOf? (w : World) : Place → Option InstanceId
  | .sequence c => (w.coll? c).map (·.owner)
  | .slot P _ => some P

theorem ownerOf?_congr (hs : w.SameShape w') (pl : Place) : w'.ownerOf? pl = w.ownerOf? pl := by
  cases pl with
  | slot P name => rfl
  | sequence c =>
    have hmap (o : Option Collection) : o.map (·.owner) = (o.map Collection.shape).map (·.2.2) := by
      rw [Option.map_map]
      rfl
    change (w'.coll? c).map (·.owner) = (w.coll? c).map (·.owner)
    rw [hmap, hmap, hs.coll c]

theorem ownerOf?_of_spot {pl : Place} {P : InstanceId} {m : NodeId} (h : w.layout.spot pl = some (P, m)) :
    w.ownerOf? pl = some P := by
  cases pl with
  | slot Q name => exact congrArg some (spot_slot h).symm
  | sequence c =>
    obtain ⟨x, hx, rfl, -⟩ := spot_sequence h
    change (w.coll? c).map (·.owner) = some x.owner
    rw [hx]
    rfl

/-! ## Respect -/

/-- The instances of a set stay in use, with the same occupants and the same views, and no handle is
lost. -/
structure Respects (w : World) (K : InstanceId → Prop) (w' : World) : Prop extends Extends w w' where
  pins : w.pins ⊆ w'.pins
  registry : w'.registry = w.registry
  alive : ∀ P, K P → w'.isAlive P = true
  occ : ∀ pl P m, K P → w.layout.spot pl = some (P, m) → w'.occupants pl = w.occupants pl
  view : ∀ P, K P → w.layout.SameView w.forest w'.layout w'.forest P

variable {K : InstanceId → Prop}

theorem Respects.trans {w'' : World} (h : w.Respects K w') (h' : w'.Respects K w'') :
    w.Respects K w'' where
  toExtends := h.toExtends.trans h'.toExtends
  pins := List.Subset.trans h.pins h'.pins
  registry := h'.registry.trans h.registry
  alive := h'.alive
  occ pl P m hP hspot := (h'.occ pl P m hP (h.spot hspot)).trans (h.occ pl P m hP hspot)
  view P hP := (h.view P hP).trans (fun _ hr => h.root hr) (h'.view P hP)

theorem Respects.handles (h : w.Respects K w') : w.handles ⊆ w'.handles := by
  unfold World.handles
  rw [h.registry]
  intro i hi
  rcases List.mem_append.1 hi with hi | hi
  · obtain ⟨k, hk, hki⟩ := List.mem_filterMap.1 hi
    exact List.mem_append_left _ (List.mem_filterMap.2 ⟨k, h.pins hk, hki⟩)
  · exact List.mem_append_right _ hi

theorem Respects.refl (h : w.Anchored K) : w.Respects K w where
  toExtends := .rfl
  pins := List.Subset.refl _
  registry := .refl _
  alive P hP := (h P hP).1
  occ _ _ _ _ _ := .refl _
  view P _ := .refl _ _ P

/-- What is respected stays anchored. -/
theorem Respects.anchored (h : w.Respects K w') (hK : w.Anchored K) : w'.Anchored K := by
  intro i hi
  refine ⟨h.alive i hi, ?_⟩
  rcases (hK i hi).2 with hmem | ⟨pl, P, m, hmem, hspot, hP⟩
  · exact Or.inl (h.handles hmem)
  · refine Or.inr ⟨pl, P, m, ?_, h.spot hspot, hP⟩
    rw [h.occ pl P m hP hspot]
    exact hmem

/-- Instances that are held by handles are anchored. -/
theorem anchored_of_handles (h : w.Orderly) (hK : ∀ i, K i → i ∈ w.handles) : w.Anchored K :=
  fun i hi => ⟨h.handled i (hK i hi), Or.inl (hK i hi)⟩

/-! ## Calm changes -/

/-- A change that concerns neither places nor uses nor handles. -/
structure Calm (w w' : World) : Prop where
  built : w.Built → w'.Built
  shape : w.SameShape w'
  alive : ∀ i, w'.isAlive i = w.isAlive i
  place : ∀ i, w'.placeOf? i = w.placeOf? i
  occupants : w'.occupants = w.occupants
  links : w.forest.SameLinks w'.forest
  handles : w.SameHandles w'

namespace Calm

theorem rfl : w.Calm w :=
  ⟨id, .rfl, fun _ => .refl _, fun _ => .refl _, .refl _, .rfl, .rfl⟩

theorem trans {w'' : World} (h : w.Calm w') (h' : w'.Calm w'') : w.Calm w'' where
  built := h'.built ∘ h.built
  shape := h.shape.trans h'.shape
  alive i := (h'.alive i).trans (h.alive i)
  place i := (h'.place i).trans (h.place i)
  occupants := h'.occupants.trans h.occupants
  links := h.links.trans h'.links
  handles := h.handles.trans h'.handles

variable (h : w.Calm w')

include h

theorem orderly (hw : w.Orderly) : w'.Orderly where
  toBuilt := h.built hw.toBuilt
  linked := by
    unfold Linked
    rw [h.occupants, funext h.alive]
    exact hw.linked.congr h.shape h.place h.links
  handled i hi := by
    rw [h.handles.handles] at hi
    rw [h.alive]
    exact hw.handled i hi

theorem respects (hK : w.Anchored K) : w.Respects K w' where
  toExtends := .of_sameShape h.shape
  pins := by
    rw [h.handles.pins]
    exact List.Subset.refl _
  registry := h.handles.registry
  alive P hP := by
    rw [h.alive]
    exact (hK P hP).1
  occ pl P m _ _ := by rw [h.occupants]
  view P _ := by
    rw [h.shape.layout]
    exact fun r n _ hn => ⟨hn.sameLinks h.links, h.links.children n⟩

end Calm

end World

end ReactiveView
