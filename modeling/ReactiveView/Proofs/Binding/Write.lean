import ReactiveView.Proofs.Binding.Values
import ReactiveView.Proofs.Frame

/-!
# Writes of one instance

`World.Holds` says what an instance of a class holds: it has a view, nobody listens to its mutations,
and its values are a given list. A write of a primitive property ends well exactly when the value is
taken, and changes the values as `Class.written` says (`setPrimitive_of_ok`, `setPrimitive_of_error`).

A write of a slot or of an array property may construct children, and what is called back then is not
part of the model of a write. `World.Spares` says what such code may do to the instance: change values
at some positions, and nothing else; `Callbacks.Discreet` says that constructing children leaves the
instance alone, in worlds whose tables of classes are of a certain kind. Under this assumption the write
of a slot or of an array property changes no value of a primitive property (`setProperty_element`).
-/

set_option autoImplicit false

namespace ReactiveView

/-! ## What an instance holds -/

/-- The instance has a view and these values, its class is known, and nobody listens to its
mutations. -/
structure World.Holds (w : World) (i : InstanceId) (id : ClassId) (c : Class) (vals : List Value) :
    Prop where
  cls : w.class? id = some c
  inst : ∃ x v, w.inst? i = some x ∧ x.classId = id ∧ x.view = some v ∧ x.values = vals ∧
    x.mutationListeners = []

namespace World

variable {w : World} {i : InstanceId} {id : ClassId} {c : Class} {vals : List Value}

theorem inst?_modifyInstance_self (w : World) (i : InstanceId) (f : Instance → Instance) :
    (w.modifyInstance i f).inst? i = (w.inst? i).map f :=
  Table.get?_modify_self w.instances i.index f

theorem inst?_modifyInstance_of_ne (w : World) {i j : InstanceId} (f : Instance → Instance)
    (h : i ≠ j) : (w.modifyInstance i f).inst? j = w.inst? j := by
  refine Table.get?_modify_of_ne w.instances i.index j.index f fun he => h ?_
  cases i
  cases j
  exact congrArg InstanceId.mk he

/-- What an instance holds does not depend on anything but the classes and the instances. -/
theorem Holds.congr {w' : World} (h : w.Holds i id c vals) (hc : w'.classes = w.classes)
    (hi : w'.instances = w.instances) : w'.Holds i id c vals := by
  obtain ⟨hcls, hinst⟩ := h
  refine ⟨?_, ?_⟩
  · unfold class? at hcls ⊢
    rw [hc, hcls]
  · unfold inst? at hinst ⊢
    rw [hi]
    exact hinst

theorem Holds.textOfSource (h : w.Holds i id c vals) (s : Source) :
    w.textOfSource i s = c.textIn vals s := by
  obtain ⟨hcls, x, v, hx, rfl, -, rfl, -⟩ := h
  have hclass : w.classOf? i = some c := by
    unfold classOf?
    rw [hx, Option.bind_some, hcls]
  unfold World.textOfSource
  rw [hx, hclass]
  rfl

theorem Holds.storeValue (h : w.Holds i id c vals) (n : Nat) (v : Value) :
    (w.storeValue i n v).Holds i id c (vals.set n v) := by
  obtain ⟨hcls, x, view, hx, hid, hview, rfl, hl⟩ := h
  refine ⟨hcls, { x with values := x.values.set n v }, view, ?_, hid, hview, rfl, hl⟩
  unfold World.storeValue
  rw [inst?_modifyInstance_self, hx]
  rfl

end World

namespace Run

variable {w : World} {i : InstanceId} {id : ClassId} {c : Class} {vals : List Value}

theorem theClassOf_holds (h : w.Holds i id c vals) : theClassOf i w = (.ok c, w) := by
  obtain ⟨hcls, x, v, hx, rfl, -⟩ := h
  exact theClassOf_of hx hcls

theorem propertyIndex_holds (h : w.Holds i id c vals) {name : String} {n : Nat}
    (hn : c.descriptor.propertyIndex? name = some n) : propertyIndex i name w = (.ok n, w) := by
  unfold propertyIndex
  rw [bind_of_ok (theClassOf_holds h), hn]
  rfl

theorem propertyIndex_of_none (h : w.Holds i id c vals) {name : String}
    (hn : c.descriptor.propertyIndex? name = none) :
    propertyIndex i name w = (.error (.failed (.unknownProperty name c.name)), w) := by
  unfold propertyIndex
  rw [bind_of_ok (theClassOf_holds h), hn]
  rfl

/-- Reading a property gives its value. -/
theorem getProperty_holds (h : w.Holds i id c vals) {name : String} {v : Value}
    (hv : c.valueIn vals name = some v) : getProperty i name w = (.ok v, w) := by
  obtain ⟨n, hn, hvn⟩ := Option.bind_eq_some_iff.1 hv
  unfold getProperty
  rw [bind_of_ok (propertyIndex_holds h hn)]
  obtain ⟨-, x, -, hx, -, -, rfl, -⟩ := h
  rw [bind_of_ok (theInstance_of hx), hvn]
  rfl

/-! ## Writing primitive values -/

/-- What a step changes of the values of an instance; the classes stay. -/
def Stores (i : InstanceId) (id : ClassId) (c : Class) (r : Run Unit) (f : List Value → List Value) :
    Prop :=
  ∀ (w : World) (vals : List Value), w.Holds i id c vals →
    vals.length = c.descriptor.properties.length →
      ∃ w', r w = (.ok (), w') ∧ w'.Holds i id c (f vals) ∧ w'.classes = w.classes

theorem stores_writePrimitive (cb : Callbacks) {n : Nat} {name : String}
    (hn : c.descriptor.propertyIndex? name = some n) (v : Value) :
    Stores i id c (writePrimitive cb i n name v) fun vals => c.put vals name v := by
  intro w vals h hlen
  obtain ⟨p, hp, -⟩ := Descriptor.propertyIndex?_some hn
  have hlt : n < vals.length := hlen ▸ (List.getElem?_eq_some_iff.1 hp).1
  have hclass := theClassOf_holds h
  obtain ⟨x, view, hx, -, hview, hvals, -⟩ := h.inst
  -- after rendering, whether or not there is a place to render in
  have hrest (w₁ : World) (h₁ : w₁.Holds i id c vals) (hc₁ : w₁.classes = w.classes) :
      ∃ w', (do
        let old ← ofOption (← theInstance i).values[n]?
        update fun w => w.storeValue i n v
        announce cb i name old v : Run Unit) w₁ = (.ok (), w') ∧
          w'.Holds i id c (c.put vals name v) ∧ w'.classes = w.classes := by
    have hput : c.put vals name v = vals.set n v := by
      unfold Class.put
      rw [hn]
    have h₂ := h₁.storeValue n v
    obtain ⟨x₁, -, hx₁, -, -, hvals₁, -⟩ := h₁.inst
    obtain ⟨x₂, -, hx₂, -, -, -, hl₂⟩ := h₂.inst
    refine ⟨w₁.storeValue i n v, ?_, hput ▸ h₂, hc₁⟩
    rw [bind_of_ok (theInstance_of hx₁), hvals₁, List.getElem?_eq_getElem hlt,
      bind_of_ok (ofOption_some _ _), bind_of_ok (update_apply _ _)]
    unfold announce
    rw [bind_of_ok (theInstance_of hx₂), hl₂]
    rfl
  unfold writePrimitive
  rw [bind_of_ok hclass, bind_of_ok (theView_of hx hview)]
  cases view.sites[n]? with
  | none => exact hrest w h rfl
  | some site =>
    cases site with
    | nodes places => exact hrest _ (h.congr rfl rfl) rfl
    | slot anchor sink => exact hrest w h rfl
    | sequence coll => exact hrest w h rfl

/-- Recomputing a bound property. -/
theorem stores_writeBinding (cb : Callbacks) {name : String} {f : Format}
    (hf : c.bindingOf? name = some f) :
    Stores i id c (writeBinding cb i name) fun vals => c.recomputed vals name := by
  intro w vals h hlen
  obtain ⟨p, hp, -⟩ := Option.bind_eq_some_iff.1 hf
  obtain ⟨hpm, rfl⟩ := Descriptor.property?_some hp
  obtain ⟨n, hn, -⟩ := Option.bind_eq_some_iff.1
    (Option.isSome_iff_exists.1 (Class.isSome_valueIn hlen hpm)).choose_spec
  have htext : w.textOfSource i = c.textIn vals := funext h.textOfSource
  have hrec : c.recomputed vals p.name = c.put vals p.name (.text (f.render (c.textIn vals))) := by
    unfold Class.recomputed
    rw [hf]
  unfold writeBinding
  rw [bind_of_ok (propertyIndex_holds h hn), bind_of_ok (theClassOf_holds h)]
  unfold Class.bindingOf? at hf
  rw [hf]
  dsimp only
  rw [bind_of_ok (ask_apply _ _), htext, hrec]
  exact stores_writePrimitive cb hn _ w vals h hlen

theorem Stores.forM {names : List String} {r : String → Run Unit}
    {f : List Value → String → List Value} (hr : ∀ n ∈ names, Stores i id c (r n) fun vals => f vals n)
    (hlen : ∀ vals n, (f vals n).length = vals.length) :
    Stores i id c (names.forM r) fun vals => names.foldl f vals := by
  induction names with
  | nil => exact fun w vals h _ => ⟨w, rfl, h, rfl⟩
  | cons n ns ih =>
    intro w vals h hl
    obtain ⟨w₁, hw₁, h₁, hc₁⟩ := hr n List.mem_cons_self w vals h hl
    obtain ⟨w₂, hw₂, h₂, hc₂⟩ := ih (fun m hm => hr m (List.mem_cons_of_mem _ hm)) w₁ (f vals n) h₁
      (by rw [hlen, hl])
    refine ⟨w₂, ?_, h₂, hc₂.trans hc₁⟩
    rw [forM_cons, bind_of_ok hw₁, hw₂]

/-- Recomputing what is downstream of a property. -/
theorem stores_propagate (hc : c.Valid) (cb : Callbacks) (changed : String) :
    Stores i id c (propagate cb i changed)
      fun vals => (c.affected changed).foldl c.recomputed vals := by
  intro w vals h hlen
  unfold propagate
  rw [bind_of_ok (theClassOf_holds h)]
  refine Stores.forM (fun n hn => ?_) Class.length_recomputed w vals h hlen
  obtain ⟨f, hf⟩ := hc.bindingOf?_of_mem_order (Graph.mem_order_of_mem_downstream _ _ _ _ hn)
  exact stores_writeBinding cb hf

/-- A value that is taken is written. -/
theorem setPrimitive_of_ok (hc : c.Valid) (cb : Callbacks) {n : Nat} {name : String}
    (hn : c.descriptor.propertyIndex? name = some n) {types : Option (List PrimitiveType)}
    {v : Value} (hv : checkPrimitive name types v = .ok ()) :
    Stores i id c (setPrimitive cb i n name types v) fun vals => c.written vals name v := by
  intro w vals h hlen
  obtain ⟨w₁, hw₁, h₁, hc₁⟩ := stores_writePrimitive cb hn v w vals h hlen
  obtain ⟨w₂, hw₂, h₂, hc₂⟩ := stores_propagate hc cb name w₁ _ h₁
    (by rw [Class.length_put, hlen])
  refine ⟨w₂, ?_, h₂, hc₂.trans hc₁⟩
  unfold setPrimitive
  rw [hv, bind_of_ok (ofExcept_ok _ _), bind_of_ok hw₁, hw₂]

/-- A value that is refused changes nothing. -/
theorem setPrimitive_of_error (cb : Callbacks) {n : Nat} {name : String}
    {types : Option (List PrimitiveType)} {v : Value} {e : Error}
    (hv : checkPrimitive name types v = .error e) (w : World) :
    setPrimitive cb i n name types v w = (.error (.failed e), w) := by
  unfold setPrimitive
  rw [hv, bind_of_error (ofExcept_error _ _)]

/-- Recomputing a bound property and what is downstream of it. -/
theorem stores_recomputeBinding (hc : c.Valid) (cb : Callbacks) {name : String}
    (hname : name ∈ c.graph.order) :
    Stores i id c (recomputeBinding cb i name) fun vals => c.refreshed vals name := by
  intro w vals h hlen
  obtain ⟨f, hf⟩ := hc.bindingOf?_of_mem_order hname
  obtain ⟨w₁, hw₁, h₁, hc₁⟩ := stores_writeBinding cb hf w vals h hlen
  obtain ⟨w₂, hw₂, h₂, hc₂⟩ := stores_propagate hc cb name w₁ _ h₁
    (by rw [Class.length_recomputed, hlen])
  refine ⟨w₂, ?_, ?_, hc₂.trans hc₁⟩
  · unfold recomputeBinding
    rw [bind_of_ok hw₁, hw₂]
  · change w₂.Holds i id c (c.refreshed vals name)
    rw [Class.refreshed_eq_foldl hf]
    exact h₂

end Run

/-! ## Code that is called back -/

/-- Two records of an instance that differ, of what writes look at, in the values at some positions. -/
structure Instance.Agrees (may : Nat → Prop) (x y : Instance) : Prop where
  classId : y.classId = x.classId
  view : y.view = x.view
  mutationListeners : y.mutationListeners = x.mutationListeners
  length : y.values.length = x.values.length
  values : ∀ n, ¬ may n → y.values[n]? = x.values[n]?

theorem Instance.Agrees.rfl {may : Nat → Prop} {x : Instance} : x.Agrees may x :=
  ⟨Eq.refl _, Eq.refl _, Eq.refl _, Eq.refl _, fun _ _ => Eq.refl _⟩

theorem Instance.Agrees.trans {may : Nat → Prop} {x y z : Instance} (h : x.Agrees may y)
    (h' : y.Agrees may z) : x.Agrees may z :=
  ⟨h'.classId.trans h.classId, h'.view.trans h.view,
    h'.mutationListeners.trans h.mutationListeners, h'.length.trans h.length,
    fun n hn => (h'.values n hn).trans (h.values n hn)⟩

/-- From one world to another the known classes stay, and an instance keeps what writes look at, apart
from the values at some positions. -/
structure World.Spares (i : InstanceId) (may : Nat → Prop) (w w' : World) : Prop where
  cls : ∀ id c, w.class? id = some c → w'.class? id = some c
  inst : ∀ x, w.inst? i = some x → ∃ y, w'.inst? i = some y ∧ x.Agrees may y

/-- In worlds whose classes are of some kind, the classes stay of that kind and the instance is
spared. -/
def World.SparesAmong (kind : Table Class → Prop) (i : InstanceId) (may : Nat → Prop)
    (w w' : World) : Prop :=
  kind w.classes → kind w'.classes ∧ w.Spares i may w'

/-- Constructing instances leaves an instance alone, among classes of some kind. -/
def Callbacks.Discreet (kind : Table Class → Prop) (i : InstanceId) (cb : Callbacks) : Prop :=
  ∀ id init, Run.Keeps (World.SparesAmong kind i fun _ => False) (cb.construct id init)

namespace World

variable {kind : Table Class → Prop} {i : InstanceId} {may : Nat → Prop}

theorem Spares.rfl {w : World} : w.Spares i may w :=
  ⟨fun _ _ h => h, fun x hx => ⟨x, hx, .rfl⟩⟩

theorem Spares.trans {a b c : World} (h : a.Spares i may b) (h' : b.Spares i may c) :
    a.Spares i may c := by
  refine ⟨fun id k hk => h'.cls id k (h.cls id k hk), fun x hx => ?_⟩
  obtain ⟨y, hy, hxy⟩ := h.inst x hx
  obtain ⟨z, hz, hyz⟩ := h'.inst y hy
  exact ⟨z, hz, hxy.trans hyz⟩

theorem Spares.mono {may' : Nat → Prop} (h : ∀ n, may n → may' n) {w w' : World}
    (hs : w.Spares i may w') : w.Spares i may' w' := by
  refine ⟨hs.cls, fun x hx => ?_⟩
  obtain ⟨y, hy, ha⟩ := hs.inst x hx
  exact ⟨y, hy, ha.classId, ha.view, ha.mutationListeners, ha.length,
    fun n hn => ha.values n fun hm => hn (h n hm)⟩

theorem SparesAmong.mono {may' : Nat → Prop} (h : ∀ n, may n → may' n) {w w' : World}
    (hs : w.SparesAmong kind i may w') : w.SparesAmong kind i may' w' := fun hk =>
  ⟨(hs hk).1, (hs hk).2.mono h⟩

/-- A change of one instance spares the others, and this one if it keeps what is looked at. -/
theorem Spares.modifyInstance {w : World} {j : InstanceId} {f : Instance → Instance}
    (h : j = i → ∀ x : Instance, x.Agrees may (f x)) : w.Spares i may (w.modifyInstance j f) := by
  refine ⟨fun _ _ h => h, fun x hx => ?_⟩
  by_cases hji : j = i
  · refine ⟨f x, ?_, h hji x⟩
    rw [hji, inst?_modifyInstance_self, hx]
    exact Eq.refl _
  · refine ⟨x, ?_, .rfl⟩
    rw [inst?_modifyInstance_of_ne w f hji, hx]

instance : IsFrame (SparesAmong kind i may) where
  refl w h := ⟨h, .rfl⟩
  trans a b c hab hbc ha := by
    obtain ⟨hb, hs⟩ := hab ha
    obtain ⟨hc, hs'⟩ := hbc hb
    exact ⟨hc, hs.trans hs'⟩
  same w w' hc hi h := by
    refine ⟨by rw [hc]; exact h, fun id c hid => ?_, fun x hx => ⟨x, ?_, .rfl⟩⟩
    · unfold class? at hid ⊢
      rw [hc, hid]
    · unfold inst? at hx ⊢
      rw [hi, hx]
  modify w j f hf h := by
    refine ⟨h, Spares.modifyInstance fun _ x => ?_⟩
    obtain ⟨hid, hv, hvals, hl⟩ := hf x
    exact ⟨hid, hv, hl, by rw [hvals], fun n _ => by rw [hvals]⟩

/-- Storing a value at a position that may change. -/
theorem sparesAmong_storeValue {n : Nat} (hn : may n) (w : World) (v : Value) :
    w.SparesAmong kind i may (w.storeValue i n v) := by
  refine fun h => ⟨h, Spares.modifyInstance fun _ x => ?_⟩
  refine ⟨Eq.refl _, Eq.refl _, Eq.refl _, List.length_set, fun m hm => ?_⟩
  refine List.getElem?_set_ne fun hnm => hm ?_
  rw [← hnm]
  exact hn

/-- What an instance holds where nothing may change it. -/
theorem Holds.of_spares {w w' : World} {id : ClassId} {c : Class} {vals : List Value}
    (h : w.Holds i id c vals) (hs : w.Spares i may w') :
    ∃ vals', w'.Holds i id c vals' ∧ vals'.length = vals.length ∧
      ∀ n, ¬ may n → vals'[n]? = vals[n]? := by
  obtain ⟨hcls, x, v, hx, hid, hv, rfl, hl⟩ := h
  obtain ⟨y, hy, ha⟩ := hs.inst x hx
  refine ⟨y.values, ⟨hs.cls id c hcls, y, v, hy, ?_, ?_, Eq.refl _, ?_⟩, ha.length, ha.values⟩
  · rw [ha.classId, hid]
  · rw [ha.view, hv]
  · rw [ha.mutationListeners, hl]

theorem Holds.of_leavesAlone {w w' : World} {id : ClassId} {c : Class} {vals : List Value}
    (h : w.Holds i id c vals) (hs : w.Spares i (fun _ => False) w') : w'.Holds i id c vals := by
  obtain ⟨vals', h', -, hvals⟩ := h.of_spares hs
  have heq : vals' = vals := List.ext_getElem? fun n => hvals n not_false
  rw [← heq]
  exact h'

end World

namespace Run

variable {kind : Table Class → Prop} {i : InstanceId} {id : ClassId} {c : Class} {vals : List Value}

theorem Keeps.mono {α : Type} {R S : World → World → Prop} {r : Run α}
    (h : ∀ w w', R w w' → S w w') (hr : Keeps R r) : Keeps S r := fun w => h _ _ (hr w)

/-- A write of a slot or of an array property changes no value of another property, and an array
property keeps its collection. -/
theorem setProperty_element {cb : Callbacks} (hcb : cb.Discreet kind i) {w : World}
    (hk : kind w.classes) (h : w.Holds i id c vals) {n : Nat} {p : PropertyDescriptor}
    (hn : c.descriptor.propertyIndex? p.name = some n) (hp : c.descriptor.properties[n]? = some p)
    (hprim : p.kind.isPrimitive = false) (v : Value) :
    kind (setProperty cb i p.name v w).2.classes ∧
      ∃ vals', (setProperty cb i p.name v w).2.Holds i id c vals' ∧ vals'.length = vals.length ∧
        ∀ m, m ≠ n → vals'[m]? = vals[m]? := by
  have hcon (id : ClassId) (init : Option Value) :
      Keeps (World.SparesAmong kind i (· = n)) (cb.construct id init) :=
    (hcb id init).mono fun w w' hs => hs.mono fun _ hf => hf.elim
  have hstore (w : World) (v : Value) : w.SparesAmong kind i (· = n) (w.storeValue i n v) :=
    World.sparesAmong_storeValue (by rfl) w v
  have hrun : w.SparesAmong kind i (· = n) (setProperty cb i p.name v w).2 := by
    unfold setProperty
    rw [bind_of_ok (propertyIndex_holds h hn), bind_of_ok (theClassOf_holds h), hp,
      bind_of_ok (ofOption_some _ _)]
    cases hkind : p.kind with
    | primitive types =>
      rw [hkind] at hprim
      cases hprim
    | slot element => exact keeps_setSlot hstore hcon p.name element v w
    | sequence element => exact keeps_setSequence hcon i n v w
  exact ⟨(hrun hk).1, h.of_spares (hrun hk).2⟩

end Run

end ReactiveView
