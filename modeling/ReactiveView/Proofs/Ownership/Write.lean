import ReactiveView.Proofs.Frame
import ReactiveView.Proofs.Ownership.State

/-!
# Writing primitive values

Rendering changes texts and attributes of nodes, storing a primitive value changes no place, and nobody
listens: so writing attributes and primitive properties changes neither places nor uses (`World.Calm`).
For the writes of properties this holds in worlds whose records fit, with the class of the instance that
is written to; `World.CalmAt` is the relation that such runs keep. What the writes of properties do step by
step is gone through once, for every relation that bears it (`World.Bears`).
-/

set_option autoImplicit false

namespace ReactiveView

namespace World

variable {w w' : World} {T : InstanceId} {c : Class}

instance : IsPreorder World Calm where
  refl _ := .rfl
  trans _ _ _ h h' := h.trans h'

/-- A change of the screen that keeps the links is calm. -/
theorem calm_mapScreen {f : Screen → Screen} (hf : w.screen.forest.SameLinks (f w.screen).forest) :
    w.Calm (w.mapScreen f) where
  built hb := hb.congr ⟨rfl, fun _ => rfl, fun _ => rfl, fun _ => rfl⟩ (fun _ => rfl) hb.collAlive
    fun _ => List.Subset.refl _
  shape := ⟨rfl, fun _ => rfl, fun _ => rfl, fun _ => rfl⟩
  alive _ := rfl
  place _ := rfl
  occupants := rfl
  links := hf
  handles := ⟨rfl, rfl⟩

/-- A change of an instance that concerns neither its places nor its values nor its use is calm. -/
theorem calm_modifyInstance (w : World) (i : InstanceId) {f : Instance → Instance}
    (hshape : ∀ x, (f x).shape = x.shape) (halive : ∀ x, (f x).alive = x.alive)
    (hvalues : ∀ x, (f x).values = x.values) (hattachment : ∀ x, (f x).attachment = x.attachment) :
    w.Calm (w.modifyInstance i f) := by
  have hshape := sameShape_modifyInstance w i hshape
  have halive := map_inst?_modifyInstance (·.alive) halive w i
  have hvalues := map_inst?_modifyInstance (·.values) hvalues w i
  refine ⟨fun hb => ?_, hshape, fun j => isAlive_congr (halive j), fun j => ?_, ?_, .rfl, ⟨rfl, rfl⟩⟩
  · refine hb.congr hshape hvalues (fun d x hx hd => ?_) fun _ => List.Subset.refl _
    rw [isAlive_congr (halive _)] at hd
    exact hb.collAlive d x hx hd
  · exact placeOf?_congr (map_inst?_modifyInstance (·.attachment) hattachment w i j)
  · exact occupants_congr hshape halive hvalues fun _ => rfl

theorem calm_storeAttr (w : World) (i : InstanceId) (n : Nat) (v : Value) : w.Calm (w.storeAttr i n v) :=
  calm_modifyInstance w i (fun _ => rfl) (fun _ => rfl) (fun _ => rfl) fun _ => rfl

/-! ## Storing a value -/

section Store

variable {x : Instance} {n : Nat} {p : PropertyDescriptor} {v : Value} (hb : w.Built)
  (hx : w.inst? T = some x) (hc : w.class? x.classId = some c)
  (hp : c.descriptor.properties[n]? = some p)

theorem sameShape_storeValue (w : World) (T : InstanceId) (n : Nat) (v : Value) :
    w.SameShape (w.storeValue T n v) :=
  sameShape_modifyInstance w T fun _ => rfl

theorem map_inst?_storeValue {β : Type} (g : Instance → β)
    (hg : ∀ (y : Instance) (vals : List Value), g { y with values := vals } = g y) (w : World)
    (T : InstanceId) (n : Nat) (v : Value) (j : InstanceId) :
    ((w.storeValue T n v).inst? j).map g = (w.inst? j).map g :=
  map_inst?_modifyInstance g (fun y => hg y (y.values.set n v)) w T j

theorem isAlive_storeValue (w : World) (T : InstanceId) (n : Nat) (v : Value) (j : InstanceId) :
    (w.storeValue T n v).isAlive j = w.isAlive j :=
  isAlive_congr (map_inst?_storeValue (·.alive) (fun _ _ => rfl) w T n v j)

theorem placeOf?_storeValue (w : World) (T : InstanceId) (n : Nat) (v : Value) (j : InstanceId) :
    (w.storeValue T n v).placeOf? j = w.placeOf? j :=
  placeOf?_congr (map_inst?_storeValue (·.attachment) (fun _ _ => rfl) w T n v j)

include hx in
theorem inst?_storeValue_self :
    (w.storeValue T n v).inst? T = some { x with values := x.values.set n v } := by
  unfold storeValue
  rw [inst?_modifyInstance_self, hx, Option.map_some]

theorem inst?_storeValue_of_ne (w : World) (n : Nat) (v : Value) {j : InstanceId} (h : j ≠ T) :
    (w.storeValue T n v).inst? j = w.inst? j :=
  inst?_modifyInstance_of_ne w _ (Ne.symm h)

/-! ### Records that fit -/

section Record

variable {view : View} (hf : w.Formed T x c view)

include hf hp

/-- A value that fits where the old one fitted leaves a record that fits. -/
theorem Formed.storeValue (hfit : ∀ s old, w.Fits T p.kind s old → w.Fits T p.kind s v) :
    (w.storeValue T n v).Formed T { x with values := x.values.set n v } c view := by
  have hext := Extends.of_sameShape (sameShape_storeValue w T n v)
  refine ⟨hf.cls, hf.view, hf.sites, ?_, hf.unheard, fun m q s val hq hs hval => ?_⟩
  · rw [List.length_set, hf.values]
  · by_cases hmn : m = n
    · subst hmn
      obtain rfl := Option.some.inj (hq.symm.trans hp)
      have hlt : m < x.values.length := hf.values ▸ (List.getElem?_eq_some_iff.1 hp).1
      rw [List.getElem?_set_self hlt] at hval
      obtain rfl := Option.some.inj hval
      have hold := hf.fits m q s _ hq hs (List.getElem?_eq_getElem hlt)
      exact (hfit s _ hold).congr hext
    · rw [List.getElem?_set_ne (Ne.symm hmn)] at hval
      exact (hf.fits m q s val hq hs hval).congr hext

/-- A collection stays among the values, since its position is that of an array property. -/
theorem Formed.coll_mem_storeValue (hk : ∀ element, p.kind ≠ .sequence element) {d : CollectionId}
    (hd : Value.coll d ∈ x.values) : Value.coll d ∈ x.values.set n v := by
  obtain ⟨m, hm⟩ := List.mem_iff_getElem?.1 hd
  have hmn : m ≠ n := by
    rintro rfl
    obtain ⟨q, s, hq, -, hfits⟩ := hf.exists_fits hm
    obtain rfl := Option.some.inj (hq.symm.trans hp)
    generalize hkind : q.kind = k at hfits
    cases hfits with
    | primitive hprim => cases hprim
    | sequence => exact hk _ hkind
  refine List.mem_of_getElem? (i := m) ?_
  rw [List.getElem?_set_ne (Ne.symm hmn), hm]

/-- A property has a site and a value that fit its kind. -/
theorem Formed.exists_site :
    ∃ site val, view.sites[n]? = some site ∧ x.values[n]? = some val ∧ w.Fits T p.kind site val := by
  have hlt : n < c.descriptor.properties.length := (List.getElem?_eq_some_iff.1 hp).1
  have hsite := List.getElem?_eq_getElem (hf.sites ▸ hlt)
  have hval := List.getElem?_eq_getElem (hf.values ▸ hlt)
  exact ⟨_, _, hsite, hval, hf.fits n p _ _ hp hsite hval⟩

/-- What is known of an array property: its site and its collection. -/
theorem Formed.exists_sequence {element : ElementType} (hk : p.kind = .sequence element) :
    ∃ k y, view.sites[n]? = some (.sequence k) ∧ x.values[n]? = some (.coll k) ∧ w.coll? k = some y ∧
      y.owner = T ∧ y.element = element := by
  obtain ⟨site, val, hsite, hval, hfits⟩ := hf.exists_site hp
  rw [hk] at hfits
  cases hfits with
  | sequence hy howner helement => exact ⟨_, _, hsite, hval, hy, howner, helement⟩

include hx

/-- The values after one has been stored. -/
theorem Formed.stored?_storeValue_eq (hvalid : c.Valid) (name : String) :
    (w.storeValue T n v).stored? T name = c.valueIn (c.put x.values p.name v) name := by
  unfold stored? Class.put
  rw [inst?_storeValue_self hx, hvalid.descriptor.propertyIndex?_name hp, Option.bind_some]
  change ((w.class? x.classId).bind _) = _
  rw [hf.cls, Option.bind_some]

theorem Formed.stored?_storeValue_self (hvalid : c.Valid) :
    (w.storeValue T n v).stored? T p.name = some v := by
  rw [hf.stored?_storeValue_eq hx hp hvalid]
  refine Class.valueIn_put_self ?_
  unfold Class.valueIn
  rw [hvalid.descriptor.propertyIndex?_name hp, Option.bind_some,
    List.getElem?_eq_getElem (hf.values ▸ (List.getElem?_eq_some_iff.1 hp).1)]
  rfl

theorem Formed.stored?_storeValue_of_ne (hvalid : c.Valid) {P : InstanceId} {name : String}
    (hne : Place.slot P name ≠ .slot T p.name) : (w.storeValue T n v).stored? P name = w.stored? P name := by
  by_cases hP : P = T
  · subst hP
    rw [hf.stored?_storeValue_eq hx hp hvalid, Class.valueIn_put_of_ne fun h => hne (congrArg _ h)]
    unfold stored?
    rw [hx, Option.bind_some, hf.cls, Option.bind_some]
  · unfold stored?
    rw [inst?_storeValue_of_ne w n v hP]
    rfl

/-- Storing a value changes what stands in the slot of this name. -/
theorem Formed.occupants_storeValue (hvalid : c.Valid) (halive : w.isAlive T = true) :
    (w.storeValue T n v).occupants = Function.update w.occupants (.slot T p.name) v.inst?.toList := by
  funext pl
  cases pl with
  | sequence d => rw [Function.update_of_ne (by intro h; cases h)]; rfl
  | slot P name =>
    unfold occupants
    dsimp only
    rw [isAlive_storeValue]
    by_cases hpl : Place.slot P name = .slot T p.name
    · obtain ⟨rfl, rfl⟩ := Place.slot.inj hpl
      rw [Function.update_self, halive, if_pos rfl, hf.stored?_storeValue_self hx hp hvalid, Option.bind_some]
    · rw [Function.update_of_ne hpl, hf.stored?_storeValue_of_ne hx hp hvalid hpl]

/-- What is known of a slot: its site, its value and its occupants. -/
theorem Formed.exists_slot (hvalid : c.Valid) (halive : w.isAlive T = true) {element : ElementType}
    (hk : p.kind = .slot element) :
    ∃ m sink val, view.sites[n]? = some (.slot m sink) ∧ x.values[n]? = some val ∧
      w.occupants (.slot T p.name) = val.inst?.toList ∧ w.layout.spot (.slot T p.name) = some (T, m) := by
  have hindex := hvalid.descriptor.propertyIndex?_name hp
  obtain ⟨site, val, hsite, hval, hfits⟩ := hf.exists_site hp
  obtain ⟨m, sink, rfl⟩ : ∃ m sink, site = .slot m sink := by
    rw [hk] at hfits
    cases hfits with
    | empty => exact ⟨_, _, rfl⟩
    | child => exact ⟨_, _, rfl⟩
  refine ⟨m, sink, val, hsite, hval, ?_, ?_⟩
  · unfold occupants stored? Class.valueIn
    dsimp only
    rw [halive, if_pos rfl, hx, Option.bind_some, hf.cls, Option.bind_some, hindex, Option.bind_some, hval,
      Option.bind_some]
  · change (w.slotMarker? T p.name).map (fun m => (T, m)) = _
    unfold slotMarker?
    rw [hx, Option.bind_some, hf.cls, Option.bind_some, hindex, Option.bind_some, hf.view, Option.bind_some,
      hsite]
    rfl

/-- Nobody stands in the slot of a primitive property. -/
theorem Formed.occupants_primitive (hvalid : c.Valid) {types : Option (List PrimitiveType)}
    (hk : p.kind = .primitive types) : w.occupants (.slot T p.name) = [] := by
  refine List.eq_nil_iff_forall_not_mem.2 fun i hi => ?_
  obtain ⟨y, c', m, hy, hc', hm, hval⟩ := exists_of_stored? (mem_occupants_slot.1 hi).2
  obtain rfl := Option.some.inj (hy.symm.trans hx)
  obtain rfl := Option.some.inj (hc'.symm.trans hf.cls)
  obtain ⟨q, s, hq, -, hfits⟩ := hf.exists_fits hval
  rw [hvalid.descriptor.propertyIndex?_name hp] at hm
  obtain rfl := Option.some.inj hm
  obtain rfl := Option.some.inj (hq.symm.trans hp)
  rw [hk] at hfits
  cases hfits with
  | primitive h => cases h

end Record

/-! ### Worlds whose records fit -/

include hb hx hc

/-- The class of a record that fits is the class that its identity names. -/
theorem Built.formed : ∃ view, w.Formed T x c view := by
  obtain ⟨c', view, hf⟩ := hb.inst T x hx
  obtain rfl := Option.some.inj (hf.cls.symm.trans hc)
  exact ⟨view, hf⟩

include hp

/-- A value that fits where the old one fitted leaves a world whose records fit. -/
theorem Built.storeValue (hk : ∀ element, p.kind ≠ .sequence element)
    (hfit : ∀ s old, w.Fits T p.kind s old → w.Fits T p.kind s v) : (w.storeValue T n v).Built := by
  obtain ⟨view, hf⟩ := hb.formed hx hc
  have hext := Extends.of_sameShape (sameShape_storeValue w T n v)
  refine ⟨hb.compiled, hb.plain, ?_, ?_, ?_, ?_, hb.noObjects⟩
  · intro P y hy
    by_cases hP : P = T
    · subst hP
      obtain rfl := Option.some.inj (hy.symm.trans (inst?_storeValue_self hx))
      exact ⟨c, view, hf.storeValue hp hfit⟩
    · rw [inst?_storeValue_of_ne w n v hP] at hy
      obtain ⟨c', v', hf'⟩ := hb.inst P y hy
      exact ⟨c', v', hf'.congr hext rfl rfl⟩
  · intro d y hy
    obtain ⟨z, hz, hmem⟩ := hb.coll d y hy
    by_cases howner : y.owner = T
    · rw [howner] at hz ⊢
      obtain rfl := Option.some.inj (hz.symm.trans hx)
      exact ⟨_, inst?_storeValue_self hx, hf.coll_mem_storeValue hp hk hmem⟩
    · exact ⟨z, (inst?_storeValue_of_ne w n v howner).trans hz, hmem⟩
  · intro d y hy halive
    rw [isAlive_storeValue] at halive
    exact hb.collAlive d y hy halive
  · intro d y i hy hi
    exact hext.accepts (hb.accepted d y i hy hi)

/-- Storing a value changes what stands in the slot of this name. -/
theorem Built.occupants_storeValue (halive : w.isAlive T = true) :
    (w.storeValue T n v).occupants = Function.update w.occupants (.slot T p.name) v.inst?.toList := by
  obtain ⟨view, hf⟩ := hb.formed hx hc
  exact hf.occupants_storeValue hx hp (hb.compiled.valid hc) halive

/-- Storing a primitive value is calm. -/
theorem Built.calm_storeValue {types : Option (List PrimitiveType)} (hk : p.kind = .primitive types)
    (hv : v.isPrimitive = true) (halive : w.isAlive T = true) : w.Calm (w.storeValue T n v) := by
  obtain ⟨view, hf⟩ := hb.formed hx hc
  refine ⟨fun _ => ?_, sameShape_storeValue w T n v, isAlive_storeValue w T n v, placeOf?_storeValue w T n v,
    ?_, .rfl, ⟨rfl, rfl⟩⟩
  · refine hb.storeValue hx hc hp (fun element h => ?_) fun s old hold => ?_
    · rw [hk] at h
      cases h
    · rw [hk] at hold ⊢
      cases hold with
      | primitive => exact .primitive hv
  · have hempty := hf.occupants_primitive hx hp (hb.compiled.valid hc) hk
    have hnone : v.inst? = none := by
      cases v <;> first | rfl | cases hv
    rw [hb.occupants_storeValue hx hc hp halive, hnone, Option.toList_none, ← hempty,
      Function.update_eq_self]

end Store

/-- From a world whose records fit, with `T` in use and of the class `c`, the change is calm. -/
def CalmAt (T : InstanceId) (c : Class) (w w' : World) : Prop :=
  w.Built → w.classOf? T = some c → w.isAlive T = true → w.Calm w'

theorem Calm.classOf? (h : w.Calm w') (hc : w.classOf? T = some c) : w'.classOf? T = some c :=
  (Extends.of_sameShape h.shape).classOf? hc

instance : IsPreorder World (CalmAt T c) where
  refl _ _ _ _ := .rfl
  trans a b d hab hbd hb hc halive := by
    have h := hab hb hc halive
    exact h.trans (hbd (h.built hb) (h.classOf? hc) ((h.alive T).trans halive))

theorem exists_of_classOf? (hc : w.classOf? T = some c) :
    ∃ x, w.inst? T = some x ∧ w.class? x.classId = some c :=
  Option.bind_eq_some_iff.1 hc

/-- A relation that primitive writes to `T`, an instance of the class `c`, stand in. -/
structure Bears (R : World → World → Prop) (T : InstanceId) (c : Class) : Prop where
  formed : ∀ w w', (∀ x view, w.inst? T = some x → w.Formed T x c view → R w w') → R w w'
  render : ∀ w f, w.screen.forest.SameLinks (f w.screen).forest → R w (w.mapScreen f)
  store : ∀ w n p types v, c.descriptor.properties[n]? = some p → p.kind = .primitive types →
    v.isPrimitive = true → R w (w.storeValue T n v)

theorem bears_calmAt : Bears (CalmAt T c) T c where
  formed w w' h hb hc halive := by
    obtain ⟨x, hx, hcx⟩ := exists_of_classOf? hc
    obtain ⟨view, hf⟩ := hb.formed hx hcx
    exact h x view hx hf hb hc halive
  render w f hf _ _ _ := calm_mapScreen hf
  store w n p types v hp hk hv hb hc halive := by
    obtain ⟨x, hx, hcx⟩ := exists_of_classOf? hc
    exact hb.calm_storeValue hx hcx hp hk hv halive

end World

namespace Run

open World

variable {cb : Callbacks} {T : InstanceId} {c : Class}

theorem keeps_calm_setAttribute (i : InstanceId) (name : String) (v : Value) :
    Keeps World.Calm (setAttribute i name v) := by
  refine (keeps_attributeIndex i name).bind fun n => (keeps_theClassOf i).bind fun c => ?_
  refine (keeps_ofOption _).bind fun a => (keeps_ofExcept _).bind fun _ => ?_
  refine (keeps_theView i).bind fun view w => ?_
  have hrender : w.Calm (w.renderIn c (view.attributeNodes[n]?.getD []) (.attr name) v.outputText) :=
    calm_mapScreen (Screen.sameLinks_render _ _ _ _ _)
  have hset (w : World) :
      w.Calm (w.mapForest fun f => f.setAttr view.root (dataName name) v.outputText) :=
    calm_mapScreen (Forest.sameLinks_setAttr _ _ _ _)
  exact hrender.trans ((hset _).trans (calm_storeAttr _ i n v))

theorem keeps_calm_flushQueue (q : QueueId) : Keeps World.Calm (flushQueue q) := by
  intro w
  exact calm_mapScreen (f := fun s => (s.flush q).2) (w.screen.sameLinks_flush q)

end Run

namespace World.Bears

open Run

variable {R : World → World → Prop} [IsPreorder World R] {T : InstanceId} {c : Class} (hR : Bears R T c)
  {cb : Callbacks} {n : Nat} {p : PropertyDescriptor} {types : Option (List PrimitiveType)} {v : Value}

include hR

theorem keeps_announce (name : String) (old v : Value) : Keeps R (announce cb T name old v) := by
  refine fun w => hR.formed _ _ fun x view hx hf => ?_
  have hsame : announce cb T name old v w = (.ok (), w) := by
    unfold announce
    rw [bind_of_ok (theInstance_of hx), hf.unheard]
    rfl
  rw [hsame]
  exact refl w

theorem keeps_writePrimitive (hp : c.descriptor.properties[n]? = some p) (hk : p.kind = .primitive types)
    (hv : v.isPrimitive = true) (name : String) : Keeps R (writePrimitive cb T n name v) := by
  refine (keeps_theClassOf T).bind fun d => (keeps_theView T).bind fun view => ?_
  have hrest : Keeps R (do
      let old ← ofOption (← theInstance T).values[n]?
      update fun w => w.storeValue T n v
      announce cb T name old v : Run Unit) := by
    refine (keeps_theInstance T).bind fun x => (keeps_ofOption _).bind fun old => ?_
    exact Keeps.bind (fun w => hR.store w n p types v hp hk hv) fun _ => hR.keeps_announce name old v
  split
  · next places _ =>
    refine Keeps.bind (fun w => ?_) fun _ => hrest
    exact hR.render w (fun s => s.render d.queue places (.property name) v.outputText)
      (Screen.sameLinks_render _ _ _ _ _)
  · exact hrest

theorem keeps_writeBinding (hvalid : c.Valid) (name : String) : Keeps R (writeBinding cb T name) := by
  refine fun w => hR.formed _ _ fun x view hx hf => ?_
  have hclass := theClassOf_of hx hf.cls
  unfold writeBinding propertyIndex
  rw [bind_apply, bind_of_ok hclass]
  cases hn : c.descriptor.propertyIndex? name with
  | none => exact refl w
  | some n =>
    obtain ⟨p, hp, rfl⟩ := Descriptor.propertyIndex?_some hn
    have hmem := List.mem_of_getElem? hp
    dsimp only
    rw [pure_apply]
    dsimp only
    rw [bind_of_ok hclass, hvalid.descriptor.property?_name hmem, Option.bind_some]
    cases hbinding : p.binding with
    | none => exact refl w
    | some format =>
      have hprim := hvalid.descriptor.bound_primitive p hmem (by rw [hbinding]; rfl)
      obtain ⟨types, hk⟩ : ∃ types, p.kind = .primitive types := by
        cases hk : p.kind with
        | primitive types => exact ⟨types, rfl⟩
        | slot element => rw [hk] at hprim; cases hprim
        | sequence element => rw [hk] at hprim; cases hprim
      dsimp only
      rw [bind_of_ok (ask_apply _ _)]
      exact hR.keeps_writePrimitive hp hk rfl p.name w

theorem keeps_propagate (hvalid : c.Valid) (changed : String) : Keeps R (propagate cb T changed) :=
  (keeps_theClassOf T).bind fun _ => Keeps.forM (hR.keeps_writeBinding hvalid) _

theorem keeps_recomputeBinding (hvalid : c.Valid) (name : String) : Keeps R (recomputeBinding cb T name) :=
  (hR.keeps_writeBinding hvalid name).bind fun _ => hR.keeps_propagate hvalid name

theorem keeps_setPrimitive (hvalid : c.Valid) (hp : c.descriptor.properties[n]? = some p)
    (hk : p.kind = .primitive types) (v : Value) : Keeps R (setPrimitive cb T n p.name types v) := by
  cases hcheck : checkPrimitive p.name types v with
  | error e =>
    intro w
    rw [setPrimitive_of_error cb hcheck]
    exact refl w
  | ok _ =>
    have hv := ((checkPrimitive_eq_ok_iff p.name types v).1 hcheck).1
    exact (keeps_ofExcept _).bind fun _ =>
      (hR.keeps_writePrimitive hp hk hv p.name).bind fun _ => hR.keeps_propagate hvalid p.name

end World.Bears

end ReactiveView
