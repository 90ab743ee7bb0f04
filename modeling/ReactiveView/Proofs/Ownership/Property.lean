import ReactiveView.Proofs.Ownership.Splice

/-!
# Writing properties

Between two calls of a program everything in use is held (`World.Settled`). A run that tends an instance
and leaves the world settled, if it was, *closes* on it (`Run.Closing`): scopes do so because they let go at
their end, calm writes because they change nothing that is held. Writing a property of any kind closes on
the instance (`Run.closing_setProperty`), and so does writing several (`Run.closing_assign`).
-/

set_option autoImplicit false

namespace ReactiveView

namespace World

variable {w w' : World} {T i : InstanceId} {c : Class} {H : List InstanceId}

/-- All instances in use are held, by a handle or by a place of an instance in use. -/
def Settled (w : World) : Prop := w.Anchored fun i => w.isAlive i = true

theorem Settled.safe (h : w.Settled) (hi : w.isAlive i = true) : w.Safe i := ⟨_, h, hi⟩

theorem Calm.settled (h : w.Calm w') (hs : w.Settled) : w'.Settled := by
  have hanchored := (h.respects hs).anchored hs
  unfold Settled
  simp only [h.alive]
  exact hanchored

/-- The record of an instance that is tended. -/
theorem Ready.exists_record (h : w.Ready T c H) :
    ∃ y view, w.inst? T = some y ∧ w.class? y.classId = some c ∧ w.Formed T y c view := by
  obtain ⟨y, hy, hc⟩ := exists_of_classOf? h.cls
  obtain ⟨view, hf⟩ := h.orderly.toBuilt.formed hy hc
  exact ⟨y, view, hy, hc, hf⟩

theorem Ready.valid (h : w.Ready T c H) : c.Valid := by
  obtain ⟨y, -, -, hc, -⟩ := h.exists_record
  exact h.orderly.compiled.valid hc

end World

namespace Run

open World

variable {α β : Type} {T : InstanceId} {c : Class} {H : List InstanceId} {w : World}

/-- A scope leaves everything in use held, if what its result refers to is in use. -/
theorem settled_keeping {keep : α → List Held} {m : Run α} {P : α → World → Prop} (h : Yields m w P)
    (hkept : ∀ a w', P a w' → ∀ i ∈ (keep a).filterMap Held.inst?, w'.isAlive i = true) :
    (Run.keeping keep m w).2.Settled := by
  have hps : ∀ i ∈ (keptBy keep (m w).1).filterMap Held.inst?, (m w).2.isAlive i = true := by
    cases hrun : (m w).1 with
    | error e => exact fun i hi => by cases hi
    | ok a => exact hkept a _ (h.result a hrun)
  rw [keeping_apply]
  exact (orderly_letGo h.orderly (h.respects _ w.anchored_empty) hps).1.anchored_settle

/-! ## Closing on an instance -/

theorem Tending.of_ready {m : Run α} (h : w.Ready T c H → Tending T c H m w) : Tending T c H m w :=
  ⟨fun hw => (h hw).tends hw, fun hw => (h hw).unranged hw⟩

/-- The run tends `T`, and everything in use is held afterwards if it was before. -/
structure Closing (T : InstanceId) (c : Class) (H : List InstanceId) (m : Run α) (w : World) : Prop
    extends Tending T c H m w where
  settled : w.Ready T c H → w.Settled → (m w).2.Settled

namespace Closing

variable {m : Run α}

theorem of_same (hrun : (m w).2 = w) (hm : Unranged (m w).1) : Closing T c H m w :=
  ⟨.of_same hrun hm, fun _ hs => by rw [hrun]; exact hs⟩

theorem of_ready (h : w.Ready T c H → Closing T c H m w) : Closing T c H m w :=
  ⟨.of_ready fun hw => (h hw).toTending, fun hw => (h hw).settled hw⟩

theorem bind {f : α → Run β} (hm : Closing T c H m w)
    (hf : ∀ a w', m w = (.ok a, w') → w'.Ready T c H → Closing T c H (f a) w') :
    Closing T c H (m >>= f) w := by
  refine ⟨hm.toTending.bind fun a w' hrun hw' => (hf a w' hrun hw').toTending, fun hw hs => ?_⟩
  have hsettled := hm.settled hw hs
  have hready := hm.tends.ready hw
  rcases hrun : m w with ⟨e | a, w'⟩
  · rw [hrun] at hsettled
    rw [bind_of_error hrun]
    exact hsettled
  · rw [hrun] at hsettled hready
    rw [bind_of_ok hrun]
    exact (hf a w' hrun hready).settled hready hsettled

theorem bind_same {f : α → Run β} {a : α} (hrun : m w = (.ok a, w)) (hf : Closing T c H (f a) w) :
    Closing T c H (m >>= f) w := by
  refine ⟨hf.toTending.bind_same hrun, ?_⟩
  rw [bind_of_ok hrun]
  exact hf.settled

/-- Looking something up first. -/
theorem look {m : Run β} {f : β → Run α} (hm : Keeps Eq m) (hu : Unranged (m w).1)
    (hf : ∀ a, m w = (.ok a, w) → Closing T c H (f a) w) : Closing T c H (m >>= f) w := by
  have hsame : (m w).2 = w := (hm w).symm
  refine bind (of_same hsame hu) fun a w' hrun _ => ?_
  rw [hrun] at hsame
  obtain rfl : w' = w := hsame
  exact hf a hrun

theorem forM {f : β → Run Unit} {as : List β} (hf : ∀ a ∈ as, ∀ w, Closing T c H (f a) w) (w : World) :
    Closing T c H (as.forM f) w := by
  induction as generalizing w with
  | nil => exact of_same rfl (unranged_ok ())
  | cons a as ih =>
    refine bind (hf a List.mem_cons_self w) fun _ w' _ _ => ?_
    exact ih (fun b hb => hf b (List.mem_cons_of_mem a hb)) w'

/-- A scope lets go at its end. -/
theorem keeping {keep : α → List Held} (hm : Tending T c H m w)
    (hkept : ∀ a w', m w = (.ok a, w') → w'.Ready T c H →
      ∀ i ∈ (keep a).filterMap Held.inst?, w'.isAlive i = true) :
    Closing T c H (Run.keeping keep m) w := by
  refine ⟨hm.keeping hkept, fun hw _ => ?_⟩
  have hready := hm.tends.ready hw
  have hps : ∀ i ∈ (keptBy keep (m w).1).filterMap Held.inst?, (m w).2.isAlive i = true := by
    rcases hrun : m w with ⟨e | a, w'⟩
    · exact fun i hi => by cases hi
    · rw [hrun] at hready
      exact hkept a w' hrun hready
  obtain ⟨hw₁, hr₁⟩ := hm.tends hw
  rw [keeping_apply]
  exact (orderly_letGo hw₁ (hr₁ _ w.anchored_empty id).1 hps).1.anchored_settle

theorem inScope (hm : Tending T c H m w) : Closing T c H (Run.inScope m) w :=
  keeping hm fun _ _ _ _ i hi => by cases hi

/-- Calm writes. -/
theorem of_calmAt (hm : Keeps (CalmAt T c) m) (hu : w.Ready T c H → Unranged (m w).1) :
    Closing T c H m w :=
  ⟨.of_calmAt hm hu, fun hw hs => (hm w hw.orderly.toBuilt hw.cls hw.safe.isAlive).settled hs⟩

end Closing

/-! ## Errors of the building blocks -/

theorem unranged_theInstance (i : InstanceId) (w : World) : Unranged (theInstance i w).1 := by
  unfold theInstance
  rw [bind_of_ok (get_apply w)]
  exact unranged_ofOption _ _

theorem unranged_theClassOf (i : InstanceId) (w : World) : Unranged (theClassOf i w).1 := by
  refine (unranged_theInstance i w).bind fun x w' _ => ?_
  unfold theClass
  rw [bind_of_ok (get_apply w')]
  exact unranged_ofOption _ _

theorem unranged_theView (i : InstanceId) (w : World) : Unranged (theView i w).1 := by
  refine (unranged_theInstance i w).bind fun x w' _ => ?_
  cases x.view with
  | some v => exact unranged_ok v
  | none => exact unranged_failed fun h => by cases h

theorem unranged_propertyIndex (i : InstanceId) (name : String) (w : World) :
    Unranged (propertyIndex i name w).1 := by
  refine (unranged_theClassOf i w).bind fun d w' _ => ?_
  cases d.descriptor.propertyIndex? name with
  | some n => exact unranged_ok n
  | none => exact unranged_failed fun h => by cases h

theorem unranged_attributeIndex (i : InstanceId) (name : String) (w : World) :
    Unranged (attributeIndex i name w).1 := by
  refine (unranged_theClassOf i w).bind fun d w' _ => ?_
  cases d.descriptor.attributeIndex? name with
  | some n => exact unranged_ok n
  | none => exact unranged_failed fun h => by cases h

theorem unranged_checkPrimitive (name : String) (types : Option (List PrimitiveType)) (v : Value)
    (w : World) : Unranged (ofExcept (checkPrimitive name types v) w).1 := by
  unfold checkPrimitive
  split
  · split
    · exact unranged_ok _
    · split
      · exact unranged_ok _
      · exact unranged_failed fun h => by cases h
  · exact unranged_failed fun h => by cases h

theorem unranged_setAttribute (i : InstanceId) (name : String) (v : Value) (w : World) :
    Unranged (setAttribute i name v w).1 := by
  refine (unranged_attributeIndex i name w).bind fun n w₁ _ => ?_
  refine (unranged_theClassOf i w₁).bind fun d w₂ _ => ?_
  refine (unranged_ofOption _ w₂).bind fun a w₃ _ => ?_
  refine (unranged_checkPrimitive name a.types v w₃).bind fun _ w₄ _ => ?_
  exact (unranged_theView i w₄).bind fun view w₅ _ => unranged_ok _

/-! ## Primitive properties -/

section Primitive

variable {cb : Callbacks} {n : Nat} {p : PropertyDescriptor} {types : Option (List PrimitiveType)} {v : Value}

/-- Writing a primitive value does not fail, since nobody listens. -/
theorem writePrimitive_ok {y : Instance} (hb : w.Built) (hy : w.inst? T = some y)
    (hc : w.class? y.classId = some c) (hp : c.descriptor.properties[n]? = some p) (name : String) :
    (writePrimitive cb T n name v w).1 = .ok () := by
  obtain ⟨view, hf⟩ := hb.formed hy hc
  have hlt : n < y.values.length := hf.values ▸ (List.getElem?_eq_some_iff.1 hp).1
  have hrest (w₁ : World) (h₁ : w₁.inst? T = some y) : ((do
      let old ← ofOption (← theInstance T).values[n]?
      update fun w => w.storeValue T n v
      announce cb T name old v : Run Unit) w₁).1 = .ok () := by
    rw [bind_of_ok (theInstance_of h₁), List.getElem?_eq_getElem hlt, bind_of_ok (ofOption_some _ _),
      bind_of_ok (update_apply _ _)]
    unfold announce
    rw [bind_of_ok (theInstance_of (inst?_storeValue_self h₁)), hf.unheard]
    rfl
  unfold writePrimitive
  rw [bind_of_ok (theClassOf_of hy hc), bind_of_ok (theView_of hy hf.view)]
  cases hsite : view.sites[n]? with
  | none => exact hrest w hy
  | some site =>
    cases site with
    | nodes places => exact hrest _ hy
    | slot anchor sink => exact hrest w hy
    | sequence k => exact hrest w hy

theorem closing_writePrimitive (hp : c.descriptor.properties[n]? = some p) (hk : p.kind = .primitive types)
    (hv : v.isPrimitive = true) (name : String) : Closing T c H (writePrimitive cb T n name v) w := by
  refine .of_calmAt (bears_calmAt.keeps_writePrimitive hp hk hv name) fun hw => ?_
  obtain ⟨y, -, hy, hc, -⟩ := hw.exists_record
  rw [writePrimitive_ok hw.orderly.toBuilt hy hc hp name]
  exact unranged_ok ()

/-- The class and the position that are looked up for a name. -/
theorem Closing.property {name : String} {f : Nat → Class → Run α}
    (hf : ∀ n p, c.descriptor.properties[n]? = some p → p.name = name → Closing T c H (f n c) w) :
    Closing T c H (do f (← propertyIndex T name) (← theClassOf T)) w := by
  refine .of_ready fun hw => ?_
  obtain ⟨y, -, hy, hc, -⟩ := hw.exists_record
  refine .look (keeps_propertyIndex T name) (unranged_propertyIndex T name w) fun n hn => ?_
  obtain ⟨⟨x, d, hx, hd, hindex⟩, -⟩ := propertyIndex_eq_ok hn
  obtain rfl := Option.some.inj (hx.symm.trans hy)
  obtain rfl := Option.some.inj (hd.symm.trans hc)
  obtain ⟨p, hp, hname⟩ := Descriptor.propertyIndex?_some hindex
  exact .bind_same (theClassOf_of hy hc) (hf n p hp hname)

theorem closing_writeBinding (name : String) : Closing T c H (writeBinding cb T name) w := by
  refine .of_ready fun hw => .property fun n p hp hname => ?_
  obtain rfl := hname
  have hmem := List.mem_of_getElem? hp
  rw [hw.valid.descriptor.property?_name hmem, Option.bind_some]
  cases hbinding : p.binding with
  | none => exact .of_same rfl (unranged_failed fun h => by cases h)
  | some format =>
    have hprim := hw.valid.descriptor.bound_primitive p hmem (by rw [hbinding]; rfl)
    obtain ⟨types, hk⟩ : ∃ types, p.kind = .primitive types := by
      cases hk : p.kind with
      | primitive types => exact ⟨types, rfl⟩
      | slot element => rw [hk] at hprim; cases hprim
      | sequence element => rw [hk] at hprim; cases hprim
    exact .bind_same (ask_apply _ w) (closing_writePrimitive hp hk rfl p.name)

theorem closing_propagate (changed : String) : Closing T c H (propagate cb T changed) w := by
  refine .of_ready fun hw => ?_
  obtain ⟨y, -, hy, hc, -⟩ := hw.exists_record
  exact .bind_same (theClassOf_of hy hc) (.forM (fun name _ w => closing_writeBinding name) w)

theorem closing_recomputeBinding (name : String) : Closing T c H (recomputeBinding cb T name) w :=
  (closing_writeBinding name).bind fun _ _ _ _ => closing_propagate name

theorem closing_setPrimitive (hp : c.descriptor.properties[n]? = some p)
    (hk : p.kind = .primitive types) (name : String) :
    Closing T c H (setPrimitive cb T n name types v) w := by
  refine .look (keeps_ofExcept _) (unranged_checkPrimitive name types v w) fun u hu => ?_
  have hv := ((checkPrimitive_eq_ok_iff name types v).1 (ofExcept_eq_ok hu).1).1
  exact (closing_writePrimitive hp hk hv name).bind fun _ _ _ _ => closing_propagate name

end Primitive

/-! ## Slots and arrays -/

section Element

variable {cb : Callbacks} {n : Nat} {p : PropertyDescriptor} {element : ElementType} {v : Value}

/-- Putting a child into a slot that is in use tends the owner. -/
theorem tending_replaceChild (hp : c.descriptor.properties[n]? = some p) (hk : p.kind = .slot element)
    {child : Option InstanceId} (hchild : ∀ j ∈ child, w.isAlive j = true) :
    Tending T c H (replaceChild T n p.name child) w := by
  refine .of_ready fun hw => ?_
  obtain ⟨y, -, hy, hc, -⟩ := hw.exists_record
  obtain ⟨m, -, ⟨-, w', hrun, hrefills⟩ | ⟨-, e, hkind, hrun⟩⟩ :=
    replaceChild_spec hw.orderly hy hc hp hk hw.safe.isAlive hchild
  · refine ⟨?_, fun _ => ?_⟩
    · rw [hrun]
      exact hrefills.edits.tends hrefills.orderly
    · rw [hrun]
      exact unranged_ok ()
  · refine .of_same (by rw [hrun]) ?_
    rw [hrun]
    exact unranged_failed (by rw [hkind]; exact fun h => by cases h)

theorem yields_slotChild (hcb : cb.Mild) (hw : w.Orderly) (hv : v.instances ⊆ w.handles) :
    Yields (slotChild cb element v) w fun child w' => ∀ j ∈ child, j ∈ w'.handles := by
  have hsome : Yields (some <$> coerce cb element v) w fun child w' => ∀ j ∈ child, j ∈ w'.handles := by
    rw [← bind_pure_comp]
    refine (yields_coerce hcb v hw hv).bind fun i w' ⟨_, hi, _⟩ hw' _ => .of_ok hw' rfl fun j hj => ?_
    obtain rfl := Option.some.inj hj
    exact hi
  cases v with
  | null => exact .of_ok hw rfl fun j hj => by cases hj
  | _ => exact hsome

theorem closing_setSlot (hcb : cb.Mild) (hp : c.descriptor.properties[n]? = some p)
    (hk : p.kind = .slot element) (hv : v.instances ⊆ H) :
    Closing T c H (setSlot cb T n p.name element v) w := by
  refine .of_ready fun hw => .inScope ?_
  have hyields : Yields (slotChild cb element v) w _ :=
    yields_slotChild hcb hw.orderly (List.Subset.trans hv hw.handles)
  refine (Yields.tending fun _ => hyields).bind fun child w' hrun hw' => ?_
  have hchild := hyields.result child
  rw [hrun] at hchild
  exact tending_replaceChild hp hk fun j hj => hw'.orderly.handled j (hchild rfl j hj)

/-- What is known of an array property: its site and its collection. -/
theorem exists_collection (hw : w.Ready T c H) (hp : c.descriptor.properties[n]? = some p)
    (hk : p.kind = .sequence element) :
    ∃ y view k x, w.inst? T = some y ∧ y.view = some view ∧ view.sites[n]? = some (.sequence k) ∧
      y.values[n]? = some (.coll k) ∧ w.coll? k = some x ∧ x.owner = T ∧ x.element = element := by
  obtain ⟨y, view, hy, hc, hf⟩ := hw.exists_record
  obtain ⟨k, x, hsite, hval, hcoll⟩ := hf.exists_sequence hp hk
  exact ⟨y, view, k, x, hy, hf.view, hsite, hval, hcoll⟩

theorem closing_splice (hw : w.Ready T c H) {k : CollectionId} {x : Collection} (hx : w.coll? k = some x)
    (howner : x.owner = T) {values : List Value} (hcoerce : Coerces cb x.element values w)
    (start count : Nat) : Closing T c H (splice cb k start count values) w := by
  subst howner
  obtain ⟨htends, -, halive, hsplices⟩ := spliceBody_spec hw.orderly hx hw.safe hcoerce start count
  rw [splice_eq]
  refine .keeping ⟨htends, fun _ => hsplices.unranged hcoerce.unranged⟩ fun removed w' hrun _ i hi => ?_
  rw [filterMap_inst?_map_inst] at hi
  have halive := halive removed
  rw [hrun] at halive
  exact halive rfl i hi

/-- Without values nothing is constructed. -/
theorem coerces_nil (hw : w.Orderly) : Coerces cb element [] w := by
  refine .of_ok (a := []) hw rfl ⟨.nil, fun i hi => ?_⟩
  cases hi

theorem closing_replaceAll (hw : w.Ready T c H) {k : CollectionId} {x : Collection}
    (hx : w.coll? k = some x) (howner : x.owner = T) {values : List Value}
    (hcoerce : Coerces cb x.element values w) : Closing T c H (replaceAll cb k values) w :=
  .bind_same (ask_apply _ w) (closing_splice hw hx howner hcoerce 0 _)

theorem closing_setSequence (hcb : cb.Mild) (hp : c.descriptor.properties[n]? = some p)
    (hk : p.kind = .sequence element) (hv : v.instances ⊆ H) :
    Closing T c H (setSequence cb T n v) w := by
  refine .of_ready fun hw => .inScope ?_
  obtain ⟨y, view, k, x, hy, hview, hsite, -, hx, howner, -⟩ := exists_collection hw hp hk
  refine .bind_same (theView_of hy hview) ?_
  rw [hsite]
  have hdone {m : Run (List InstanceId)} (hm : Tending T c H m w) :
      Tending T c H (m >>= fun _ => pure ()) w := hm.bind fun _ _ _ _ => .pure ()
  cases v with
  | array items =>
    have hitems := List.Subset.trans hv hw.handles
    exact hdone (closing_replaceAll hw hx howner (coerces_of_handles hcb hw.orderly hitems)).toTending
  | coll other =>
    dsimp only
    split
    · -- the items of the other collection are in use, though no handle need refer to them
      refine .bind_same (ask_apply _ w) (hdone ?_)
      refine (closing_replaceAll hw hx howner (coerces_of_alive ?_ hw.orderly)).toTending
      exact fun i hi => Layout.Linked.live_item hw.orderly.linked i (.sequence other) hi
    · exact .pure ()
  | _ => exact .fail fun h => by cases h

end Element

/-! ## Properties of any kind -/

variable {cb : Callbacks} (hcb : cb.Mild) {v : Value}

include hcb

theorem closing_setProperty (name : String) (hv : v.instances ⊆ H) :
    Closing T c H (setProperty cb T name v) w := by
  refine .property fun n p hp hname => ?_
  subst hname
  rw [hp]
  refine .bind_same (ofOption_some _ w) ?_
  cases hk : p.kind with
  | primitive types => exact closing_setPrimitive hp hk p.name
  | slot element => exact closing_setSlot hcb hp hk hv
  | sequence element => exact closing_setSequence hcb hp hk hv

theorem closing_assign (hv : v.instances ⊆ H) : Closing T c H (assign cb T v) w := by
  cases v with
  | object fields =>
    refine (Closing.forM (fun e _ w => ?_) w).bind fun _ w' _ _ => .forM (fun e he w => ?_) w'
    · exact .look (keeps_propertyIndex T e.1) (unranged_propertyIndex T e.1 w) fun n _ =>
        .of_same rfl (unranged_ok ())
    · exact closing_setProperty hcb e.1 (List.Subset.trans (Value.instances_subset_fields he) hv)
  | _ => exact .of_same rfl (unranged_failed fun h => by cases h)

end Run

end ReactiveView
