import ReactiveView.Proofs.Steps.Kinds
import ReactiveView.Proofs.Upkeep

/-!
# Operations proceed by elementary changes

Whatever is done to an instance or a collection of a sound world, successfully or not, is a sequence of
elementary changes of every kind (`World.ProceedsBy`), as long as this is true of what is called back
(`Callbacks.SteadyBy`). For most parts of an operation this is so because they are upkeep; the others are
treated here: a write checks its value or has it from a binding whose property takes texts
(`steps_writeBinding`), an instance that comes into a slot or a collection has been coerced
(`accepts_coerce`), and a construction ends well when all its first writes have
(`steps_giveInitialState`).
-/

set_option autoImplicit false

namespace ReactiveView

/-- What is called back proceeds by elementary changes and constructs instances of the class asked for. -/
structure Callbacks.Steady (cb : Callbacks) : Prop where
  construct : ∀ id init, Run.Keeps World.Proceeds (cb.construct id init)
  accepts : ∀ id init w i w', w.Sound → cb.construct id init w = (.ok i, w') →
    ∀ name, w'.accepts (.ofClass ⟨id, name⟩) i = true
  script : ∀ frame s, Run.Keeps World.Proceeds (cb.script frame s)
  dispatch : ∀ i name v, Run.Keeps World.Proceeds (cb.dispatch i name v)

variable {S : World → World → Prop}

/-- What is called back proceeds by elementary changes of a kind. -/
structure Callbacks.SteadyBy (S : World → World → Prop) (cb : Callbacks) : Prop where
  construct : ∀ id init, Run.Keeps (World.ProceedsBy S) (cb.construct id init)
  accepts : ∀ id init w i w', w.Sound → cb.construct id init w = (.ok i, w') →
    ∀ name, w'.accepts (.ofClass ⟨id, name⟩) i = true
  script : ∀ frame s, Run.Keeps (World.ProceedsBy S) (cb.script frame s)
  dispatch : ∀ i name v, Run.Keeps (World.ProceedsBy S) (cb.dispatch i name v)

theorem Callbacks.steady_iff {cb : Callbacks} : cb.Steady ↔ cb.SteadyBy World.Step :=
  ⟨fun h => ⟨h.construct, h.accepts, h.script, h.dispatch⟩, fun h => ⟨h.construct, h.accepts, h.script, h.dispatch⟩⟩

instance [IsStepping S] : IsUpkeep (World.ProceedsBy S) where
  quiet w w' hs hc hi hk hn := (World.Step.quiet hs hc hi hk hn).proceedsBy (World.fastens_of_instances hi)
  moves w f hf hputs := (World.Step.moves f hf hputs).proceedsBy (World.fastens_of_instances rfl)
  free w i := (World.Step.record i (fun x => { x with attachment := none })
    fun _ => ⟨rfl, rfl, rfl, rfl, rfl⟩).proceedsBy (World.fastens_modifyInstance rfl i fun _ _ h => by cases h)
  retire w i := (World.Step.record i (fun x => { x with alive := false })
    fun _ => ⟨rfl, rfl, rfl, rfl, rfl⟩).proceedsBy (World.fastens_modifyInstance rfl i fun _ _ h => Or.inl h)
  retireColl w k hw :=
    .single (World.Step.by_instances (.contents k _ (fun _ => ⟨rfl, rfl, rfl, rfl, rfl⟩) (hw.coll k)) rfl)
  retireSpace w n := (World.Step.space n (fun ns => { ns with alive := false })
    fun _ => rfl).proceedsBy (World.fastens_of_instances rfl)
  clear w k := by
    refine (World.Step.contents k (fun y => { y with items := [] }) (fun _ => ⟨rfl, rfl, rfl, rfl, rfl⟩)
      fun _ _ j hj => ?_).proceedsBy (World.fastens_of_instances rfl)
    exact absurd hj List.not_mem_nil

instance : IsUpkeep World.Proceeds := inferInstanceAs (IsUpkeep (World.ProceedsBy World.Step))

namespace Run

open World

variable [IsStepping S] {α β : Type} {w w' : World} {cb : Callbacks} {i : InstanceId}

/-- A part that proceeds from a world, followed by a rest that proceeds after each result of the part. -/
theorem steps_bind_at {x : Run α} {f : α → Run β} (hx : StepsBy S w (x w).2) (hw : w.Sound)
    (hf : ∀ a w', x w = (.ok a, w') → w'.Sound → StepsBy S w w' → StepsBy S w' (f a w').2) :
    StepsBy S w ((x >>= f) w).2 := by
  rcases hrun : x w with ⟨e | a, w'⟩
  · rw [hrun] at hx
    rw [bind_of_error hrun]
    exact hx
  · rw [hrun] at hx
    rw [bind_of_ok hrun]
    exact hx.trans (hf a w' hrun (StepsBy.sound hx hw) hx)

theorem steps_bind {x : Run α} {f : α → Run β} (hx : Keeps (ProceedsBy S) x) (hw : w.Sound)
    (hf : ∀ a w', x w = (.ok a, w') → w'.Sound → StepsBy S w w' → StepsBy S w' (f a w').2) :
    StepsBy S w ((x >>= f) w).2 :=
  steps_bind_at (hx w hw) hw hf

omit [IsStepping S] in
theorem steps_of_keeps {x : Run α} (hx : Keeps (ProceedsBy S) x) (hw : w.Sound) : StepsBy S w (x w).2 := hx w hw

/-- Letting go comes after what the body of a scope does. -/
theorem steps_keeping {keep : α → List Held} {body : Run α} (hw : w.Sound)
    (hbody : StepsBy S w (body w).2) : StepsBy S w (keeping keep body w).2 := by
  have hlet : ProceedsBy S (body w).2 (keeping keep body w).2 :=
    upkeep_trans (upkeep_pins _ _) (upkeep_settle _)
  exact hbody.trans (hlet (StepsBy.sound hbody hw))

/-- An instance is attached, where the place is moored with the sink. -/
theorem proceeds_attachAfter (i : InstanceId) (anchor : NodeId) (a : Attachment) :
    Keeps (ProceedsFrom S a) (attachAfter i anchor a) :=
  .attachAfter (fun _ _ hr _ => upkeep_insertAfter hr anchor) fun _ ha => proceedsBy_setAttachment ha i

theorem proceeds_attachInOrder (a : Attachment) (previous : NodeId) (is : List InstanceId) :
    Keeps (ProceedsFrom S a) (attachInOrder a previous is) :=
  .attachInOrder (fun i _ anchor => proceeds_attachAfter i anchor a) previous

/-! ## Writing primitive values -/

theorem proceeds_tellMutation (hcb : cb.SteadyBy S) (i : InstanceId) (name : String) (old new : Value)
    (l : Listener) : Keeps (ProceedsBy S) (tellMutation cb i name old new l) :=
  (keeps_note _).bind fun _ => (hcb.script _ _).bind fun _ => keeps_pure _

theorem proceeds_announce (hcb : cb.SteadyBy S) (i : InstanceId) (name : String) (old new : Value) :
    Keeps (ProceedsBy S) (announce cb i name old new) :=
  (keeps_theInstance i).bind fun _ => Keeps.forM (proceeds_tellMutation hcb i name old new) _

/-- Writing a primitive property is rendering and storing the value, which goes before telling it. -/
theorem writePrimitive_apply (cb : Callbacks) (hw : w.Sound) {x : Instance} {c : Class} {view : View} {n : Nat}
    {p : PropertyDescriptor} (hx : w.inst? i = some x) (hc : w.class? x.classId = some c)
    (hview : x.view = some view) (hp : c.descriptor.properties[n]? = some p) (v : Value) :
    ∃ old, writePrimitive cb i n p.name v w = announce cb i p.name old v
      ((w.rendered c view.sites[n]? (.property p.name) v.outputText).storeValue i n v) := by
  obtain ⟨old, hold, -⟩ := getElem?_of_forall₂ (hw.fills hx hc).values hp
  refine ⟨old, ?_⟩
  unfold writePrimitive
  rw [bind_of_ok (theClassOf_of hx hc), bind_of_ok (theView_of hx hview)]
  have hrest {w₁ : World} (hx₁ : w₁.inst? i = some x) : (do
      let old ← ofOption (← theInstance i).values[n]?
      update fun w => w.storeValue i n v
      announce cb i p.name old v : Run Unit) w₁ = announce cb i p.name old v (w₁.storeValue i n v) := by
    rw [bind_of_ok (theInstance_of hx₁), hold, bind_of_ok (ofOption_some _ _), bind_of_ok (update_apply _ _)]
  cases view.sites[n]? with
  | none => exact hrest hx
  | some site =>
    cases site with
    | nodes places => exact (bind_of_ok (update_apply _ _)).trans (hrest hx)
    | slot anchor sink => exact hrest hx
    | sequence k => exact hrest hx

section Write

variable {x : Instance} {c : Class} {n : Nat} {p : PropertyDescriptor}
  {types : Option (List PrimitiveType)} {v : Value}

theorem steps_writePrimitive (hcb : cb.SteadyBy S) (hw : w.Sound) (hx : w.inst? i = some x)
    (hc : w.class? x.classId = some c) (hp : c.descriptor.properties[n]? = some p)
    (hkind : p.kind = .primitive types) (hv : Admissible types v) :
    StepsBy S w (writePrimitive cb i n p.name v w).2 := by
  cases hview : x.view with
  | none =>
    unfold writePrimitive
    rw [bind_of_ok (theClassOf_of hx hc)]
    refine steps_bind (keeps_theView i) hw fun view _ hok => ?_
    obtain ⟨⟨y, hy, hyview⟩, -⟩ := theView_eq_ok hok
    rw [hx] at hy
    rw [← Option.some.inj hy, hview] at hyview
    cases hyview
  | some view =>
    obtain ⟨old, heq⟩ := writePrimitive_apply cb hw hx hc hview hp v
    rw [heq]
    have hstep := Step.write hx hc hview hp hkind hv
    have hfastens := fastens_storeValue (instances_rendered w c view.sites[n]? (.property p.name) v.outputText) i n v
    exact .head (IsStepping.of_fastens hstep hfastens) (proceeds_announce hcb i p.name old v _ (hstep.sound hw))

/-- A value that has been written stays admissible. -/
theorem fitsAt_writePrimitive (hcb : cb.SteadyBy S) (hw : w.Sound) (hx : w.inst? i = some x)
    (hc : w.class? x.classId = some c) (hp : c.descriptor.properties[n]? = some p)
    (hkind : p.kind = .primitive types) (hv : Admissible types v)
    (hok : writePrimitive cb i n p.name v w = (.ok (), w')) : w'.FitsAt i n := by
  cases hview : x.view with
  | none =>
    unfold writePrimitive at hok
    rw [bind_of_ok (theClassOf_of hx hc)] at hok
    obtain ⟨view, _, hok, -⟩ := bind_eq_ok_iff.1 hok
    obtain ⟨⟨y, hy, hyview⟩, -⟩ := theView_eq_ok hok
    rw [hx] at hy
    rw [← Option.some.inj hy, hview] at hyview
    cases hyview
  | some view =>
    obtain ⟨old, heq⟩ := writePrimitive_apply cb hw hx hc hview hp v
    rw [heq] at hok
    have hstep := Step.write hx hc hview hp hkind hv
    have hlater := proceeds_announce hcb i p.name old v _ (hstep.sound hw)
    rw [hok] at hlater
    refine hlater.steps.fitsAt ⟨{ x with values := x.values.set n v }, c, p, v, ?_, ?_, hp, ?_, ?_⟩
    · unfold storeValue
      rw [inst?_modifyInstance_self, inst?_rendered, hx]
      rfl
    · exact hstep.grows.cls _ c hc
    · obtain ⟨u, hu, -⟩ := getElem?_of_forall₂ (hw.fills hx hc).values hp
      exact List.getElem?_set_self (List.getElem?_eq_some_iff.1 hu).1
    · rintro types' hkind'
      obtain rfl := PropertyKind.primitive.inj (hkind.symm.trans hkind')
      exact hv

end Write

/-- The class of an instance, the property with a name, and where it stands. -/
theorem exists_of_propertyIndex {name : String} {n : Nat} (hok : propertyIndex i name w = (.ok n, w')) :
    w' = w ∧ ∃ x c p, w.inst? i = some x ∧ w.class? x.classId = some c ∧
      c.descriptor.properties[n]? = some p ∧ p.name = name ∧ c.descriptor.propertyIndex? name = some n := by
  obtain ⟨⟨x, c, hx, hc, hn⟩, rfl⟩ := propertyIndex_eq_ok hok
  obtain ⟨p, hp, hname⟩ := Descriptor.propertyIndex?_some hn
  exact ⟨rfl, x, c, p, hx, hc, hp, hname, hn⟩

theorem exists_of_attributeIndex {name : String} {n : Nat} (hok : attributeIndex i name w = (.ok n, w')) :
    w' = w ∧ ∃ x c a, w.inst? i = some x ∧ w.class? x.classId = some c ∧
      c.descriptor.attributes[n]? = some a ∧ a.name = name ∧
        c.descriptor.attributeIndex? name = some n := by
  obtain ⟨⟨x, c, hx, hc, hn⟩, rfl⟩ := attributeIndex_eq_ok hok
  obtain ⟨a, ha, hname⟩ := Descriptor.attributeIndex?_some hn
  exact ⟨rfl, x, c, a, hx, hc, ha, hname, hn⟩

theorem proceeds_writeBinding (hcb : cb.SteadyBy S) (i : InstanceId) (name : String) :
    Keeps (ProceedsBy S) (writeBinding cb i name) := by
  intro w hw
  refine steps_bind (keeps_propertyIndex i name) hw fun n _ hok _ _ => ?_
  obtain ⟨rfl, x, c, p, hx, hc, hp, rfl, -⟩ := exists_of_propertyIndex hok
  rw [bind_of_ok (theClassOf_of hx hc)]
  obtain ⟨hvalid, hwell, -⟩ := (hw.compiled.parsed hc).spec
  rw [hvalid.property?_name (List.mem_of_getElem? hp), Option.bind_some]
  cases hb : p.binding with
  | none => exact .refl
  | some format =>
    -- a bound property is primitive and takes every text
    obtain ⟨⟨hprim, htext⟩, -⟩ := hwell.bindings p (List.mem_of_getElem? hp) format hb
    obtain ⟨types, hkind⟩ : ∃ types, p.kind = .primitive types := by
      cases hk : p.kind with
      | primitive types => exact ⟨types, rfl⟩
      | slot element => rw [hk] at hprim; cases hprim
      | sequence element => rw [hk] at hprim; cases hprim
    dsimp only
    rw [bind_of_ok (ask_apply _ _)]
    refine steps_writePrimitive hcb hw hx hc hp hkind ⟨rfl, ?_⟩
    rintro ts rfl
    rw [hkind] at htext
    exact List.any_eq_true.2 ⟨.text, htext ts rfl, rfl⟩

theorem proceeds_propagate (hcb : cb.SteadyBy S) (i : InstanceId) (changed : String) :
    Keeps (ProceedsBy S) (propagate cb i changed) :=
  (keeps_theClassOf i).bind fun _ => Keeps.forM (proceeds_writeBinding hcb i) _

theorem proceeds_recomputeBinding (hcb : cb.SteadyBy S) (i : InstanceId) (name : String) :
    Keeps (ProceedsBy S) (recomputeBinding cb i name) :=
  (proceeds_writeBinding hcb i name).bind fun _ => proceeds_propagate hcb i name

/-- A value that passes the check is admissible. -/
theorem admissible_of_checkPrimitive {name : String} {types : Option (List PrimitiveType)} {v : Value}
    {w w' : World} (hok : ofExcept (checkPrimitive name types v) w = (.ok (), w')) :
    Admissible types v ∧ w' = w := by
  obtain ⟨hcheck, rfl⟩ := ofExcept_eq_ok hok
  exact ⟨(checkPrimitive_eq_ok_iff name types v).1 hcheck, rfl⟩

theorem proceeds_setAttribute (i : InstanceId) (name : String) (v : Value) :
    Keeps (ProceedsBy S) (setAttribute i name v) := by
  intro w hw
  refine steps_bind (keeps_attributeIndex i name) hw fun n _ hok _ _ => ?_
  obtain ⟨rfl, x, c, a, hx, hc, ha, rfl, -⟩ := exists_of_attributeIndex hok
  rw [bind_of_ok (theClassOf_of hx hc), ha, bind_of_ok (ofOption_some _ _)]
  refine steps_bind (keeps_ofExcept _) hw fun _ _ hok _ _ => ?_
  obtain ⟨hv, rfl⟩ := admissible_of_checkPrimitive hok
  refine steps_bind (keeps_theView i) hw fun view _ hok _ _ => ?_
  obtain ⟨⟨y, hy, hview⟩, rfl⟩ := theView_eq_ok hok
  obtain rfl := Option.some.inj (hx.symm.trans hy)
  have hattr := Step.attr hx hc hview ha hv
  exact hattr.proceedsBy (fastens_storeAttr (by rfl) i n v) hw

/-- An attribute that has been written holds an admissible value. -/
theorem attrFitsAt_setAttribute (hw : w.Sound) {name : String} {v : Value}
    (hok : setAttribute i name v w = (.ok (), w')) :
    ∃ x c n, w.inst? i = some x ∧ w.class? x.classId = some c ∧
      c.descriptor.attributeIndex? name = some n ∧ w'.AttrFitsAt i n := by
  unfold setAttribute at hok
  obtain ⟨n, _, hindex, hrest⟩ := bind_eq_ok_iff.1 hok
  obtain ⟨rfl, x, c, a, hx, hc, ha, rfl, hn⟩ := exists_of_attributeIndex hindex
  rw [bind_of_ok (theClassOf_of hx hc), ha, bind_of_ok (ofOption_some _ _)] at hrest
  obtain ⟨_, _, hcheck, hstore⟩ := bind_eq_ok_iff.1 hrest
  obtain ⟨hv, rfl⟩ := admissible_of_checkPrimitive hcheck
  obtain ⟨view, _, hview, hupdate⟩ := bind_eq_ok_iff.1 hstore
  obtain ⟨-, rfl⟩ := theView_eq_ok hview
  obtain ⟨-, rfl⟩ := Prod.mk.inj hupdate
  refine ⟨x, c, n, hx, hc, hn, { x with attrValues := x.attrValues.set n v }, c, a, v, ?_, hc, ha, ?_, hv⟩
  · unfold storeAttr
    rw [inst?_modifyInstance_self]
    exact congrArg (Option.map _) hx
  · obtain ⟨u, hu, -⟩ := getElem?_of_forall₂ (hw.fills hx hc).attrs ha
    exact List.getElem?_set_self (List.getElem?_eq_some_iff.1 hu).1

theorem proceeds_setAttributes (i : InstanceId) (values : Dict String Value) :
    Keeps (ProceedsBy S) (setAttributes i values) := by
  refine Keeps.bind (Keeps.forM (fun e => ?_) _) fun _ => Keeps.forM (fun e => ?_) _
  · exact (keeps_attributeIndex i e.1).bind fun _ => keeps_pure _
  · exact proceeds_setAttribute i e.1 e.2

theorem proceeds_setPrimitive (hcb : cb.SteadyBy S) (hw : w.Sound) {x : Instance} {c : Class} {n : Nat}
    {p : PropertyDescriptor} {types : Option (List PrimitiveType)} (hx : w.inst? i = some x)
    (hc : w.class? x.classId = some c) (hp : c.descriptor.properties[n]? = some p)
    (hkind : p.kind = .primitive types) (v : Value) :
    StepsBy S w (setPrimitive cb i n p.name types v w).2 := by
  refine steps_bind (keeps_ofExcept _) hw fun _ w hok _ _ => ?_
  obtain ⟨hv, rfl⟩ := admissible_of_checkPrimitive hok
  have hwrite := steps_writePrimitive hcb hw hx hc hp hkind hv
  exact steps_bind_at hwrite hw fun _ w₁ _ hw₁ _ => proceeds_propagate hcb i p.name w₁ hw₁

theorem fitsAt_setPrimitive (hcb : cb.SteadyBy S) (hw : w.Sound) {x : Instance} {c : Class} {n : Nat}
    {p : PropertyDescriptor} {types : Option (List PrimitiveType)} {v : Value} (hx : w.inst? i = some x)
    (hc : w.class? x.classId = some c) (hp : c.descriptor.properties[n]? = some p)
    (hkind : p.kind = .primitive types) (hok : setPrimitive cb i n p.name types v w = (.ok (), w')) :
    w'.FitsAt i n := by
  unfold setPrimitive at hok
  obtain ⟨_, _, hcheck, hrest⟩ := bind_eq_ok_iff.1 hok
  obtain ⟨hv, rfl⟩ := admissible_of_checkPrimitive hcheck
  obtain ⟨_, w₁, hwrite, hrest⟩ := bind_eq_ok_iff.1 hrest
  have hfits := fitsAt_writePrimitive hcb hw hx hc hp hkind hv hwrite
  have hsteps := steps_writePrimitive hcb hw hx hc hp hkind hv
  rw [hwrite] at hsteps
  have hlater := proceeds_propagate hcb i p.name w₁ (hsteps.sound hw)
  rw [hrest] at hlater
  exact hlater.steps.fitsAt hfits

/-! ## Children -/

theorem proceeds_coerce (hcb : cb.SteadyBy S) (element : ElementType) (v : Value) :
    Keeps (ProceedsBy S) (coerce cb element v) := by
  unfold coerce
  split
  · refine keeps_get.bind fun w => ?_
    split
    · exact keeps_pure _
    · exact keeps_get.bind fun _ => keeps_fail _
  · cases element with
    | any => exact keeps_fail _
    | ofClass ref => exact hcb.construct ref.id _
  · exact keeps_fail _

omit [IsStepping S] in
/-- What a value has been coerced to is accepted. -/
theorem accepts_coerce (hcb : cb.SteadyBy S) (hw : w.Sound) {element : ElementType} {v : Value}
    {j : InstanceId} (hok : coerce cb element v w = (.ok j, w')) : w'.accepts element j = true := by
  unfold coerce at hok
  split at hok
  · next k =>
    rw [bind_of_ok (get_apply _)] at hok
    split at hok
    · next hacc =>
      obtain ⟨hj, rfl⟩ := Prod.mk.inj hok
      obtain rfl := Except.ok.inj hj
      exact hacc
    · cases hok
  · cases element with
    | any => cases hok
    | ofClass ref => exact hcb.accepts ref.id _ w j w' hw hok ref.name
  · cases hok

theorem proceeds_slotChild (hcb : cb.SteadyBy S) (element : ElementType) (v : Value) :
    Keeps (ProceedsBy S) (slotChild cb element v) := by
  unfold slotChild
  split
  · exact keeps_pure _
  · exact (proceeds_coerce hcb element _).map _

omit [IsStepping S] in
theorem accepts_slotChild (hcb : cb.SteadyBy S) (hw : w.Sound) {element : ElementType} {v : Value}
    {child : Option InstanceId} (hok : slotChild cb element v w = (.ok child, w')) :
    ∀ j, child = some j → w'.accepts element j = true := by
  rintro j rfl
  unfold slotChild at hok
  split at hok
  · cases hok
  · rw [← bind_pure_comp] at hok
    obtain ⟨k, w₁, hcoerce, hpure⟩ := bind_eq_ok_iff.1 hok
    obtain ⟨hk, rfl⟩ := Prod.mk.inj hpure
    obtain rfl := Option.some.inj (Except.ok.inj hk)
    exact accepts_coerce hcb hw hcoerce

theorem proceeds_coerceAll (hcb : cb.SteadyBy S) (element : ElementType) (vs : List Value) :
    Keeps (ProceedsBy S) (coerceAll cb element vs) := by
  induction vs with
  | nil => exact keeps_pure _
  | cons v vs ih => exact (proceeds_coerce hcb element v).bind fun _ => ih.bind fun _ => keeps_pure _

theorem accepts_coerceAll (hcb : cb.SteadyBy S) {element : ElementType} {vs : List Value}
    {js : List InstanceId} (hw : w.Sound) (hok : coerceAll cb element vs w = (.ok js, w')) :
    ∀ j ∈ js, w'.accepts element j = true := by
  induction vs generalizing w js with
  | nil =>
    obtain ⟨hjs, -⟩ := Prod.mk.inj hok
    obtain rfl := Except.ok.inj hjs
    intro j hj
    cases hj
  | cons v vs ih =>
    unfold coerceAll at hok
    obtain ⟨i, w₁, hfirst, hrest⟩ := bind_eq_ok_iff.1 hok
    obtain ⟨is, w₂, hothers, hrest⟩ := bind_eq_ok_iff.1 hrest
    obtain ⟨hjs, rfl⟩ := Prod.mk.inj hrest
    obtain rfl := Except.ok.inj hjs
    have hsteps₁ := proceeds_coerce hcb element v w hw
    rw [hfirst] at hsteps₁
    have hsteps₂ := proceeds_coerceAll hcb element vs w₁ (hsteps₁.sound hw)
    rw [hothers] at hsteps₂
    intro j hj
    rcases List.mem_cons.1 hj with rfl | hj
    · exact hsteps₂.grows.accepts (accepts_coerce hcb hw hfirst)
    · exact ih (hsteps₁.sound hw) hothers j hj

theorem proceeds_splice (hcb : cb.SteadyBy S) (k : CollectionId) (start count : Nat) (values : List Value) :
    Keeps (ProceedsBy S) (splice cb k start count values) := by
  refine Keeps.scope fun w hw => ?_
  rw [bind_of_ok (get_apply w)]
  dsimp only
  refine steps_bind (keeps_theCollection k) hw fun coll w hok _ _ => ?_
  obtain ⟨hcoll, rfl⟩ := theCollection_eq_ok hok
  refine steps_bind (proceeds_coerceAll hcb coll.element values) hw fun inserted w₁ hok hw₁ hsteps₁ => ?_
  have hnew := accepts_coerceAll hcb hw hok
  rw [bind_of_ok (ask_apply _ _)]
  refine steps_bind (keeps_checkInserted _ _ _ inserted) hw₁ fun _ w₂ _ hw₂ hsteps₂ => ?_
  refine steps_bind (Keeps.forM keeps_release _) hw₂ fun _ w₃ _ hw₃ hsteps₃ => ?_
  have hgrows₃ := StepsBy.grows (hsteps₂.trans hsteps₃)
  -- the items are old ones, which the collection held, or new ones, which have been coerced
  have hcontents : w₃.Step (w₃.setItems k (spliced (w₁.itemsOf k) (min start (w.itemsOf k).length)
      (min count ((w.itemsOf k).length - min start (w.itemsOf k).length)) inserted)) := by
    refine .contents k _ (fun _ => ⟨rfl, rfl, rfl, rfl, rfl⟩) fun y hy j hj => ?_
    obtain ⟨y₁, hy₁, he₁, -⟩ := (StepsBy.grows hsteps₁).coll k coll hcoll
    obtain ⟨y₃, hy₃, he₃, -⟩ := hgrows₃.coll k y₁ hy₁
    obtain rfl := Option.some.inj (hy.symm.trans hy₃)
    have hitems : w₁.itemsOf k = y₁.items := by
      unfold itemsOf
      rw [hy₁]
    refine hgrows₃.accepts ?_
    rw [he₃]
    rw [hitems] at hj
    rcases List.mem_append.1 hj with hj | hj
    · rcases List.mem_append.1 hj with hj | hj
      · exact hw₁.coll k y₁ hy₁ j (List.mem_of_mem_take hj)
      · rw [he₁]
        exact hnew j hj
    · exact hw₁.coll k y₁ hy₁ j (List.mem_of_mem_drop hj)
  rw [bind_of_ok (update_apply _ _)]
  refine Relation.ReflTransGen.head (hcontents.by_instances rfl) ?_
  refine steps_bind (keeps_nodeBefore _ _ _) (hcontents.sound hw₃) fun node w₄ _ hw₄ hsteps₄ => ?_
  -- the collection has kept its sink
  have hmoors : w₄.Moors ⟨.sequence k, coll.sink⟩ := by
    have hgrows := (((StepsBy.grows hsteps₁).trans hgrows₃).trans hcontents.grows).trans (StepsBy.grows hsteps₄)
    exact Moors.grows ⟨coll.anchor, .sequence hcoll⟩ hgrows
  have hattach := (proceeds_attachInOrder (S := S) ⟨.sequence k, coll.sink⟩ node inserted).bind fun _ =>
    keeps_pure (((w₁.itemsOf k).drop (min start (w.itemsOf k).length)).take
      (min count ((w.itemsOf k).length - min start (w.itemsOf k).length)))
  exact hattach w₄ hmoors hw₄

theorem proceeds_replaceAll (hcb : cb.SteadyBy S) (k : CollectionId) (values : List Value) :
    Keeps (ProceedsBy S) (replaceAll cb k values) :=
  (keeps_ask _).bind fun _ => proceeds_splice hcb k _ _ values

theorem proceeds_push (hcb : cb.SteadyBy S) (k : CollectionId) (v : Value) :
    Keeps (ProceedsBy S) (push cb k v) :=
  (keeps_ask _).bind fun _ => (proceeds_splice hcb k _ _ _).bind fun _ => keeps_ask _

theorem proceeds_unshift (hcb : cb.SteadyBy S) (k : CollectionId) (v : Value) :
    Keeps (ProceedsBy S) (unshift cb k v) :=
  (proceeds_splice hcb k _ _ _).bind fun _ => keeps_ask _

theorem proceeds_pop (hcb : cb.SteadyBy S) (k : CollectionId) : Keeps (ProceedsBy S) (pop cb k) := by
  refine (keeps_ask _).bind fun n => ?_
  cases n with
  | zero => exact keeps_pure _
  | succ n => exact (proceeds_splice hcb k _ _ _).bind fun _ => keeps_pure _

theorem proceeds_shift (hcb : cb.SteadyBy S) (k : CollectionId) : Keeps (ProceedsBy S) (shift cb k) := by
  refine (keeps_ask _).bind fun n => ?_
  cases n with
  | zero => exact keeps_pure _
  | succ n => exact (proceeds_splice hcb k _ _ _).bind fun _ => keeps_pure _

theorem proceeds_insertItem (hcb : cb.SteadyBy S) (k : CollectionId) (position : Nat) (v : Value) :
    Keeps (ProceedsBy S) (insertItem cb k position v) := by
  refine (keeps_ask _).bind fun size => ?_
  dsimp only
  split
  · exact keeps_fail_bind _ _
  · exact (proceeds_splice hcb k _ _ _).bind fun _ => keeps_pure _

theorem proceeds_removeItem (hcb : cb.SteadyBy S) (k : CollectionId) (position : Nat) :
    Keeps (ProceedsBy S) (removeItem cb k position) := by
  refine (keeps_ask _).bind fun size => ?_
  dsimp only
  split
  · exact keeps_fail_bind _ _
  · refine (proceeds_splice hcb k _ _ _).bind fun removed => ?_
    cases removed.getLast? with
    | none => exact keeps_fail _
    | some i => exact keeps_pure _

theorem proceeds_moveItem (hcb : cb.SteadyBy S) (k : CollectionId) (source target : Nat) :
    Keeps (ProceedsBy S) (moveItem cb k source target) := by
  refine (keeps_ask _).bind fun size => ?_
  dsimp only
  split
  · exact keeps_fail_bind _ _
  · split
    · exact (proceeds_removeItem hcb k _).bind fun _ => (proceeds_splice hcb k _ _ _).bind fun _ => keeps_pure _
    · exact keeps_pure _

/-! ## Writing properties -/

section Property

variable {x : Instance} {c : Class} {n : Nat} {p : PropertyDescriptor} {element : ElementType}

theorem proceeds_storeSlot {v : Value} (hx : w.inst? i = some x) (hc : w.class? x.classId = some c)
    (hp : c.descriptor.properties[n]? = some p) (hkind : p.kind = .slot element)
    (hv : v = .null ∨ ∃ j, v = .inst j ∧ w.accepts element j = true) : ProceedsBy S w (w.storeValue i n v) :=
  (Step.slot hx hc hp hkind hv).proceedsBy (fastens_storeValue rfl i n v)

theorem steps_replaceChild (hw : w.Sound) (hx : w.inst? i = some x) (hc : w.class? x.classId = some c)
    (hn : c.descriptor.propertyIndex? p.name = some n) (hp : c.descriptor.properties[n]? = some p)
    (hkind : p.kind = .slot element) {child : Option InstanceId}
    (hchild : ∀ j, child = some j → w.accepts element j = true) :
    StepsBy S w (replaceChild i n p.name child w).2 := by
  refine steps_bind (keeps_theInstance i) hw fun y _ hok _ _ => ?_
  obtain ⟨hy, rfl⟩ := theInstance_eq_ok hok
  obtain rfl := Option.some.inj (hx.symm.trans hy)
  refine steps_bind (keeps_ofOption _) hw fun old _ hok _ _ => ?_
  obtain ⟨-, rfl⟩ := ofOption_eq_ok hok
  split
  · exact .refl
  · refine steps_bind (keeps_theView i) hw fun view _ hok _ _ => ?_
    obtain ⟨⟨y, hy, hview⟩, rfl⟩ := theView_eq_ok hok
    obtain rfl := Option.some.inj (hx.symm.trans hy)
    cases hsite : view.sites[n]? with
    | none => exact .refl
    | some site =>
      cases site with
      | nodes places => exact .refl
      | sequence k => exact .refl
      | slot anchor sink =>
        have hmoors : World.Moors _ ⟨.slot i p.name, sink⟩ := ⟨anchor, .slot hx hc hn hview hsite⟩
        have hattach := Keeps.forM_option (fun j => proceeds_attachAfter (S := S) j anchor ⟨.slot i p.name, sink⟩) child
        refine steps_bind_at (hattach _ hmoors hw) hw fun _ w₁ _ hw₁ hsteps₁ => ?_
        refine steps_bind (Keeps.forM_option keeps_release _) hw₁ fun _ w₂ _ hw₂ hsteps₂ => ?_
        have hgrows := StepsBy.grows (hsteps₁.trans hsteps₂)
        obtain ⟨x₂, hx₂, hid, -⟩ := hgrows.inst i _ hx
        refine (proceeds_storeSlot hx₂ (hid ▸ hgrows.cls _ c hc) hp hkind ?_) hw₂
        cases child with
        | none => exact Or.inl rfl
        | some j => exact Or.inr ⟨j, rfl, hgrows.accepts (hchild j rfl)⟩

theorem steps_setSlot (hcb : cb.SteadyBy S) (hw : w.Sound) (hx : w.inst? i = some x)
    (hc : w.class? x.classId = some c) (hn : c.descriptor.propertyIndex? p.name = some n)
    (hp : c.descriptor.properties[n]? = some p) (hkind : p.kind = .slot element) (v : Value) :
    StepsBy S w (setSlot cb i n p.name element v w).2 := by
  refine steps_keeping hw (steps_bind (proceeds_slotChild hcb element v) hw fun child w₁ hok hw₁ hsteps => ?_)
  have hgrows := StepsBy.grows hsteps
  obtain ⟨x₁, hx₁, hid, -⟩ := hgrows.inst i x hx
  exact steps_replaceChild hw₁ hx₁ (hid ▸ hgrows.cls _ c hc) hn hp hkind (accepts_slotChild hcb hw hok)

theorem proceeds_setSequence (hcb : cb.SteadyBy S) (i : InstanceId) (n : Nat) (v : Value) :
    Keeps (ProceedsBy S) (setSequence cb i n v) := by
  refine Keeps.scope ((keeps_theView i).bind fun view => ?_)
  split
  · split
    · exact (proceeds_replaceAll hcb _ _).bind fun _ => keeps_pure _
    · split
      · exact (keeps_ask _).bind fun _ => (proceeds_replaceAll hcb _ _).bind fun _ => keeps_pure _
      · exact keeps_pure _
    · exact keeps_fail _
  · exact keeps_fail _

end Property

theorem proceeds_setProperty (hcb : cb.SteadyBy S) (i : InstanceId) (name : String) (v : Value) :
    Keeps (ProceedsBy S) (setProperty cb i name v) := by
  intro w hw
  refine steps_bind (keeps_propertyIndex i name) hw fun n w hok _ _ => ?_
  obtain ⟨rfl, x, c, p, hx, hc, hp, rfl, hn⟩ := exists_of_propertyIndex hok
  rw [bind_of_ok (theClassOf_of hx hc), hp, bind_of_ok (ofOption_some _ _)]
  cases hkind : p.kind with
  | primitive types => exact proceeds_setPrimitive hcb hw hx hc hp hkind v
  | slot element => exact steps_setSlot hcb hw hx hc hn hp hkind v
  | sequence element => exact proceeds_setSequence hcb i n v w hw

theorem proceeds_assign (hcb : cb.SteadyBy S) (i : InstanceId) (v : Value) :
    Keeps (ProceedsBy S) (assign cb i v) := by
  unfold assign
  split
  · refine Keeps.bind (Keeps.forM (fun e => ?_) _) fun _ => Keeps.forM (fun e => proceeds_setProperty hcb i _ _) _
    exact (keeps_propertyIndex i e.1).bind fun _ => keeps_pure _
  · exact keeps_fail _

/-! ## Coming and going -/

theorem steps_releaseChild (hcb : cb.SteadyBy S) (hw : w.Sound) {x : Instance} {c : Class} {n : Nat}
    {p : PropertyDescriptor} {v : Value} (hx : w.inst? i = some x) (hc : w.class? x.classId = some c)
    (hp : c.descriptor.properties[n]? = some p) (hv : ∀ j, v = .inst j → ∃ element, p.kind = .slot element) :
    StepsBy S w (releaseChild cb i n v w).2 := by
  unfold releaseChild
  cases v with
  | inst child =>
    obtain ⟨element, hkind⟩ := hv child rfl
    refine steps_bind (keeps_release child).tolerate hw fun _ w₁ _ hw₁ hsteps => ?_
    have hgrows := StepsBy.grows hsteps
    obtain ⟨x₁, hx₁, hid, -⟩ := hgrows.inst i x hx
    exact proceeds_storeSlot hx₁ (hid ▸ hgrows.cls _ c hc) hp hkind (Or.inl rfl) hw₁
  | coll k => exact ((proceeds_replaceAll hcb k []).bind fun _ => keeps_pure _).tolerate w hw
  | _ => exact .refl

theorem proceeds_releaseChildren (hcb : cb.SteadyBy S) (i : InstanceId) :
    Keeps (ProceedsBy S) (releaseChildren cb i) := by
  intro w hw
  refine steps_bind (keeps_theInstance i) hw fun x w hok _ _ => ?_
  obtain ⟨hx, rfl⟩ := theInstance_eq_ok hok
  obtain ⟨c, hc, hfills⟩ := hw.inst i x hx
  -- the values are those of the beginning, and only a slot held an instance then
  have hslot : ∀ e ∈ x.values.zipIdx, ∃ p, c.descriptor.properties[e.2]? = some p ∧
      ∀ j, e.1 = .inst j → ∃ element, p.kind = .slot element := by
    rintro ⟨v, n⟩ he
    have hv : x.values[n]? = some v := List.mem_zipIdx_iff_getElem?.1 he
    have hn : n < c.descriptor.properties.length := by
      rw [hfills.values.length_eq]
      exact (List.getElem?_eq_some_iff.1 hv).1
    refine ⟨_, List.getElem?_eq_getElem hn, fun j hj => ?_⟩
    obtain ⟨v', hv', hsuits⟩ := getElem?_of_forall₂ hfills.values (List.getElem?_eq_getElem hn)
    obtain rfl := Option.some.inj (hv.symm.trans hv')
    dsimp only at hj
    subst hj
    cases hsuits with
    | primitive _ hprim => cases hprim
    | child hkind _ => exact ⟨_, hkind⟩
  have hloop (es : List (Value × Nat)) (hes : ∀ e ∈ es, e ∈ x.values.zipIdx) (w₁ : World)
      (hw₁ : w₁.Sound) (hgrows : w.Grows w₁) :
      StepsBy S w₁ ((es.forM fun e => releaseChild cb i e.2 e.1) w₁).2 := by
    induction es generalizing w₁ with
    | nil => exact .refl
    | cons e es ih =>
      obtain ⟨p, hp, hkind⟩ := hslot e (hes e List.mem_cons_self)
      obtain ⟨x₁, hx₁, hid, -⟩ := hgrows.inst i x hx
      have hfirst := steps_releaseChild hcb hw₁ hx₁ (hid ▸ hgrows.cls _ c hc) hp hkind
      rw [forM_cons]
      refine steps_bind_at hfirst hw₁ fun _ w₂ _ hw₂ hsteps => ?_
      exact ih (fun e he => hes e (List.mem_cons_of_mem _ he)) w₂ hw₂ (hgrows.trans (StepsBy.grows hsteps))
  exact hloop _ (fun _ he => he) w hw .rfl

theorem proceeds_detach (hcb : cb.SteadyBy S) (i : InstanceId) : Keeps (ProceedsBy S) (detach cb i) := by
  refine Keeps.scope (keeps_get.bind fun w => ?_)
  split
  · exact keeps_get.bind fun _ => keeps_fail _
  · split
    · refine keeps_get.bind fun w => ?_
      dsimp only
      split
      · exact keeps_fail_bind _ _
      · refine (keeps_pin _).bind fun _ => keeps_get.bind fun w => ?_
        split
        · exact keeps_fail _
        · exact (proceeds_splice hcb _ _ _ _).bind fun _ => keeps_pure _
    · refine keeps_get.bind fun w => ?_
      dsimp only
      split
      · exact keeps_fail_bind _ _
      · exact (keeps_pin _).bind fun _ => proceeds_setProperty hcb _ _ _

theorem proceeds_attach (hcb : cb.SteadyBy S) (i parent : InstanceId) (name : String) :
    Keeps (ProceedsBy S) (attach cb i parent name) := by
  refine (keeps_propertyIndex parent name).bind fun n => (keeps_theClassOf parent).bind fun c => ?_
  refine (keeps_ofOption _).bind fun p => ?_
  split
  · refine keeps_get.bind fun w => ?_
    dsimp only
    split
    · exact keeps_get.bind fun _ => keeps_fail_bind _ _
    · exact proceeds_setProperty hcb parent name _
  · refine (keeps_getProperty parent name).bind fun v => ?_
    split
    · exact (proceeds_push hcb _ _).bind fun _ => keeps_pure _
    · exact keeps_fail _
  · exact keeps_fail _

end Run

end ReactiveView
