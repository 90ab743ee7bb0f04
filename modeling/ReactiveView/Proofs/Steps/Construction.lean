import ReactiveView.Proofs.Binding.Construction
import ReactiveView.Proofs.Steps.Elements
import ReactiveView.Proofs.Steps.Operations

/-!
# Construction and delivery proceed by elementary changes

A construction makes an instance, writes its attributes and properties, recomputes bound properties and
runs constructors. Once all first writes have ended well, every primitive property and every attribute
holds an admissible value (`typed_giveInitialState`), and that is when the instance counts as built
(`hasBuilt_constructConcrete`). Whether a class is concrete or has a factory, the result of a construction
is of the class (`accepts_constructInstance`).
-/

set_option autoImplicit false

namespace ReactiveView

namespace Run

open World

variable {S : World → World → Prop} [IsStepping S] {α β : Type} {w w' : World} {cb : Callbacks} {i : InstanceId}

/-! ## Delivering events -/

theorem proceeds_callMethod (hcb : cb.SteadyBy S) (i : InstanceId) (name : String) (node : Option NodeId)
    (payload : Value) : Keeps (ProceedsBy S) (callMethod cb i name node payload) := by
  refine (keeps_theClassOf i).bind fun c => ?_
  split
  · exact keeps_fail _
  · exact (hcb.script _ _).bind fun _ => keeps_pure _

theorem proceeds_runSteps (hcb : cb.SteadyBy S) (i : InstanceId) (node : Option NodeId) (payload : Value)
    (steps : List HandlerStep) : Keeps (ProceedsBy S) (runSteps cb i node payload steps) := by
  induction steps with
  | nil => exact keeps_pure _
  | cons step rest ih =>
    cases step with
    | call name =>
      refine (proceeds_callMethod hcb i name node payload).bind fun result => ?_
      split
      · exact keeps_pure _
      · exact ih
    | dispatch event => exact (hcb.dispatch i event payload).bind fun _ => ih

theorem proceeds_deliver (hcb : cb.SteadyBy S) (sink : Sink) (event : String) (data : Value) :
    Keeps (ProceedsBy S) (deliver cb sink event data) := by
  unfold deliver
  split
  · exact keeps_pure _
  · refine keeps_get.bind fun w => ?_
    split
    · exact ((keeps_pin _).bind fun _ => (keeps_pin _).bind fun _ => proceeds_runSteps hcb _ _ _ _).scope
    · exact keeps_pure _

theorem proceeds_tellDispatch (hcb : cb.SteadyBy S) (i : InstanceId) (event : String) (data : Value)
    (prevented : Bool) (ls : List Listener) :
    Keeps (ProceedsBy S) (tellDispatch cb i event data prevented ls) := by
  induction ls generalizing prevented with
  | nil => exact keeps_pure _
  | cons l rest ih => exact (keeps_note _).bind fun _ => (hcb.script _ _).bind fun _ => ih _

theorem proceeds_dispatchEvent (hcb : cb.SteadyBy S) (i : InstanceId) (name : String) (data : Value) :
    Keeps (ProceedsBy S) (dispatchEvent cb i name data) := by
  refine (keeps_theInstance i).bind fun x => (proceeds_tellDispatch hcb i _ data false _).bind fun stopped => ?_
  split
  · refine keeps_get.bind fun w => ?_
    split
    · exact proceeds_deliver hcb _ _ _
    · exact keeps_pure _
  · exact keeps_pure _

theorem proceeds_handleHostEvent (hcb : cb.SteadyBy S) (i : InstanceId) (node : NodeId) (name : String)
    (payload : Value) : Keeps (ProceedsBy S) (handleHostEvent cb i node name payload) := by
  refine (keeps_theView i).bind fun view => ?_
  split
  · exact (proceeds_runSteps hcb i _ payload _).bind fun _ => keeps_pure _
  · exact keeps_pure _

theorem proceeds_trigger (hcb : cb.SteadyBy S) (i : InstanceId) (key name : String) (payload : Value) :
    Keeps (ProceedsBy S) (trigger cb i key name payload) := by
  refine (keeps_theInstance i).bind fun x => ?_
  split
  · exact proceeds_handleHostEvent hcb i _ name payload
  · exact keeps_fail _

theorem proceeds_listen (i : InstanceId) (kind : EventClass) (name : String) (l : Listener) :
    Keeps (ProceedsBy S) (listen i kind name l) := by
  refine fun w => (Step.record i _ fun x => ?_).proceedsBy (fastens_modifyInstance rfl i fun x a h => Or.inl ?_)
  · cases kind <;> exact ⟨rfl, rfl, rfl, rfl, rfl⟩
  · cases kind <;> exact h

/-! ## The initial state -/

theorem proceeds_flushQueue (q : QueueId) : Keeps (ProceedsBy S) (flushQueue q) := fun _ =>
  (Step.flush q).proceedsBy (fastens_of_instances rfl)

theorem proceeds_runConstructors (hcb : cb.SteadyBy S) (i : InstanceId) (chain : List Host.Script) :
    Keeps (ProceedsBy S) (runConstructors cb i chain) := by
  unfold runConstructors
  split
  · exact keeps_pure _
  · exact (hcb.script _ _).bind fun _ => keeps_pure _

theorem proceeds_initializeProperty (hcb : cb.SteadyBy S) (i : InstanceId) (fields : Dict String Value)
    (p : PropertyDescriptor) : Keeps (ProceedsBy S) (initializeProperty cb i fields p) := by
  unfold initializeProperty
  split
  · exact (keeps_ofExcept _).bind fun v => proceeds_setProperty hcb i p.name v
  · exact proceeds_setProperty hcb i p.name _

theorem proceeds_giveInitialState (hcb : cb.SteadyBy S) (i : InstanceId) (c : Class)
    (fields : Dict String Value) : Keeps (ProceedsBy S) (giveInitialState cb i c fields) := by
  refine (Keeps.forM (fun a => proceeds_setAttribute i _ _) _).bind fun _ => ?_
  refine (Keeps.forM (proceeds_initializeProperty hcb i fields) _).bind fun _ => ?_
  refine (Keeps.forM (proceeds_recomputeBinding hcb i) _).bind fun _ => ?_
  exact proceeds_runConstructors hcb i _

/-- A loop that has ended well has gone through the round of each of its members. -/
theorem exists_round {f : α → Run Unit} (hf : ∀ a, Keeps (ProceedsBy S) (f a)) {as : List α} {n : Nat} {a : α}
    (ha : as[n]? = some a) (hw : w.Sound) (hok : as.forM f w = (.ok (), w')) :
    ∃ w₁ w₂, StepsBy S w w₁ ∧ w₁.Sound ∧ f a w₁ = (.ok (), w₂) ∧ StepsBy S w₂ w' := by
  obtain ⟨hn, rfl⟩ := List.getElem?_eq_some_iff.1 ha
  rw [← List.take_append_drop n as, List.drop_eq_getElem_cons hn] at hok
  obtain ⟨w₁, hbefore, hrest⟩ := forM_append_ok hok
  obtain ⟨w₂, hround, hafter⟩ := forM_cons_ok hrest
  have hsteps₁ := Keeps.forM hf (as.take n) w hw
  rw [hbefore] at hsteps₁
  have hw₁ := StepsBy.sound hsteps₁ hw
  have hsteps₂ := hf as[n] w₁ hw₁
  rw [hround] at hsteps₂
  have hsteps₃ := Keeps.forM hf (as.drop (n + 1)) w₂ (StepsBy.sound hsteps₂ hw₁)
  rw [hafter] at hsteps₃
  exact ⟨w₁, w₂, hsteps₁, hw₁, hround, hsteps₃⟩

/-- An instance stays in its class. -/
theorem exists_inst_of_steps {x : Instance} {c : Class} (hx : w.inst? i = some x)
    (hc : w.class? x.classId = some c) (h : StepsBy S w w') :
    ∃ x', w'.inst? i = some x' ∧ w'.class? x'.classId = some c := by
  obtain ⟨x', hx', hid, -⟩ := (StepsBy.grows h).inst i x hx
  exact ⟨x', hx', hid ▸ (StepsBy.grows h).cls _ c hc⟩

section InitialState

variable {x : Instance} {c : Class} {fields : Dict String Value}

theorem fitsAt_initializeProperty (hcb : cb.SteadyBy S) (hw : w.Sound) (hx : w.inst? i = some x)
    (hc : w.class? x.classId = some c) {n : Nat} {p : PropertyDescriptor}
    (hp : c.descriptor.properties[n]? = some p) {types : Option (List PrimitiveType)}
    (hkind : p.kind = .primitive types) (hok : initializeProperty cb i fields p w = (.ok (), w')) :
    w'.FitsAt i n := by
  obtain ⟨v, -, hset⟩ := initializeProperty_ok hok
  unfold setProperty at hset
  obtain ⟨m, _, hindex, hrest⟩ := bind_eq_ok_iff.1 hset
  obtain ⟨⟨y, d, hy, hd, hm⟩, rfl⟩ := propertyIndex_eq_ok hindex
  obtain rfl := Option.some.inj (hx.symm.trans hy)
  obtain rfl := Option.some.inj (hc.symm.trans hd)
  obtain ⟨hvalid, -⟩ := (hw.compiled.parsed hc).spec
  obtain rfl := Option.some.inj ((hvalid.propertyIndex?_name hp).symm.trans hm)
  rw [bind_of_ok (theClassOf_of hx hc), hp, bind_of_ok (ofOption_some _ _), hkind] at hrest
  exact fitsAt_setPrimitive hcb hw hx hc hp hkind hrest

/-- Where an initial state has been given, every attribute has been written. -/
theorem exists_setAttribute_of_giveInitialState (hcb : cb.SteadyBy S) (hw : w.Sound)
    (hok : giveInitialState cb i c fields w = (.ok (), w')) {n : Nat} {a : AttributeDescriptor}
    (ha : c.descriptor.attributes[n]? = some a) :
    ∃ w₁ w₂, StepsBy S w w₁ ∧ w₁.Sound ∧ setAttribute i a.name a.default w₁ = (.ok (), w₂) ∧ StepsBy S w₂ w' := by
  unfold giveInitialState at hok
  obtain ⟨_, w₃, hattrs, hrest⟩ := bind_eq_ok_iff.1 hok
  have hf (a : AttributeDescriptor) : Keeps (ProceedsBy S) (setAttribute i a.name a.default) :=
    proceeds_setAttribute i a.name a.default
  have hsteps := Keeps.forM hf c.descriptor.attributes w hw
  rw [hattrs] at hsteps
  have hlater := ((Keeps.forM (proceeds_initializeProperty hcb i fields) c.descriptor.properties).bind
    fun _ => (Keeps.forM (proceeds_recomputeBinding hcb i)
      (c.graph.order.filter fun name => !fields.contains name)).bind
        fun _ => proceeds_runConstructors hcb i c.constructors) w₃ (StepsBy.sound hsteps hw)
  rw [hrest] at hlater
  obtain ⟨w₁, w₂, hbefore, hw₁, hround, hafter⟩ := exists_round hf ha hw hattrs
  exact ⟨w₁, w₂, hbefore, hw₁, hround, hafter.trans hlater⟩

/-- An initial state that has been given leaves admissible values everywhere. -/
theorem typed_giveInitialState (hcb : cb.SteadyBy S) (hw : w.Sound) (hx : w.inst? i = some x)
    (hc : w.class? x.classId = some c) (hok : giveInitialState cb i c fields w = (.ok (), w')) :
    ∀ x' c', w'.inst? i = some x' → w'.class? x'.classId = some c' → x'.Typed c' := by
  have hattr {n : Nat} {a : AttributeDescriptor} (ha : c.descriptor.attributes[n]? = some a) :
      w'.AttrFitsAt i n := by
    obtain ⟨w₄, w₅, hsteps₄, hw₄, hround, hlater⟩ := exists_setAttribute_of_giveInitialState hcb hw hok ha
    obtain ⟨x₄, hx₄, hc₄⟩ := exists_inst_of_steps hx hc hsteps₄
    obtain ⟨-, hwell, -⟩ := (hw.compiled.parsed hc).spec
    obtain ⟨y, d, m, hy, hd, hm, hfits⟩ := attrFitsAt_setAttribute hw₄ hround
    obtain rfl := Option.some.inj (hx₄.symm.trans hy)
    obtain rfl := Option.some.inj (hc₄.symm.trans hd)
    obtain rfl := Option.some.inj ((hwell.attributeIndex?_name ha).symm.trans hm)
    exact Steps.attrFitsAt hlater.steps hfits
  unfold giveInitialState at hok
  obtain ⟨_, w₁, hattrs, hrest⟩ := bind_eq_ok_iff.1 hok
  obtain ⟨_, w₂, hprops, hlast⟩ := bind_eq_ok_iff.1 hrest
  have hsteps₁ := Keeps.forM (fun a : AttributeDescriptor => proceeds_setAttribute (S := S) i a.name a.default)
    c.descriptor.attributes w hw
  rw [hattrs] at hsteps₁
  have hw₁ := StepsBy.sound hsteps₁ hw
  obtain ⟨x₁, hx₁, hc₁⟩ := exists_inst_of_steps hx hc hsteps₁
  have hsteps₂ := Keeps.forM (proceeds_initializeProperty hcb i fields) c.descriptor.properties w₁ hw₁
  rw [hprops] at hsteps₂
  have hsteps₃ := ((Keeps.forM (proceeds_recomputeBinding hcb i)
    (c.graph.order.filter fun name => !fields.contains name)).bind
      fun _ => proceeds_runConstructors hcb i c.constructors) w₂ (StepsBy.sound hsteps₂ hw₁)
  rw [hlast] at hsteps₃
  obtain ⟨x₃, hx₃, hc₃⟩ := exists_inst_of_steps hx₁ hc₁ (hsteps₂.trans hsteps₃)
  rintro x' c' hx' hc'
  obtain rfl := Option.some.inj (hx₃.symm.trans hx')
  obtain rfl := Option.some.inj (hc₃.symm.trans hc')
  refine ⟨fun n p types v hp hkind hv => ?_, fun n a v ha hv => ?_⟩
  · obtain ⟨w₄, w₅, hsteps₄, hw₄, hround, hsteps₅⟩ :=
      exists_round (proceeds_initializeProperty hcb i fields) hp hw₁ hprops
    obtain ⟨x₄, hx₄, hc₄⟩ := exists_inst_of_steps hx₁ hc₁ hsteps₄
    have hfits := fitsAt_initializeProperty hcb hw₄ hx₄ hc₄ hp hkind hround
    exact admissible_of_fitsAt (Steps.fitsAt (StepsBy.steps (hsteps₅.trans hsteps₃)) hfits) hx₃ hc₃ hp hkind hv
  · exact admissible_of_attrFitsAt (hattr ha) hx₃ hc₃ ha hv

/-- An attribute that has been written stands on the root. -/
theorem isSome_attr?_setAttribute {view : View} {name : String} {v : Value} (hx : w.inst? i = some x)
    (hview : x.view = some view) (hroot : (w.forest.tag? view.root).isSome = true)
    (hok : setAttribute i name v w = (.ok (), w')) :
    (w'.forest.attr? view.root (dataName name).tag).isSome = true := by
  unfold setAttribute at hok
  obtain ⟨n, _, hindex, hrest⟩ := bind_eq_ok_iff.1 hok
  obtain ⟨rfl, y, d, a, hy, hd, ha, rfl, -⟩ := exists_of_attributeIndex hindex
  obtain rfl := Option.some.inj (hx.symm.trans hy)
  rw [bind_of_ok (theClassOf_of hx hd), ha, bind_of_ok (ofOption_some _ _)] at hrest
  obtain ⟨_, _, hcheck, hstore⟩ := bind_eq_ok_iff.1 hrest
  obtain ⟨-, rfl⟩ := admissible_of_checkPrimitive hcheck
  obtain ⟨view', _, hview', hupdate⟩ := bind_eq_ok_iff.1 hstore
  obtain ⟨⟨z, hz, hsame⟩, rfl⟩ := theView_eq_ok hview'
  obtain rfl := Option.some.inj (hx.symm.trans hz)
  obtain rfl := Option.some.inj (hview.symm.trans hsame)
  obtain ⟨-, rfl⟩ := Prod.mk.inj hupdate
  refine Option.isSome_iff_exists.2 ⟨_, Forest.attr?_setAttr_self ?_ (dataName a.name) v.outputText⟩
  refine Eq.trans ?_ hroot
  exact congrArg Option.isSome
    (Screen.tag?_render _ d.queue (view.attributeNodes[n]?.getD []) (.attr a.name) v.outputText _)

/-- All attributes stand on the root once an initial state has been given. -/
theorem isSome_attr?_giveInitialState (hcb : cb.SteadyBy S) (hw : w.Sound) {view : View} (hx : w.inst? i = some x)
    (hview : x.view = some view) (hroot : (w.forest.tag? view.root).isSome = true)
    (hok : giveInitialState cb i c fields w = (.ok (), w')) :
    ∀ a ∈ c.descriptor.attributes, (w'.forest.attr? view.root (dataName a.name).tag).isSome = true := by
  intro a ha
  obtain ⟨n, hn⟩ := List.getElem?_of_mem ha
  obtain ⟨w₁, w₂, hbefore, hw₁, hround, hafter⟩ := exists_setAttribute_of_giveInitialState hcb hw hok hn
  obtain ⟨x₁, hx₁, -, hview₁⟩ := (StepsBy.grows hbefore).inst i x hx
  obtain ⟨t, ht⟩ := Option.isSome_iff_exists.1 hroot
  have htag : (w₁.forest.tag? view.root).isSome = true :=
    Option.isSome_iff_exists.2 ⟨t, Steps.tag? hbefore.steps hw ht⟩
  have hset := isSome_attr?_setAttribute hx₁ (hview₁.trans hview) htag hround
  have hw₂ := proceeds_setAttribute (S := S) i a.name a.default w₁ hw₁
  rw [hround] at hw₂
  exact Steps.isSome_attr? hafter.steps (StepsBy.sound hw₂ hw₁) hset

end InitialState

/-! ## Construction -/

theorem steps_create {id : ClassId} {c : Class} (hc : w.class? id = some c) :
    StepsBy S w (create id c w).2 := by
  unfold create
  rw [bind_of_ok (get_apply w)]
  cases h : w.createInstance id c.descriptor with
  | error e => exact .refl
  | ok made =>
    obtain ⟨j, w₁⟩ := made
    refine .head (IsStepping.of_fastens (.create hc h) (fastens_createInstance h)) (.single ?_)
    exact Step.by_instances (.quiet rfl rfl rfl rfl rfl) rfl

theorem exists_inst_create (hw : w.Sound) {id : ClassId} {c : Class} (hc : w.class? id = some c)
    (hok : create id c w = (.ok i, w')) :
    ∃ x view, w'.inst? i = some x ∧ x.classId = id ∧ w'.class? id = some c ∧ x.view = some view ∧
      (w'.forest.tag? view.root).isSome = true := by
  obtain ⟨-, -, -, vals, hholds, -⟩ := create_ok hc hok
  obtain ⟨hclass, x, -, hx, hid, -⟩ := hholds
  unfold create at hok
  rw [bind_of_ok (get_apply w)] at hok
  cases hmade : w.createInstance id c.descriptor with
  | error e =>
    rw [hmade] at hok
    cases hok
  | ok made =>
    rw [hmade] at hok
    obtain ⟨hi, rfl⟩ := Prod.mk.inj hok
    obtain rfl := Except.ok.inj hi
    obtain ⟨view, g, hview, hbuilds⟩ := exists_builds_createInstance (hw.compiled.parsed hc) hmade hx
    exact ⟨x, view, hx, hid, hclass, hview, hbuilds.root⟩

theorem populate_of_ok {c : Class} {fields : Dict String Value} {w₁ : World}
    (h : giveInitialState cb i c fields w = (.ok (), w₁)) :
    populate cb i c fields w =
      (.ok i, (flushQueue c.queue w₁).2.modifyInstance i fun x => { x with built := true }) := by
  have htry (undo : Halt → Run Unit) : (tryCatch (giveInitialState cb i c fields) undo) w = (.ok (), w₁) := by
    rw [tryCatch_apply, h]
  unfold populate
  rw [bind_of_ok (htry _)]
  rfl

theorem populate_of_error {c : Class} {fields : Dict String Value} {w₁ : World} {e : Halt}
    (h : giveInitialState cb i c fields w = (.error e, w₁)) :
    (populate cb i c fields w).2 = ((do
      releaseChildren cb i
      let _ ← flushQueue c.queue
      throw e : Run Unit) w₁).2 := by
  unfold populate
  rw [bind_apply, tryCatch_apply, h]
  dsimp only
  -- what is undone after a failure ends in the failure
  rcases hundo : (do
      releaseChildren cb i
      let _ ← flushQueue c.queue
      throw e : Run Unit) w₁ with ⟨e' | u, w₂⟩
  · rfl
  · obtain ⟨_, _, -, hrest⟩ := bind_eq_ok_iff.1 hundo
    obtain ⟨_, _, -, hthrow⟩ := bind_eq_ok_iff.1 hrest
    cases hthrow

theorem steps_populate (hcb : cb.SteadyBy S) (hw : w.Sound) {x : Instance} {c : Class} {view : View}
    (hx : w.inst? i = some x) (hc : w.class? x.classId = some c) (hview : x.view = some view)
    (hroot : (w.forest.tag? view.root).isSome = true) (fields : Dict String Value) :
    StepsBy S w (populate cb i c fields w).2 := by
  have hgive := proceeds_giveInitialState hcb i c fields w hw
  rcases hrun : giveInitialState cb i c fields w with ⟨e | u, w₁⟩
  · rw [hrun] at hgive
    rw [populate_of_error hrun]
    have hundo : Keeps (ProceedsBy S) (do
        releaseChildren cb i
        let _ ← flushQueue c.queue
        throw e : Run Unit) :=
      (proceeds_releaseChildren hcb i).bind fun _ => (proceeds_flushQueue _).bind fun _ => keeps_throw e
    exact hgive.trans (hundo w₁ (StepsBy.sound hgive hw))
  · rw [hrun] at hgive
    rw [populate_of_ok hrun]
    have htyped := typed_giveInitialState hcb hw hx hc hrun
    have hattrs := isSome_attr?_giveInitialState hcb hw hx hview hroot hrun
    obtain ⟨x₁, hx₁, hc₁⟩ := exists_inst_of_steps hx hc hgive
    obtain ⟨y, hy, -, hview₁⟩ := (StepsBy.grows hgive).inst i x hx
    have hflush := proceeds_flushQueue (S := S) c.queue w₁ (StepsBy.sound hgive hw)
    have hfinish : (flushQueue c.queue w₁).2.Step
        ((flushQueue c.queue w₁).2.modifyInstance i fun x => { x with built := true }) := by
      refine .finish i htyped fun z d v hz hd hv a ha => ?_
      obtain rfl := Option.some.inj (hx₁.symm.trans hz)
      obtain rfl := Option.some.inj (hc₁.symm.trans hd)
      obtain rfl := Option.some.inj (hx₁.symm.trans hy)
      obtain rfl := Option.some.inj ((hview₁.trans hview).symm.trans hv)
      exact Step.isSome_attr? (.flush c.queue) (StepsBy.sound hgive hw) (hattrs a ha)
    have hlast := IsStepping.of_fastens (S := S) hfinish (fastens_modifyInstance rfl i fun _ _ h => Or.inl h)
    exact (hgive.trans hflush).tail hlast

theorem hasBuilt_populate (hcb : cb.SteadyBy S) (hw : w.Sound) {x : Instance} {c : Class}
    {fields : Dict String Value} (hx : w.inst? i = some x)
    (hok : populate cb i c fields w = (.ok i, w')) : w'.HasBuilt i := by
  obtain ⟨-, w₁, hgive, rfl⟩ := populate_ok hok
  have hsteps := proceeds_giveInitialState hcb i c fields w hw
  rw [hgive] at hsteps
  obtain ⟨x₁, hx₁, -⟩ := (StepsBy.grows hsteps).inst i x hx
  refine ⟨{ x₁ with built := true }, ?_, rfl⟩
  rw [inst?_modifyInstance_self]
  exact congrArg (Option.map _) hx₁

theorem steps_constructConcrete (hcb : cb.SteadyBy S) (hw : w.Sound) {id : ClassId} {c : Class}
    (hc : w.class? id = some c) (init : Option Value) :
    StepsBy S w (constructConcrete cb id c init w).2 := by
  refine steps_bind (keeps_ofExcept _) hw fun fields w hok _ _ => ?_
  obtain ⟨-, rfl⟩ := ofExcept_eq_ok hok
  cases fields.keys.find? fun k => (c.descriptor.property? k).isNone with
  | some k => exact .refl
  | none =>
    dsimp only
    refine steps_bind_at (steps_create hc) hw fun i w₁ hrun hw₁ _ => ?_
    obtain ⟨x, view, hx, hid, hc₁, hview, hroot⟩ := exists_inst_create hw hc hrun
    exact steps_populate hcb hw₁ hx (hid ▸ hc₁) hview hroot fields

/-- A concrete class constructs instances of its own, which are built. -/
theorem hasBuilt_constructConcrete (hcb : cb.SteadyBy S) (hw : w.Sound) {id : ClassId} {c : Class}
    (hc : w.class? id = some c) {init : Option Value}
    (hok : constructConcrete cb id c init w = (.ok i, w')) :
    w'.HasBuilt i ∧ ∃ x, w'.inst? i = some x ∧ x.classId = id := by
  obtain ⟨fields, w₁, -, hcreate, hpopulate⟩ := constructConcrete_ok hok
  obtain ⟨x, view, hx, hid, hc₁, hview, hroot⟩ := exists_inst_create hw hc hcreate
  have hsteps := steps_create (S := S) hc
  rw [hcreate] at hsteps
  have hw₁ := StepsBy.sound hsteps hw
  have hlater := steps_populate hcb hw₁ hx (hid ▸ hc₁) hview hroot fields
  rw [hpopulate] at hlater
  obtain ⟨x', hx', hid', -⟩ := (StepsBy.grows hlater).inst i x hx
  exact ⟨hasBuilt_populate hcb hw₁ hx hpopulate, x', hx', hid'.trans hid⟩

theorem keeps_resolveIn {R : World → World → Prop} [IsPreorder World R] (space : NamespaceId)
    (name : String) : Keeps R (resolveIn space name) := by
  refine (keeps_theSpace space).bind fun ns => ?_
  split
  · exact keeps_pure _
  · exact keeps_fail _

theorem proceeds_runFactory (hcb : cb.SteadyBy S) (space : NamespaceId) (factory : Host.Factory)
    (init : Option Value) : Keeps (ProceedsBy S) (runFactory cb space factory init) := by
  refine (keeps_note _).bind fun _ => ?_
  cases factory with
  | fail e => exact keeps_fail e
  | existing label => exact keeps_labelled label
  | construct name given =>
    exact (keeps_resolveIn space name).bind fun ref =>
      (keeps_evaluateOption none given).bind fun own => hcb.construct ref.id _

theorem proceeds_constructThrough (hcb : cb.SteadyBy S) (id : ClassId) (space : NamespaceId)
    (factory : Host.Factory) (init : Option Value) :
    Keeps (ProceedsBy S) (constructThrough cb id space factory init) := by
  refine (proceeds_runFactory hcb space factory init).bind fun i => (keeps_theInstance i).bind fun x => ?_
  refine keeps_get.bind fun w => ?_
  split
  · exact keeps_pure _
  · exact (keeps_theClass id).bind fun _ => keeps_get.bind fun _ => keeps_fail _

/-- The product of a factory has been checked. -/
theorem accepts_constructThrough {id : ClassId} {space : NamespaceId} {factory : Host.Factory}
    {init : Option Value} (hok : constructThrough cb id space factory init w = (.ok i, w'))
    (name : String) : w'.accepts (.ofClass ⟨id, name⟩) i = true := by
  unfold constructThrough at hok
  obtain ⟨j, w₁, -, hrest⟩ := bind_eq_ok_iff.1 hok
  obtain ⟨x, _, hinst, hcheck⟩ := bind_eq_ok_iff.1 hrest
  obtain ⟨hx, rfl⟩ := theInstance_eq_ok hinst
  rw [bind_of_ok (get_apply _)] at hcheck
  split at hcheck
  · next hisA =>
    obtain ⟨hj, rfl⟩ := Prod.mk.inj hcheck
    obtain rfl := Except.ok.inj hj
    unfold accepts
    dsimp only
    rw [hx]
    exact hisA
  · obtain ⟨_, _, -, hfail⟩ := bind_eq_ok_iff.1 hcheck
    obtain ⟨_, _, -, hfail⟩ := bind_eq_ok_iff.1 hfail
    cases hfail

theorem proceeds_throughFactory (hcb : cb.SteadyBy S) (id : ClassId) (space : NamespaceId)
    (factory : Host.Factory) (init : Option Value) :
    Keeps (ProceedsBy S) (throughFactory cb id space factory init) := by
  refine (keeps_theSpace _).bind fun ns => ?_
  dsimp only
  split
  · exact keeps_fail_bind _ _
  · exact (keeps_pin _).bind fun _ => proceeds_constructThrough hcb id _ _ init

theorem accepts_throughFactory {id : ClassId} {space : NamespaceId} {factory : Host.Factory}
    {init : Option Value} (hok : throughFactory cb id space factory init w = (.ok i, w'))
    (name : String) : w'.accepts (.ofClass ⟨id, name⟩) i = true := by
  unfold throughFactory at hok
  obtain ⟨ns, _, hspace, hrest⟩ := bind_eq_ok_iff.1 hok
  split at hrest
  · obtain ⟨_, _, hfail, -⟩ := bind_eq_ok_iff.1 hrest
    cases hfail
  · obtain ⟨_, _, -, hthrough⟩ := bind_eq_ok_iff.1 hrest
    exact accepts_constructThrough hthrough name

/-- The body of a construction ends in one of three ways. -/
theorem construction_cases {P : Run InstanceId → Prop} {id : ClassId} {c : Class} {init : Option Value}
    (hconcrete : c.descriptor.isAbstract = false → P (constructConcrete cb id c init))
    (hfactory : ∀ space factory, P (throughFactory cb id space factory init))
    (hfail : ∀ e, P (fail e)) :
    P (if c.descriptor.isAbstract then
        match c.factory, c.ns with
        | some factory, some space => throughFactory cb id space factory init
        | _, _ => fail (.abstractClass c.name)
      else constructConcrete cb id c init) := by
  split
  · split
    · exact hfactory _ _
    · exact hfail _
  · next h => exact hconcrete (by simpa using h)

theorem proceeds_constructInstance (hcb : cb.SteadyBy S) (id : ClassId) (init : Option Value) :
    Keeps (ProceedsBy S) (constructInstance cb id init) := by
  refine fun w hw => steps_keeping hw (steps_bind (keeps_theClass id) hw fun c w hok _ _ => ?_)
  obtain ⟨hc, rfl⟩ := theClass_eq_ok hok
  refine construction_cases (P := fun r => StepsBy S w (r w).2) (fun _ => ?_) (fun space factory => ?_) fun e => .refl
  · exact steps_constructConcrete hcb hw hc init
  · exact steps_of_keeps (proceeds_throughFactory hcb id space factory init) hw

theorem keeping_eq_ok {keep : α → List Held} {body : Run α} {a : α}
    (hok : keeping keep body w = (.ok a, w')) :
    ∃ w₁, body w = (.ok a, w₁) ∧ w₁.Proceeds w' := by
  unfold keeping at hok
  rcases hbody : body w with ⟨r, w₁⟩
  rw [hbody] at hok
  obtain ⟨rfl, rfl⟩ := Prod.mk.inj hok
  exact ⟨w₁, rfl, upkeep_trans (upkeep_pins _ _) (upkeep_settle _)⟩

/-- What is constructed is an instance of the class, or of one that descends from it. -/
theorem accepts_constructInstance (hcb : cb.SteadyBy S) (hw : w.Sound) {id : ClassId} {init : Option Value}
    (hok : constructInstance cb id init w = (.ok i, w')) (name : String) :
    w'.accepts (.ofClass ⟨id, name⟩) i = true := by
  obtain ⟨w₁, hbody, hlater⟩ := keeping_eq_ok hok
  obtain ⟨c, _, hclass, hbranch⟩ := bind_eq_ok_iff.1 hbody
  obtain ⟨hc, rfl⟩ := theClass_eq_ok hclass
  have hresult : w₁.Sound ∧ w₁.accepts (.ofClass ⟨id, name⟩) i = true := by
    refine construction_cases (P := fun r => r _ = (.ok i, w₁) → w₁.Sound ∧ _) (fun _ hrun => ?_)
      (fun space factory hrun => ?_) (fun e hrun => by cases hrun) hbranch
    · have hsteps := steps_constructConcrete hcb hw hc init
      rw [hrun] at hsteps
      obtain ⟨-, x, hx, rfl⟩ := hasBuilt_constructConcrete hcb hw hc hrun
      refine ⟨StepsBy.sound hsteps hw, ?_⟩
      unfold accepts
      dsimp only
      rw [hx]
      exact isA_self _ _
    · have hsteps := proceeds_throughFactory hcb id space factory init _ hw
      rw [hrun] at hsteps
      exact ⟨StepsBy.sound hsteps hw, accepts_throughFactory hrun name⟩
  exact (StepsBy.grows (hlater hresult.1)).accepts hresult.2

/-- What a concrete class constructs is built. -/
theorem hasBuilt_constructInstance (hcb : cb.SteadyBy S) (hw : w.Sound) {id : ClassId} {c : Class}
    {init : Option Value} (hc : w.class? id = some c) (hconcrete : c.descriptor.isAbstract = false)
    (hok : constructInstance cb id init w = (.ok i, w')) : w'.HasBuilt i := by
  obtain ⟨w₁, hbody, hlater⟩ := keeping_eq_ok hok
  rw [bind_of_ok (theClass_of hc), hconcrete] at hbody
  have hrun : constructConcrete cb id c init w = (.ok i, w₁) := hbody
  have hsteps := steps_constructConcrete hcb hw hc init
  rw [hrun] at hsteps
  exact Steps.hasBuilt (hlater (StepsBy.sound hsteps hw)) (hasBuilt_constructConcrete hcb hw hc hrun).1

end Run

end ReactiveView
