import ReactiveView.Proofs.Closed.Operations

/-!
# Constructions and deliveries keep worlds regular

A construction leaves a regular world regular, however it ends, and the instance that it gives is there
(`Run.stays_constructInstance`). Constructors and the scripts that an event reaches run on instances that are
there and are told of nothing else (`Run.stays_dispatchEvent`).
-/

set_option autoImplicit false

namespace ReactiveView.Run

open World

variable {α β : Type} {w w' : World} {cb : Callbacks} {i : InstanceId} {id : ClassId} {c : Class}

/-- The body of a construction. -/
def construction (cb : Callbacks) (id : ClassId) (init : Option Value) : Run InstanceId := do
  let c ← theClass id
  if c.descriptor.isAbstract then
    match c.factory, c.ns with
    | some factory, some space => throughFactory cb id space factory init
    | _, _ => fail (.abstractClass c.name)
  else constructConcrete cb id c init

theorem constructInstance_eq (cb : Callbacks) (id : ClassId) (init : Option Value) :
    constructInstance cb id init = keeping (fun i => [.inst i]) (construction cb id init) := rfl

/-! ## The initial state -/

theorem regrows_flushQueue (q : QueueId) : Keeps Regrows (flushQueue q) := fun w => by
  unfold flushQueue
  rw [change_apply]
  exact regrows_mapScreen (f := fun s => (s.flush q).2) (.of_sameLinks (Screen.sameLinks_flush w.screen q))

/-- Making an instance. -/
theorem stays_create (id : ClassId) (c : Class) : Stays (create id c) w fun i w' => w'.Knows i := by
  unfold create
  refine .bind_same (get_apply w) ?_
  cases hcreate : w.createInstance id c.descriptor with
  | error e => exact .fail_bind e
  | ok made =>
    obtain ⟨i, w₁⟩ := made
    obtain ⟨-, view, b, b', hjoins⟩ := createInstance_joins hcreate
    obtain ⟨attrs, hself⟩ := hjoins.self
    have hi : w₁.Knows i := knows_of_inst? hself
    refine .bind_same (ofExcept_ok _ w) ?_
    refine Stays.bind (Q := fun _ w' => w'.Knows i) (.update hjoins.regrows fun _ => hi) fun _ w₂ _ hi => ?_
    exact (stays_pin fun j hj => Held.inst.inj hj ▸ hi).bind fun _ _ hl _ => .pure (hi.larger hl)

section Construction

variable (hcb : cb.Careful)

include hcb

/-- Constructors run on an instance that is there. -/
theorem stays_runConstructors (hi : w.Knows i) (chain : List Host.Script) :
    Stays (runConstructors cb i chain) w fun _ _ => True := by
  unfold runConstructors
  split
  · exact .pure trivial
  · refine (hcb.script _ _ w ⟨hi, knowsValue_of_instances rfl⟩).bind fun _ _ _ _ => .pure trivial

theorem regrows_initializeProperty (i : InstanceId) (fields : Dict String Value) (p : PropertyDescriptor) :
    Keeps Regrows (initializeProperty cb i fields p) := by
  unfold initializeProperty
  split
  · exact (keeps_ofExcept _).bind fun v => regrows_setProperty hcb i p.name v
  · exact regrows_setProperty hcb i p.name _

theorem stays_giveInitialState (hi : w.Knows i) (c : Class) (fields : Dict String Value) :
    Stays (giveInitialState cb i c fields) w fun _ _ => True := by
  refine .after (Keeps.forM (fun a => regrows_setAttribute i _ _) _) fun _ w₁ hl₁ => ?_
  refine .after (Keeps.forM (regrows_initializeProperty hcb i fields) _) fun _ w₂ hl₂ => ?_
  refine .after (Keeps.forM (regrows_recomputeBinding hcb i) _) fun _ w₃ hl₃ => ?_
  exact stays_runConstructors hcb (((hi.larger hl₁).larger hl₂).larger hl₃) _

theorem stays_populate (hi : w.Knows i) (c : Class) (fields : Dict String Value) :
    Stays (populate cb i c fields) w fun j w' => w'.Knows j := by
  have hgive := stays_giveInitialState hcb hi c fields
  have hundo (e : Halt) : Keeps Regrows (do
      releaseChildren cb i
      let _ ← flushQueue c.queue
      throw e : Run Unit) :=
    (regrows_releaseChildren hcb i).bind fun _ => (regrows_flushQueue _).bind fun _ => keeps_throw e
  unfold populate
  refine Stays.bind (Q := fun _ w' => w.Larger w') (fun hw => ?_) fun _ w₁ _ hl₁ => ?_
  · obtain ⟨hw₁, hl₁, -⟩ := hgive hw
    rw [tryCatch_apply]
    rcases hrun : giveInitialState cb i c fields w with ⟨e | u, w₁⟩
    · rw [hrun] at hw₁ hl₁
      obtain ⟨hw₂, hl₂⟩ := hundo e w₁ hw₁
      exact ⟨hw₂, hl₁.trans hl₂, fun _ _ => hl₁.trans hl₂⟩
    · rw [hrun] at hw₁ hl₁
      exact ⟨hw₁, hl₁, fun _ _ => hl₁⟩
  · refine .after (regrows_flushQueue c.queue) fun _ w₂ hl₂ => ?_
    refine Stays.after (fun w => regrows_record i fun _ => ⟨rfl, rfl, Or.inl rfl⟩) fun _ w₃ hl₃ => .pure ?_
    exact ((hi.larger hl₁).larger hl₂).larger hl₃

/-! ## Construction -/

theorem stays_constructConcrete (id : ClassId) (c : Class) (init : Option Value) :
    Stays (constructConcrete cb id c init) w fun i w' => w'.Knows i := by
  refine .after (keeps_ofExcept _) fun fields _ _ => ?_
  split
  · exact .fail _
  · exact (stays_create id c).bind fun i _ _ hi => stays_populate hcb hi c fields

theorem stays_runFactory (space : NamespaceId) (factory : Host.Factory) (init : Option Value) :
    Stays (runFactory cb space factory init) w fun i w' => w'.Knows i := by
  refine .after (regrows_note _) fun _ w₁ _ => ?_
  cases factory with
  | fail e => exact .fail e
  | existing label => exact stays_labelled label
  | construct name given =>
    refine .after (keeps_resolveIn space name) fun ref w₂ _ => ?_
    have hnone : ∀ f ∈ (none : Option Frame), w₂.KnowsFrame f := fun f hf => by cases hf
    refine (stays_evaluateOption hnone given).bind fun own w₃ _ _ => ?_
    exact hcb.construct ref.id _ w₃

theorem stays_constructThrough (id : ClassId) (space : NamespaceId) (factory : Host.Factory) (init : Option Value) :
    Stays (constructThrough cb id space factory init) w fun i w' => w'.Knows i := by
  refine (stays_runFactory hcb space factory init).bind fun i w₁ _ hi => .after (keeps_theInstance i) fun x w₂ hl₂ => ?_
  refine .bind_same (get_apply w₂) ?_
  split
  · exact .pure (hi.larger hl₂)
  · exact .after (keeps_theClass id) fun _ _ _ => .after keeps_get fun _ _ _ => .fail _

theorem stays_throughFactory (id : ClassId) (space : NamespaceId) (factory : Host.Factory) (init : Option Value) :
    Stays (throughFactory cb id space factory init) w fun i w' => w'.Knows i := by
  refine .after (keeps_theSpace space) fun ns _ _ => ?_
  dsimp only
  split
  · exact .fail_bind _
  · exact (stays_pin (by intro j hj; cases hj)).bind fun _ _ _ _ => stays_constructThrough hcb id space factory init

theorem stays_construction (id : ClassId) (init : Option Value) :
    Stays (construction cb id init) w fun i w' => w'.Knows i := by
  refine .after (keeps_theClass id) fun c _ _ => ?_
  split
  · split
    · exact stays_throughFactory hcb id _ _ init
    · exact .fail _
  · exact stays_constructConcrete hcb id c init

/-- The instance that a construction gives is there. -/
theorem stays_constructInstance (id : ClassId) (init : Option Value) :
    Stays (constructInstance cb id init) w fun i w' => w'.Knows i := by
  rw [constructInstance_eq]
  refine (stays_construction hcb id init).keeping (fun i w' hi j hj => ?_) fun i w' w'' hi hl => hi.larger hl
  obtain rfl := Held.inst.inj (List.mem_singleton.1 hj)
  exact hi

theorem stays_constructFromText (id : ClassId) (text : String) :
    Stays (constructFromText cb id text) w fun i w' => w'.Knows i :=
  .after (keeps_ofExcept _) fun _ w' _ => hcb.construct id _ w'

/-! ## Delivering events -/

theorem stays_callMethod (i : InstanceId) (name : String) (node : Option NodeId) {payload : Value}
    (hp : w.KnowsValue payload) : Stays (callMethod cb i name node payload) w fun _ w' => w'.Knows i := by
  refine .bind_read (keeps_theClassOf i) fun c hc => ?_
  obtain ⟨⟨x, hx, -⟩, -⟩ := theClassOf_eq_ok hc
  have hi : w.Knows i := knows_of_inst? hx
  split
  · exact .fail _
  · exact (hcb.script _ _ w ⟨hi, hp⟩).bind fun _ _ hl _ => .pure (hi.larger hl)

theorem stays_runSteps (i : InstanceId) (node : Option NodeId) {payload : Value} (hp : w.KnowsValue payload)
    (steps : List HandlerStep) : Stays (runSteps cb i node payload steps) w fun _ _ => True := by
  induction steps generalizing w with
  | nil => exact .pure trivial
  | cons step rest ih =>
    cases step with
    | call name =>
      refine (stays_callMethod hcb i name node hp).bind fun result w₁ hl₁ _ => ?_
      split
      · exact .pure trivial
      · exact ih (hp.larger hl₁)
    | dispatch event => exact (hcb.dispatch i event payload w hp).bind fun _ w₁ hl₁ _ => ih (hp.larger hl₁)

/-- The owner of handlers that run is in use. -/
theorem stays_deliver (sink : Sink) (event : String) {data : Value} (hd : w.KnowsValue data) :
    Stays (deliver cb sink event data) w fun _ _ => True := by
  unfold deliver
  split
  · exact .pure trivial
  · refine .bind_same (get_apply w) ?_
    split
    · next halive =>
      have howner : w.Knows sink.owner := knows_of_isAlive halive
      refine Stays.inScope ((stays_pin fun j hj => Held.inst.inj hj ▸ howner).bind fun _ w₁ hl₁ _ => ?_)
      refine (stays_pin (by intro j hj; cases hj)).bind fun _ w₂ hl₂ _ => ?_
      exact stays_runSteps hcb _ _ ((hd.larger hl₁).larger hl₂) _
    · exact .pure trivial

theorem stays_tellDispatch (hi : w.Knows i) (event : String) {data : Value} (hd : w.KnowsValue data)
    (prevented : Bool) (ls : List Listener) :
    Stays (tellDispatch cb i event data prevented ls) w fun _ _ => True := by
  induction ls generalizing w prevented with
  | nil => exact .pure trivial
  | cons l rest ih =>
    refine .after (regrows_note _) fun _ w₁ hl₁ => ?_
    have hi₁ := hi.larger hl₁
    have hd₁ := hd.larger hl₁
    exact (hcb.script _ _ w₁ ⟨hi₁, hd₁⟩).bind fun _ w₂ hl₂ _ => ih (hi₁.larger hl₂) (hd₁.larger hl₂) _

theorem stays_dispatchEvent (i : InstanceId) (name : String) {data : Value} (hd : w.KnowsValue data) :
    Stays (dispatchEvent cb i name data) w fun _ _ => True := by
  refine (stays_theInstance i).bind fun x w₁ hl₁ hi => ?_
  have hd₁ := hd.larger hl₁
  refine (stays_tellDispatch hcb hi _ hd₁ false _).bind fun stopped w₂ hl₂ _ => ?_
  split
  · refine .bind_same (get_apply w₂) ?_
    split
    · exact stays_deliver hcb _ _ (hd₁.larger hl₂)
    · exact .pure trivial
  · exact .pure trivial

theorem stays_handleHostEvent (i : InstanceId) (node : NodeId) (name : String) {payload : Value}
    (hp : w.KnowsValue payload) : Stays (handleHostEvent cb i node name payload) w fun _ _ => True := by
  refine .after (keeps_theView i) fun view w₁ hl₁ => ?_
  split
  · exact (stays_runSteps hcb i _ (hp.larger hl₁) _).bind fun _ _ _ _ => .pure trivial
  · exact .pure trivial

theorem stays_trigger (i : InstanceId) (key name : String) {payload : Value} (hp : w.KnowsValue payload) :
    Stays (trigger cb i key name payload) w fun _ _ => True := by
  refine .after (keeps_theInstance i) fun x w₁ hl₁ => ?_
  split
  · exact stays_handleHostEvent hcb i _ name (hp.larger hl₁)
  · exact .fail _

end Construction

theorem regrows_listen (i : InstanceId) (kind : EventClass) (name : String) (l : Listener) :
    Keeps Regrows (listen i kind name l) := by
  refine fun w => regrows_record i fun x => ?_
  cases kind <;> exact ⟨rfl, rfl, Or.inl rfl⟩

end ReactiveView.Run
