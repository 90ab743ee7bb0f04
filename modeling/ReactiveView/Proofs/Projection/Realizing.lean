import ReactiveView.Proofs.Projection.Filling

/-!
# Constructing an instance from data

A description of an instance, given as an initial state, makes an instance that shows it
(`Callbacks.realizes_ofDepth`). All its attributes start with their defaults, which are admissible; all its
properties are named, so none is recomputed on its own; and a plain class has no constructors. So the
construction does nothing but fill the instance. By induction on the levels of the description this goes for
instances that contain others.
-/

set_option autoImplicit false

namespace ReactiveView

theorem Dict.get?_mapValues {κ α β : Type} [DecidableEq κ] (f : α → β) (d : Dict κ α) (k : κ) :
    (d.mapValues f).get? k = (d.get? k).map f := by
  induction d with
  | nil => rfl
  | cons e d ih =>
    unfold mapValues at ih ⊢
    rw [List.map_cons]
    unfold get?
    by_cases hk : e.1 = k
    · rw [if_pos hk, if_pos hk, Option.map_some]
    · rw [if_neg hk, if_neg hk]
      exact ih

/-! ## The entries of a description -/

namespace Class

variable {c : Class} {js : List Json} {n : Nat} {p : PropertyDescriptor} {j : Json}

/-- The values that data for the properties stands for, by name. -/
def fieldsOf (c : Class) (js : List Json) : Dict String Value :=
  (Dict.ofList (c.descriptor.propertyNames.zip js)).mapValues .ofJson

theorem ofJson_dataOf (c : Class) (js : List Json) : Value.ofJson (c.dataOf js) = .object (c.fieldsOf js) :=
  congrArg Value.object (Value.ofJsonMembers_eq _)

/-- Every property has its entry. -/
theorem Valid.get?_fieldsOf (hc : c.Valid) (hlen : js.length = c.descriptor.properties.length)
    (hp : c.descriptor.properties[n]? = some p) (hj : js[n]? = some j) :
    (c.fieldsOf js).get? p.name = some (.ofJson j) := by
  have hnames : (c.descriptor.propertyNames.zip js).map (·.1) = c.descriptor.propertyNames := by
    refine List.map_fst_zip ?_
    unfold Descriptor.propertyNames
    rw [List.length_map, hlen]
  have hmem : (p.name, j) ∈ c.descriptor.propertyNames.zip js := by
    refine List.mem_of_getElem? (i := n) (List.getElem?_zip_eq_some.2 ⟨?_, hj⟩)
    unfold Descriptor.propertyNames
    rw [List.getElem?_map, hp, Option.map_some]
  have hget : (Dict.ofList (c.descriptor.propertyNames.zip js)).get? p.name = some j :=
    Dict.get?_foldl_insert Prod.fst Prod.snd _ [] (by rw [hnames]; exact hc.descriptor.nodup) (p.name, j) hmem
  unfold fieldsOf
  rw [Dict.get?_mapValues, hget, Option.map_some]

/-- There are no other entries. -/
theorem exists_of_mem_fieldsOf {e : String × Value} (he : e ∈ c.fieldsOf js) :
    ∃ (n : Nat) (p : PropertyDescriptor) (j : Json), c.descriptor.properties[n]? = some p ∧ js[n]? = some j ∧
      e = (p.name, .ofJson j) := by
  obtain ⟨⟨name, j⟩, hmem, rfl⟩ := List.mem_map.1 he
  obtain ⟨n, hn⟩ := List.mem_iff_getElem?.1 (Dict.mem_of_mem_ofList hmem)
  obtain ⟨hname, hj⟩ := List.getElem?_zip_eq_some.1 hn
  unfold Descriptor.propertyNames at hname
  rw [List.getElem?_map] at hname
  obtain ⟨p, hp, rfl⟩ := Option.map_eq_some_iff.1 hname
  exact ⟨n, p, j, hp, hj, rfl⟩

end Class

namespace Run

open World

variable {cb : Callbacks} {T : InstanceId} {c : Class} {w : World} {js : List Json} {level : Nat}
  {tbl : Table Class}

/-! ## Attributes -/

theorem setAttribute_of_admissible {x : Instance} {view : View} (hx : w.inst? T = some x)
    (hc : w.class? x.classId = some c) (hview : x.view = some view) {n : Nat} {a : AttributeDescriptor}
    (ha : c.descriptor.attributes[n]? = some a) (hindex : c.descriptor.attributeIndex? a.name = some n)
    {v : Value} (hv : Admissible a.types v) : (setAttribute T a.name v w).1 = .ok () := by
  have hfind : attributeIndex T a.name w = (.ok n, w) := by
    unfold attributeIndex
    rw [bind_of_ok (theClassOf_of hx hc), hindex]
    rfl
  unfold setAttribute
  rw [bind_of_ok hfind, bind_of_ok (theClassOf_of hx hc), ha, bind_of_ok (ofOption_some _ _),
    (checkPrimitive_eq_ok_iff a.name a.types v).2 hv, bind_of_ok (ofExcept_ok _ _),
    bind_of_ok (theView_of hx hview), update_apply]

/-- All attributes can be given their defaults. -/
theorem giveAttributes_ok (hb : w.Built) (hcls : w.classOf? T = some c) (hwell : c.descriptor.WellFormed)
    {as : List AttributeDescriptor} (has : as ⊆ c.descriptor.attributes) :
    ∃ w', as.forM (fun a => setAttribute T a.name a.default) w = (.ok (), w') ∧ w.Calm w' := by
  induction as generalizing w with
  | nil => exact ⟨w, rfl, .rfl⟩
  | cons a as ih =>
    have hmem := has List.mem_cons_self
    obtain ⟨n, ha⟩ := List.mem_iff_getElem?.1 hmem
    obtain ⟨x, hx, hc⟩ := exists_of_classOf? hcls
    obtain ⟨view, hf⟩ := hb.formed hx hc
    have hok := setAttribute_of_admissible hx hc hf.view ha (hwell.attributeIndex?_name ha)
      (hwell.attribute_defaults a hmem)
    have hcalm := keeps_calm_setAttribute T a.name a.default w
    obtain ⟨w', hrun, hcalm'⟩ := ih (hcalm.built hb) (hcalm.classOf? hcls) fun b hb => has (List.mem_cons_of_mem a hb)
    refine ⟨w', ?_, hcalm.trans hcalm'⟩
    rw [forM_cons, bind_of_ok (Prod.ext hok rfl), hrun]

/-! ## The initial state -/

/-- A property is initialized with its entry. -/
theorem initializeProperty_of_get? {fields : Dict String Value} {p : PropertyDescriptor} {v : Value}
    (hget : fields.get? p.name = some v) (hunkeyed : p.passthrough = none) :
    initializeProperty cb T fields p = setProperty cb T p.name v := by
  funext w
  unfold initializeProperty
  rw [hget]
  dsimp only
  rw [initialValue_of_none p v hunkeyed, bind_of_ok (ofExcept_ok _ _)]

/-- Among the properties of a class, none is without an entry. -/
theorem filter_order_fieldsOf (hvalid : c.Valid) (hlen : js.length = c.descriptor.properties.length) :
    (c.graph.order.filter fun name => !(c.fieldsOf js).contains name) = [] := by
  refine List.filter_eq_nil_iff.2 fun name hname => ?_
  obtain ⟨p, hp, -, rfl⟩ := (hvalid.mem_order name).1 hname
  obtain ⟨n, hn⟩ := List.mem_iff_getElem?.1 hp
  have hj := List.getElem?_eq_getElem (hlen.symm ▸ (List.getElem?_eq_some_iff.1 hn).1)
  unfold Dict.contains
  rw [hvalid.get?_fieldsOf hlen hn hj]
  exact Bool.false_ne_true

/-- Making an instance of a class of which there has been one. It stands nowhere, and its root is a new node. -/
theorem create_of_creatable (hcreatable : c.descriptor.Creatable) (hw : w.Quiet) {id : ClassId}
    (hc : w.class? id = some c) : ∃ i w', create id c w = (.ok i, w') ∧ w'.Quiet ∧ w'.classOf? i = some c ∧
      w'.isAlive i = true ∧ w.Aloof w' ∧ w.inst? i = none ∧ w'.placeOf? i = none ∧
        ∀ r, w'.rootOf? i = some r → w.forest.size ≤ r.index := by
  obtain ⟨⟨i, w₁⟩, hmade⟩ := World.exists_createInstance hcreatable w id
  have hrun : create id c w = (.ok i, { w₁ with pins := .inst i :: w₁.pins }) := by
    unfold create
    rw [bind_of_ok (get_apply w), hmade]
    rfl
  obtain ⟨j, w₂, hcreate, hready, hmem, hrespects, hfresh, -⟩ :=
    (create_spec hw.orderly hc).resolve_right fun ⟨e, _, h⟩ => by
      rw [hrun] at h
      cases h
  obtain ⟨rfl, rfl⟩ : i = j ∧ { w₁ with pins := .inst i :: w₁.pins } = w₂ := by
    rw [hrun] at hcreate
    exact ⟨Except.ok.inj (Prod.mk.inj hcreate).1, (Prod.mk.inj hcreate).2⟩
  obtain ⟨-, view, b, b', hjoins⟩ := createInstance_joins hmade
  have haloof := hjoins.aloof hw.orderly hc
  have hadds := hjoins.adds hw.orderly.toBuilt hc
  have hsettled : ({ w₁ with pins := .inst i :: w₁.pins } : World).Settled := by
    have hkept := (hrespects _ hw.settled).anchored hw.settled
    have hall := HeldBy.anchored ⟨hready.safe.isAlive, .inl hmem⟩ hkept
    have hsame : (fun j => w.isAlive j = true ∨ j = i) = fun j => w₁.isAlive j = true :=
      funext fun j => propext (hjoins.isAlive_iff j).symm
    rw [hsame] at hall
    exact hall
  have hsteps := steps_create (S := Step) hc
  rw [hrun] at hsteps
  refine ⟨i, _, hrun, ⟨⟨hready.orderly, hsettled⟩, Steps.sound hsteps hw.sound⟩, hready.cls, hready.safe.isAlive,
    ⟨⟨haloof.classes, haloof.inst, haloof.coll⟩, haloof.free, haloof.adopts.size_le, haloof.adopts.up⟩, hfresh, ?_,
    fun r hr => ?_⟩
  · change w₁.placeOf? i = none
    rw [hjoins.placeOf?]
    unfold World.placeOf? World.attachment?
    rw [hfresh]
    rfl
  · obtain rfl := Option.some.inj (hadds.root_self.symm.trans hr)
    exact Nat.le_of_eq hadds.index.symm

variable (hcb : cb.Gentle) (hreal : cb.Realizes tbl level) (hdepicts : c.Depicts (Describes tbl level) js)

include hcb hreal hdepicts

/-- Giving the initial state fills the instance. -/
theorem giveInitialState_of_depicts (hw : w.Quiet) (htbl : w.classes = tbl) (hT : w.isAlive T = true)
    (hcls : w.classOf? T = some c) : ∃ w', giveInitialState cb T c (c.fieldsOf js) w = (.ok (), w') ∧
      Filling tbl T c level js (fun m => m ∈ c.descriptor.properties.map (·.name)) w' ∧ w.Aloof w' := by
  obtain ⟨x, hx, hc⟩ := exists_of_classOf? hcls
  obtain ⟨-, hwell, -⟩ := (hw.orderly.compiled.parsed hc).spec
  have hvalid := hw.orderly.compiled.valid hc
  obtain ⟨w₁, hattrs, hcalm⟩ := giveAttributes_ok hw.orderly.toBuilt hcls hwell (List.Subset.refl _)
  have hquiet₁ : w₁.Quiet := by
    have hsteps := Keeps.forM (fun a : AttributeDescriptor => proceeds_setAttribute (S := Step) T a.name a.default)
      c.descriptor.attributes w hw.sound
    rw [hattrs] at hsteps
    exact ⟨hcalm.atRest hw.toAtRest, Steps.sound hsteps hw.sound⟩
  have hstart : Filling tbl T c level js (fun _ => False) w₁ :=
    .start hquiet₁ (hcalm.shape.classes.trans htbl) ((hcalm.alive T).trans hT) (hcalm.classOf? hcls)
  obtain ⟨w₂, hprops, hfilling, haloof⟩ :=
    hstart.forM (initializeProperty cb T (c.fieldsOf js)) (·.name) c.descriptor.properties
      fun p hp done w h => by
        obtain ⟨n, hn⟩ := List.mem_iff_getElem?.1 hp
        have hj := List.getElem?_eq_getElem (hdepicts.length.symm ▸ (List.getElem?_eq_some_iff.1 hn).1)
        rw [initializeProperty_of_get? (hvalid.get?_fieldsOf hdepicts.length hn hj) (hdepicts.unkeyed p hp)]
        exact h.setProperty hcb hreal hdepicts hn hj
  refine ⟨w₂, ?_, hfilling.mono fun m hm => .inr hm, hcalm.aloof.trans haloof⟩
  have hplain : c.constructors = [] := (hw.orderly.plain x.classId.index c hc).1
  unfold giveInitialState
  rw [bind_of_ok hattrs, bind_of_ok hprops, filter_order_fieldsOf hvalid hdepicts.length, hplain]
  rfl

/-- So a new instance is populated. -/
theorem populate_of_depicts (hw : w.Quiet) (htbl : w.classes = tbl) (hT : w.isAlive T = true)
    (hcls : w.classOf? T = some c) : ∃ w', populate cb T c (c.fieldsOf js) w = (.ok T, w') ∧ w.Aloof w' ∧
      w'.isAlive T = true ∧ w'.Shows (level + 1) T (c.dataOf js) := by
  obtain ⟨w₁, hgive, hfilling, haloof⟩ := giveInitialState_of_depicts hcb hreal hdepicts hw htbl hT hcls
  obtain ⟨x, view, hx, -⟩ := hfilling.exists_record
  have hshows := hfilling.shows hdepicts (fun p hp => List.mem_map_of_mem hp) hx
  have hcalm : w₁.Calm ((flushQueue c.queue w₁).2.modifyInstance T fun x => { x with built := true }) :=
    (keeps_calm_flushQueue c.queue w₁).trans (calm_modifyInstance _ T (by exact fun _ => rfl) (by exact fun _ => rfl)
      (by exact fun _ => rfl) (by exact fun _ => rfl))
  have hintact : w₁.Intact (fun _ => False) _ := hcalm.intact fun P y name _ _ =>
    stored?_congr hcalm.shape (map_inst?_modifyInstance (·.values) (by exact fun _ => rfl) _ T P) name
  have halive := (hcalm.alive T).trans hfilling.alive
  refine ⟨_, populate_of_ok hgive, haloof.trans hcalm.aloof, halive, ?_⟩
  exact hshows.intact hintact hfilling.quiet.orderly (hcalm.orderly hfilling.quiet.orderly) (fun _ hin => hin.elim)
    hfilling.alive halive

theorem constructConcrete_of_depicts (hw : w.Quiet) (htbl : w.classes = tbl) {id : ClassId}
    (hc : w.class? id = some c) : ∃ i w', constructConcrete cb id c (some (.ofJson (c.dataOf js))) w = (.ok i, w') ∧
      w.Aloof w' ∧ w.Arises w' (level + 1) i (c.dataOf js) := by
  have hvalid := hw.orderly.compiled.valid hc
  obtain ⟨i, w₁, hcreate, hquiet₁, hcls, halive₁, haloof₁, hnew, hfree, hroot⟩ :=
    create_of_creatable hdepicts.creatable hw hc
  obtain ⟨w₂, hpopulate, haloof₂, halive₂, hshows⟩ :=
    populate_of_depicts hcb hreal hdepicts hquiet₁ (haloof₁.classes.trans htbl) halive₁ hcls
  have hknown : ((c.fieldsOf js).keys.find? fun k => (c.descriptor.property? k).isNone) = none := by
    refine List.find?_eq_none.2 fun k hk => ?_
    obtain ⟨e, he, rfl⟩ := List.mem_map.1 hk
    obtain ⟨n, p, j, hp, -, rfl⟩ := Class.exists_of_mem_fieldsOf he
    rw [hvalid.descriptor.property?_name (List.mem_of_getElem? hp)]
    exact Bool.false_ne_true
  refine ⟨i, w₂, ?_, haloof₁.trans haloof₂,
    haloof₂.arises hquiet₁.orderly halive₁ hnew hfree hroot halive₂ hshows⟩
  unfold constructConcrete
  rw [Class.ofJson_dataOf]
  dsimp only [initialFields]
  rw [bind_of_ok (ofExcept_ok _ _), hknown]
  dsimp only
  rw [bind_of_ok hcreate, hpopulate]

/-- A description makes an instance that shows it. -/
theorem constructInstance_of_depicts (hw : w.Quiet) (htbl : w.classes = tbl) {id : ClassId}
    (hc : w.class? id = some c) : ∃ i w', constructInstance cb id (some (.ofJson (c.dataOf js))) w = (.ok i, w') ∧
      w.Aloof w' ∧ w.Arises w' (level + 1) i (c.dataOf js) := by
  have hinit : ∀ v ∈ some (Value.ofJson (c.dataOf js)), v.instances ⊆ w.handles := by
    intro v hv
    obtain rfl := Option.some.inj hv
    rw [Value.instances_ofJson]
    exact List.nil_subset _
  obtain ⟨i, w₂, hconcrete, haloof, harises⟩ := constructConcrete_of_depicts hcb hreal hdepicts hw htbl hc
  have hrun : constructInstance cb id (some (.ofJson (c.dataOf js))) w =
      (.ok i, ({ w₂ with pins := [.inst i] ++ w.pins } : World).settle) := by
    unfold constructInstance
    rw [keeping_apply, bind_of_ok (theClass_of hc), hdepicts.concrete, if_neg Bool.false_ne_true, hconcrete]
    rfl
  -- the new instance is held when the construction lets go
  have hyields := yields_constructConcrete hcb.mild hw.orderly hc hinit
  have hrespects := hyields.respects _ w.anchored_empty
  have horderly := hyields.orderly
  rw [hconcrete] at hrespects horderly
  obtain ⟨hletgo, -⟩ : ({ w₂ with pins := [.inst i] ++ w.pins } : World).Orderly ∧ _ :=
    World.orderly_letGo horderly hrespects fun j hj => by
      obtain rfl := List.mem_singleton.1 hj
      exact harises.alive
  have hsub := World.subsides_settle hletgo
  have hends : Yields (constructInstance cb id (some (.ofJson (c.dataOf js)))) w _ :=
    yields_constructInstance hcb.mild hw.orderly hinit
  have halive := hends.orderly.handled i (hends.result i (by rw [hrun])).1
  rw [hrun] at halive
  have hshows := harises.shows.intact hsub.intact horderly hsub.orderly (fun _ hin => hin.elim) harises.alive halive
  exact ⟨i, _, hrun, haloof.trans hsub.toAloof,
    hsub.toAloof.arises horderly harises.alive harises.new harises.free harises.root halive hshows⟩

end Run

/-- Callbacks that are deep enough construct everything that can be described. -/
theorem Callbacks.realizes_ofDepth (tbl : Table Class) {level depth : Nat} (hle : level ≤ depth) :
    (Callbacks.ofDepth depth).Realizes tbl level := by
  induction depth generalizing level with
  | zero =>
    obtain rfl := Nat.le_zero.1 hle
    exact fun _ _ _ _ _ hj => hj.elim
  | succ depth ih =>
    intro w id j hw htbl hj
    cases level with
    | zero => exact hj.elim
    | succ level =>
      obtain ⟨c, js, hc, hdepicts, rfl⟩ := hj
      have hclass : w.class? id = some c := by
        rw [← htbl] at hc
        exact hc
      exact Run.constructInstance_of_depicts (gentle_ofDepth depth) (ih (Nat.le_of_succ_le_succ hle)) hdepicts hw
        htbl hclass

end ReactiveView
