import ReactiveView.Proofs.Ownership.Property
import ReactiveView.World.Construction

/-!
# Constructing

A construction among plain classes is mild, however deeply it nests (`Callbacks.mild_ofDepth`): it does no
harm to what is anchored, raises no range error, and what it gives is a new instance that is held. The new
instance is tended while it is given its initial state, and while a construction that fails sets free what
it has taken (`Run.tending_releaseChildren`).
-/

set_option autoImplicit false

namespace ReactiveView

/-! ## Views that cannot be built -/

namespace Building

variable {d : Descriptor} {b : Building} {e : Error}

theorem kind_addPlace {source : Source} {place : BoundNode} (h : b.addPlace d source place = .error e) :
    e.kind = .logicKind := by
  unfold addPlace at h
  split at h
  all_goals
    split at h
    · cases h
    · obtain rfl := Except.error.inj h
      rfl

theorem kind_addPlaces {place : BoundNode} {sources : List Source}
    (h : b.addPlaces d place sources = .error e) : e.kind = .logicKind := by
  induction sources generalizing b with
  | nil => cases h
  | cons s rest ih =>
    unfold addPlaces at h
    split at h
    · next h₁ =>
      obtain rfl := Except.error.inj h
      exact kind_addPlace h₁
    · exact ih h

theorem kind_addAttributes {n : NodeId} {attrs : List AttributeShape}
    (h : b.addAttributes d n attrs = .error e) : e.kind = .logicKind := by
  induction attrs generalizing b with
  | nil => cases h
  | cons a rest ih =>
    unfold addAttributes at h
    split at h
    · exact ih h
    · dsimp only at h
      split at h
      · next h₁ =>
        obtain rfl := Except.error.inj h
        exact kind_addPlaces h₁
      · exact ih h

mutual

theorem kind_build {owner : InstanceId} {around : Option Sink} {b : Building} {e : Error} :
    ∀ v : ViewNode, b.build d owner around v = .error e → e.kind = .logicKind
  | .element shape children, h => by
    unfold build at h
    dsimp only at h
    split at h
    · next h₁ =>
      obtain rfl := Except.error.inj h
      exact kind_addAttributes h₁
    · split at h
      · next h₁ =>
        obtain rfl := Except.error.inj h
        exact kind_buildAll children h₁
      · cases h
  | .text value source, h => by
    unfold build at h
    dsimp only at h
    split at h
    · next h₁ =>
      obtain rfl := Except.error.inj h
      exact kind_addPlaces h₁
    · cases h
  | .marker value property, h => by
    unfold build at h
    dsimp only at h
    split at h <;> cases h
  | .extensionPoint, h => by
    unfold build at h
    cases h

theorem kind_buildAll {owner : InstanceId} {sink : Sink} {b : Building} {e : Error} :
    ∀ vs : List ViewNode, buildAll d owner sink b vs = .error e → e.kind = .logicKind
  | [], h => by
    unfold buildAll at h
    cases h
  | v :: rest, h => by
    unfold buildAll at h
    split at h
    · next h₁ =>
      obtain rfl := Except.error.inj h
      exact kind_build v h₁
    · exact kind_buildAll rest h
    · exact kind_buildAll rest h

end

end Building

namespace World

variable {w w' : World} {T i : InstanceId} {c : Class} {H : List InstanceId} {e : Error}

theorem kind_sitesOf {owner : InstanceId} {anchors : Dict String (NodeId × Sink)}
    {ps : List PropertyDescriptor} {nodes : List NodeSet}
    (h : w.sitesOf owner anchors ps nodes = .error e) : e.kind = .logicKind := by
  induction ps generalizing w nodes with
  | nil => cases h
  | cons p ps ih =>
    unfold sitesOf at h
    split at h
    · next h₁ =>
      obtain rfl := Except.error.inj h
      unfold siteOf at h₁
      split at h₁
      · cases h₁
      all_goals
        split at h₁
        · cases h₁
        · obtain rfl := Except.error.inj h₁
          rfl
    · split at h
      · next h₁ =>
        obtain rfl := Except.error.inj h
        exact ih h₁
      · cases h

/-- A view that cannot be built is a fault in the logic of its class. -/
theorem kind_createInstance {id : ClassId} {d : Descriptor} (h : w.createInstance id d = .error e) :
    e.kind = .logicKind := by
  unfold createInstance at h
  dsimp only at h
  split at h
  · next hview =>
    obtain rfl := Except.error.inj h
    unfold bindView at hview
    split at hview
    · dsimp only at hview
      split at hview
      · next hbuild =>
        obtain rfl := Except.error.inj hview
        exact Building.kind_build _ hbuild
      · obtain rfl := Except.error.inj hview
        rfl
      · split at hview
        · next hsites =>
          obtain rfl := Except.error.inj hview
          exact kind_sitesOf hsites
        · cases hview
    · obtain rfl := Except.error.inj hview
      rfl
  · cases h

/-! ## Setting children free -/

/-- The value at a position of an instance. -/
def valueAt? (w : World) (i : InstanceId) (n : Nat) : Option Value :=
  (w.inst? i).bind fun x => x.values[n]?

/-- The values of `T` at positions other than `n` stay. -/
def StaysBeside (T : InstanceId) (n : Nat) (w w' : World) : Prop :=
  ∀ m, m ≠ n → w'.valueAt? T m = w.valueAt? T m

instance {n : Nat} : IsFrame (StaysBeside T n) where
  refl _ _ _ := rfl
  trans _ _ _ h h' m hm := (h' m hm).trans (h m hm)
  same w w' _ hi m _ := by
    unfold valueAt? inst?
    rw [hi]
  modify w i f hf m _ := by
    unfold valueAt?
    by_cases hi : i = T
    · subst hi
      rw [inst?_modifyInstance_self]
      cases w.inst? i with
      | none => rfl
      | some x => exact congrArg (·[m]?) (hf x).values
    · rw [inst?_modifyInstance_of_ne w f hi]

theorem staysBeside_storeValue (n : Nat) (v : Value) : StaysBeside T n w (w.storeValue T n v) := by
  intro m hm
  unfold valueAt? storeValue
  rw [inst?_modifyInstance_self]
  cases w.inst? T with
  | none => rfl
  | some x => exact List.getElem?_set_ne (Ne.symm hm)

end World

namespace Run

open World

variable {cb : Callbacks} {T : InstanceId} {c : Class} {H : List InstanceId} {w : World} {n : Nat}

/-- Emptying a collection constructs nothing. -/
theorem replaceAll_nil (cb : Callbacks) (k : CollectionId) :
    replaceAll cb k [] = replaceAll Callbacks.exhausted k [] := rfl

theorem staysBeside_releaseChild (cb : Callbacks) (T : InstanceId) (n : Nat) (v : Value) : Keeps (StaysBeside T n) (releaseChild cb T n v) := by
  unfold releaseChild
  split
  · exact (keeps_release _).tolerate.bind fun _ w => staysBeside_storeValue n .null
  · rw [replaceAll_nil]
    refine Keeps.tolerate ((keeps_replaceAll (fun _ _ => ?_) _ _).bind fun _ => keeps_pure _)
    exact keeps_throw _
  · exact keeps_pure _

/-- Setting free what stands in a property is to put nothing there. -/
theorem tending_releaseChild {v : Value} (hv : w.valueAt? T n = some v) :
    Tending T c H (releaseChild cb T n v) w := by
  refine .of_ready fun hw => ?_
  obtain ⟨y, view, hy, hc, hf⟩ := hw.exists_record
  have hval : y.values[n]? = some v := by
    unfold valueAt? at hv
    rw [hy] at hv
    exact hv
  obtain ⟨p, site, hp, -, hfits⟩ := hf.exists_fits hval
  generalize hk : p.kind = k at hfits
  cases hfits with
  | primitive hprim =>
    have hnone : releaseChild cb T n v w = (.ok (), w) := by
      cases v <;> first | rfl | cases hprim
    refine .of_same (by rw [hnone]) ?_
    rw [hnone]
    exact unranged_ok ()
  | empty => exact .pure ()
  | @child _ _ _ i =>
    have hlinked := hw.orderly.linked
    have halive := hw.safe.isAlive
    obtain ⟨-, m, sink, val, -, -, hval', hocc, hspot⟩ := slot_spec hw.orderly hy hc hp hk halive
    obtain rfl := Option.some.inj (hval.symm.trans hval')
    obtain ⟨w₂, occ₂, hrun, hcolls, hmoves, hocc₂⟩ := release_child_ok none hspot
      (.rfl hlinked halive hspot) rfl (show _ = none.toList ++ (some i).toList from hocc) (Or.inl rfl)
    have hrefills := refills_storeValue hw.orderly hy hc hp hk halive hspot hmoves hcolls hocc₂
    have hall : releaseChild cb T n (.inst i) w = (.ok (), w₂.storeValue T n .null) := by
      have htolerate : tolerate (release i) w = (.ok (), w₂) := by
        refine (tryCatch_apply _ _ w).trans ?_
        rw [forM_some] at hrun
        rw [hrun]
      exact (bind_of_ok htolerate).trans rfl
    refine ⟨?_, fun _ => ?_⟩
    · rw [hall]
      exact hrefills.edits.tends hrefills.orderly
    · rw [hall]
      exact unranged_ok ()
  | sequence hx howner helement =>
    refine Tending.tolerate ?_
    exact (closing_replaceAll hw hx howner (coerces_nil hw.orderly)).toTending.bind fun _ _ _ _ => .pure ()

theorem tending_forM_releaseChild {es : List (Value × Nat)} (hnodup : (es.map (·.2)).Nodup)
    (hes : ∀ e ∈ es, w.valueAt? T e.2 = some e.1) :
    Tending T c H (es.forM fun e => releaseChild cb T e.2 e.1) w := by
  induction es generalizing w with
  | nil => exact .pure ()
  | cons e es ih =>
    obtain ⟨hnot, hnodup⟩ := List.nodup_cons.1 hnodup
    have hstays := staysBeside_releaseChild cb T e.2 e.1 w
    refine (tending_releaseChild (hes e List.mem_cons_self)).bind fun _ w' hrun _ => ih hnodup ?_
    intro e' he'
    have hne : e'.2 ≠ e.2 := fun heq => hnot (List.mem_map.2 ⟨e', he', heq⟩)
    rw [hrun] at hstays
    rw [hstays e'.2 hne, hes e' (List.mem_cons_of_mem e he')]

/-- What an instance has taken is set free one property after the other. -/
theorem tending_releaseChildren : Tending T c H (releaseChildren cb T) w := by
  refine .of_ready fun hw => ?_
  obtain ⟨y, -, hy, -, -⟩ := hw.exists_record
  refine .bind_same (theInstance_of hy) (tending_forM_releaseChild ?_ fun e he => ?_)
  · rw [List.zipIdx_map_snd]
    exact List.nodup_range'
  · unfold valueAt?
    rw [hy]
    exact List.mem_zipIdx_iff_getElem?.1 he

/-! ## The initial state -/

/-- The instances of the entries. -/
theorem mem_instancesOfFields {fields : List (String × Value)} {i : InstanceId} :
    i ∈ Value.instancesOfFields fields ↔ ∃ e ∈ fields, i ∈ e.2.instances := by
  induction fields with
  | nil => simp [Value.instancesOfFields]
  | cons f fields ih => simp [Value.instancesOfFields, ih]

/-- Putting a value into plain data brings in no other instances. -/
theorem instances_mergedWith {base given v : Value} {key : String} (hbase : base.instances = [])
    (h : base.mergedWith (.object [(key, given)]) = some v) : v.instances ⊆ given.instances := by
  cases base with
  | object fields =>
    obtain rfl := Option.some.inj h
    intro i hi
    obtain ⟨e, he, hie⟩ := mem_instancesOfFields.1 hi
    rcases Dict.eq_or_mem_of_mem_insert he with rfl | hmem
    · exact hie
    · have hnone : i ∈ Value.instances (.object fields) := mem_instancesOfFields.2 ⟨e, hmem, hie⟩
      rw [hbase] at hnone
      cases hnone
  | _ => cases h

/-- A property starts with no instances but those that are given. -/
theorem instances_initialValue {p : PropertyDescriptor} {given v : Value} (hp : p.default.Plain)
    (h : initialValue p given = .ok v) : v.instances ⊆ given.instances := by
  unfold initialValue at h
  split at h
  · obtain rfl := Except.ok.inj h
    exact List.Subset.refl _
  · dsimp only at h
    split at h
    · next hmerged =>
      obtain rfl := Except.ok.inj h
      refine instances_mergedWith ?_ hmerged
      split
      · rfl
      · exact hp.instances
    · cases h

theorem tending_setAttribute (name : String) (v : Value) : Tending T c H (setAttribute T name v) w :=
  .of_calmAt (fun w _ _ _ => keeps_calm_setAttribute T name v w)
    fun _ => unranged_setAttribute T name v w

section Populate

variable (hcb : cb.Mild) {fields : Dict String Value} (hfields : Value.instancesOfFields fields ⊆ H)

include hcb hfields

theorem tending_initializeProperty {p : PropertyDescriptor} (hp : p.default.Plain) :
    Tending T c H (initializeProperty cb T fields p) w := by
  unfold initializeProperty
  cases hget : fields.get? p.name with
  | none =>
    have hnone : p.default.instances ⊆ H := by
      rw [hp.instances]
      exact List.nil_subset _
    exact (closing_setProperty hcb p.name hnone).toTending
  | some given =>
    dsimp only
    cases hinit : initialValue p given with
    | error e =>
      refine .of_same rfl (unranged_failed ?_)
      unfold initialValue at hinit
      split at hinit
      · cases hinit
      · dsimp only at hinit
        split at hinit
        · cases hinit
        · obtain rfl := Except.error.inj hinit
          exact fun h => by cases h
    | ok v =>
      refine .bind_same (ofExcept_ok v w) (closing_setProperty hcb p.name ?_).toTending
      have hgiven : given.instances ⊆ Value.instancesOfFields fields := fun i hi =>
        mem_instancesOfFields.2 ⟨_, Dict.mem_of_get? hget, hi⟩
      exact List.Subset.trans (instances_initialValue hp hinit) (List.Subset.trans hgiven hfields)

theorem tending_giveInitialState : Tending T c H (giveInitialState cb T c fields) w := by
  refine .of_ready fun hw => ?_
  obtain ⟨y, -, -, hc, -⟩ := hw.exists_record
  have hvalid := hw.valid
  have hplain := (hw.orderly.plain _ c hc).1
  refine (Tending.forM (fun a _ w => tending_setAttribute a.name a.default) w).bind fun _ w₁ _ _ => ?_
  refine (Tending.forM (fun p hp w => ?_) w₁).bind fun _ w₂ _ _ => ?_
  · exact tending_initializeProperty hcb hfields (hvalid.descriptor.sound p hp).default
  · refine (Tending.forM (fun name _ w => ?_) w₂).bind fun _ w₃ _ _ => ?_
    · exact (closing_recomputeBinding name).toTending
    · rw [hplain]
      exact .pure ()

theorem tending_populate : Tending T c H (populate cb T c fields) w := by
  have hgive : Tending T c H (giveInitialState cb T c fields) w := tending_giveInitialState hcb hfields
  have hflush (w : World) : Tending T c H (flushQueue c.queue) w :=
    .of_calmAt (fun w _ _ _ => keeps_calm_flushQueue c.queue w) fun _ => unranged_ok _
  refine .of_ready fun hw => ?_
  refine (hgive.tryCatch fun e w₁ hrun _ => ?_).bind fun _ w₂ _ _ => ?_
  · have hunranged := hgive.unranged hw
    rw [hrun] at hunranged
    exact tending_releaseChildren.bind fun _ w₂ _ _ => (hflush w₂).bind fun _ w₃ _ _ =>
      .of_same rfl hunranged
  · refine (hflush w₂).bind fun _ w₃ _ _ => Tending.bind ⟨?_, fun _ => unranged_ok ()⟩ fun _ w₄ _ _ => .pure T
    have hcalm : w₃.Calm (w₃.modifyInstance T fun x => { x with built := true }) :=
      calm_modifyInstance w₃ T (fun _ => rfl) (fun _ => rfl) (fun _ => rfl) fun _ => rfl
    exact hcalm.tends

end Populate

/-! ## Construction -/

/-- What a construction gives: a new instance of the class. -/
def Makes (id : ClassId) (w : World) (i : InstanceId) (w' : World) : Prop :=
  w.inst? i = none ∧ ∃ x, w'.inst? i = some x ∧ x.classId = id

theorem populate_eq_ok {i j : InstanceId} {fields : Dict String Value} {w' : World}
    (h : populate cb i c fields w = (.ok j, w')) : j = i := by
  unfold populate at h
  obtain ⟨_, _, -, h⟩ := bind_eq_ok_iff.1 h
  obtain ⟨_, _, -, h⟩ := bind_eq_ok_iff.1 h
  obtain ⟨_, _, -, h⟩ := bind_eq_ok_iff.1 h
  exact (Except.ok.inj (Prod.mk.inj h).1).symm

/-- Making an instance fails with a fault in the logic of its class, or the code in progress keeps hold of
a new instance, which is ready to be tended. -/
theorem create_spec (hw : w.Orderly) {id : ClassId} (hc : w.class? id = some c) :
    (∃ i w₂, create id c w = (.ok i, w₂) ∧ w₂.Ready i c w.handles ∧ i ∈ w₂.handles ∧
        (∀ K, w.Anchored K → w.Respects K w₂) ∧ Makes id w i w₂) ∨
      ∃ e, e.kind = .logicKind ∧ create id c w = (.error (.failed e), w) := by
  unfold create
  rw [bind_of_ok (get_apply w)]
  cases hcreate : w.createInstance id c.descriptor with
  | error e => exact Or.inr ⟨e, kind_createInstance hcreate, rfl⟩
  | ok made =>
    obtain ⟨i, w₁⟩ := made
    obtain ⟨-, view, b, b', hjoins⟩ := createInstance_joins hcreate
    obtain ⟨attrs, hself⟩ := hjoins.self
    have hw₁ := hjoins.orderly hw hc
    have halive : w₁.isAlive i = true := (hjoins.isAlive_iff i).2 (Or.inr rfl)
    have hrespects (K : InstanceId → Prop) (hK : w.Anchored K) :
        w.Respects K { w₁ with pins := .inst i :: w₁.pins } := by
      have hr₁ := hjoins.respects hw hc hK
      exact hr₁.trans (respects_rehold (hr₁.anchored hK) (List.subset_cons_self _ _))
    have hw₂ : ({ w₁ with pins := .inst i :: w₁.pins } : World).Orderly := by
      refine hw₁.rehold (g := w₁.registry) fun j hj => ?_
      rcases List.mem_cons.1 hj with rfl | hj
      · exact halive
      · exact hw₁.handled j hj
    have hmem : i ∈ ({ w₁ with pins := .inst i :: w₁.pins } : World).handles := List.mem_cons_self
    refine Or.inl ⟨i, _, rfl, ⟨hw₂, (hrespects _ w.anchored_empty).handles, hw₂.safe_of_handle hmem, ?_⟩,
      hmem, hrespects, hjoins.fresh, _, hself, rfl⟩
    change ((w₁.inst? i).bind fun x => w₁.class? x.classId) = some c
    rw [hself, Option.bind_some, hjoins.class?, hc]

/-- Making an instance and giving it its initial state. -/
theorem yields_create_populate (hcb : cb.Mild) (hw : w.Orderly) {id : ClassId}
    (hc : w.class? id = some c) {fields : Dict String Value}
    (hfields : Value.instancesOfFields fields ⊆ w.handles) :
    Yields (create id c >>= fun i => populate cb i c fields) w fun i w' =>
      w'.isAlive i = true ∧ Makes id w i w' := by
  rcases create_spec hw hc with ⟨i, w₂, hcreate, hready, hmem, hrespects, hfresh, x, hx, hid⟩ |
    ⟨e, hkind, hcreate⟩
  · have hrun := bind_of_ok (f := fun i => populate cb i c fields) hcreate
    have hpopulate : Tending i c w.handles (populate cb i c fields) w₂ := tending_populate hcb hfields
    obtain ⟨hw₃, hr₃⟩ := hpopulate.tends hready
    have hunranged := hpopulate.unranged hready
    -- nothing that was anchored before is the new instance
    have hother (K : InstanceId → Prop) (hK : w.Anchored K) : ¬ K i := by
      intro hi
      have halive := (hK i hi).1
      unfold isAlive at halive
      rw [hfresh] at halive
      cases halive
    refine ⟨?_, fun K hK => ?_, ?_, fun j hj => ?_⟩
    · rw [hrun]
      exact hw₃
    · rw [hrun]
      exact (hrespects K hK).trans (hr₃ K ((hrespects K hK).anchored hK) (hother K hK)).1
    · rw [hrun]
      exact hunranged
    · rw [hrun] at hj ⊢
      rcases hpop : populate cb i c fields w₂ with ⟨r, w₃⟩
      rw [hpop] at hj hr₃
      obtain rfl : r = .ok j := hj
      obtain rfl := populate_eq_ok hpop
      obtain ⟨hr, halive⟩ := hr₃ _ (anchored_empty _) fun h => h
      obtain ⟨y, hy, hyx⟩ := hr.inst j x hx
      refine ⟨halive ⟨hready.safe.isAlive, Or.inl hmem⟩, hfresh, y, hy, ?_⟩
      exact (congrArg (·.1) hyx : y.classId = x.classId).trans hid
  · exact .of_error hw (bind_of_error hcreate) (unranged_failed fun h => by rw [hkind] at h; cases h)

theorem yields_constructConcrete (hcb : cb.Mild) (hw : w.Orderly) {id : ClassId}
    (hc : w.class? id = some c) {init : Option Value} (hinit : ∀ v ∈ init, v.instances ⊆ w.handles) :
    Yields (constructConcrete cb id c init) w fun i w' => w'.isAlive i = true ∧ Makes id w i w' := by
  unfold constructConcrete
  cases hfields : initialFields c.name init with
  | error e =>
    refine .of_error hw rfl (unranged_failed fun h => ?_)
    unfold initialFields at hfields
    split at hfields
    all_goals cases hfields
    cases h
  | ok fields =>
    have hmem : Value.instancesOfFields fields ⊆ w.handles := by
      rcases (initialFields_eq_ok_iff c.name init fields).1 hfields with ⟨rfl, -⟩ | rfl
      · exact List.nil_subset _
      · exact hinit (.object fields) rfl
    have hok : Yields (ofExcept (.ok fields)) w fun a w' => a = fields ∧ w' = w :=
      .of_ok hw (ofExcept_ok fields w) ⟨rfl, rfl⟩
    refine hok.bind fun a w' ha _ _ => ?_
    obtain ⟨rfl, rfl⟩ := ha
    split
    · exact .of_error hw rfl (unranged_failed fun h => by cases h)
    · exact yields_create_populate hcb hw hc hmem

/-- What a construction does before it lets go. -/
theorem yields_construction (hcb : cb.Mild) {id : ClassId} {init : Option Value} (hw : w.Orderly)
    (hinit : ∀ v ∈ init, v.instances ⊆ w.handles) :
    Yields (do
      let c ← theClass id
      if c.descriptor.isAbstract then
        match c.factory, c.ns with
        | some factory, some space => throughFactory cb id space factory init
        | _, _ => fail (.abstractClass c.name)
      else constructConcrete cb id c init) w fun i w' => w'.isAlive i = true ∧ Makes id w i w' := by
  cases hc : w.class? id with
  | none =>
    exact .of_error hw (bind_of_error (theClass_of_none hc)) unranged_lost
  | some c =>
    have hclass : Yields (theClass id) w fun a w' => a = c ∧ w' = w :=
      .of_ok hw (theClass_of hc) ⟨rfl, rfl⟩
    refine hclass.bind fun a w' ha _ _ => ?_
    obtain ⟨rfl, rfl⟩ := ha
    split
    · rw [(hw.plain _ a hc).2]
      exact .of_error hw rfl (unranged_failed fun h => by cases h)
    · exact yields_constructConcrete hcb hw hc hinit

/-- Constructions with mild callbacks are mild. -/
theorem yields_constructInstance (hcb : cb.Mild) {id : ClassId} {init : Option Value} (hw : w.Orderly)
    (hinit : ∀ v ∈ init, v.instances ⊆ w.handles) :
    Yields (constructInstance cb id init) w fun i w' => i ∈ w'.handles ∧ Makes id w i w' := by
  refine (yields_construction hcb hw hinit).keeping (fun i w' hi _ j hj => ?_)
    fun i w' w'' hi hext hkept => ?_
  · obtain rfl := List.mem_singleton.1 hj
    exact hi.1
  · obtain ⟨-, hfresh, x, hx, hid⟩ := hi
    obtain ⟨y, hy, hyx⟩ := hext.inst i x hx
    refine ⟨List.mem_append_left _ (List.mem_filterMap.2 ⟨.inst i, ?_, rfl⟩), hfresh, y, hy, ?_⟩
    · exact hkept List.mem_cons_self
    · exact (congrArg (·.1) hyx : y.classId = x.classId).trans hid

/-- A construction leaves everything in use held. -/
theorem settled_constructInstance (hcb : cb.Mild) {id : ClassId} {init : Option Value} (hw : w.Orderly)
    (hinit : ∀ v ∈ init, v.instances ⊆ w.handles) : (constructInstance cb id init w).2.Settled := by
  refine settled_keeping (yields_construction hcb hw hinit) fun i w' hi j hj => ?_
  obtain rfl := List.mem_singleton.1 hj
  exact hi.1

end Run

/-- Among plain classes constructions are mild, however deeply they nest. -/
theorem Callbacks.mild_ofDepth (depth : Nat) : (Callbacks.ofDepth depth).Mild := by
  induction depth with
  | zero => exact fun id init w hw _ => .of_error hw rfl Run.unranged_exhausted
  | succ depth ih => exact fun id init w hw hinit => Run.yields_constructInstance ih hw hinit

end ReactiveView
