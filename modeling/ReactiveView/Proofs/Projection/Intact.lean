import ReactiveView.Proofs.Ownership.Calls
import ReactiveView.Proofs.Ownership.LettingGo
import ReactiveView.Proofs.Projection.Data

/-!
# What stays intact

While one instance is written, everything else that stays in use holds what it held. This is said of the
worlds before and after (`World.Intact`), with the places that may change as a parameter: letting go changes
no place of an instance that stays (`World.Orderly.intact_settle`), filling a place changes this one
(`World.Refills.intact`), and constructing an instance changes none (`World.AtRest.intact_construct`).

The projection of an instance is made of what stands below it (`World.PartOf`). When everything below it is
younger than what it stands in (`World.Descends`), as it is right after construction, writes to an older
instance leave the projection alone (`World.Intact.instanceData`).
-/

set_option autoImplicit false

namespace ReactiveView

namespace World

variable {w w' w'' : World} {hit : Place → Prop} {i : InstanceId}

/-! ## Intact places -/

/-- Apart from the places that are hit, whatever is in use before and after holds what it held. -/
structure Intact (hit : Place → Prop) (w w' : World) : Prop extends Extends w w' where
  stored : ∀ P x name, w.inst? P = some x → ¬ hit (.slot P name) → w'.stored? P name = w.stored? P name
  occ : ∀ pl P m, w.layout.spot pl = some (P, m) → ¬ hit pl → w.isAlive P = true → w'.isAlive P = true →
    w'.occupants pl = w.occupants pl

namespace Intact

theorem rfl : w.Intact hit w := ⟨.rfl, fun _ _ _ _ _ => .refl _, fun _ _ _ _ _ _ _ => .refl _⟩

/-- Two steps, when nobody is gone in between who comes back. -/
theorem trans (h : w.Intact hit w') (h' : w'.Intact hit w'')
    (hback : ∀ P, w.isAlive P = true → w''.isAlive P = true → w'.isAlive P = true) : w.Intact hit w'' where
  toExtends := h.toExtends.trans h'.toExtends
  stored P x name hx hhit := by
    obtain ⟨y, hy, -⟩ := h.inst P x hx
    exact (h'.stored P y name hy hhit).trans (h.stored P x name hx hhit)
  occ pl P m hspot hhit halive halive' := by
    have hmid := hback P halive halive'
    exact (h'.occ pl P m (h.spot hspot) hhit hmid halive').trans (h.occ pl P m hspot hhit halive hmid)

theorem mono {hit' : Place → Prop} (h : w.Intact hit w') (hle : ∀ pl, hit pl → hit' pl) :
    w.Intact hit' w' where
  toExtends := h.toExtends
  stored P x name hx hhit := h.stored P x name hx fun hin => hhit (hle _ hin)
  occ pl P m hspot hhit := h.occ pl P m hspot fun hin => hhit (hle _ hin)

end Intact

/-- A property at a position holds the value that is stored under its name. -/
theorem stored?_of_getElem? {x : Instance} {c : Class} {n : Nat} {p : PropertyDescriptor}
    (hx : w.inst? i = some x) (hc : w.class? x.classId = some c) (hvalid : c.Valid)
    (hp : c.descriptor.properties[n]? = some p) : w.stored? i p.name = x.values[n]? := by
  unfold stored? Class.valueIn
  rw [hx, Option.bind_some, hc, Option.bind_some, hvalid.descriptor.propertyIndex?_name hp, Option.bind_some]

/-- An instance that is not hit has the same values. -/
theorem Intact.values (h : w.Intact hit w') (hb : w.Built) (hb' : w'.Built) {x : Instance}
    (hx : w.inst? i = some x) (hhit : ∀ name, ¬ hit (.slot i name)) :
    ∃ y, w'.inst? i = some y ∧ y.classId = x.classId ∧ y.values = x.values := by
  obtain ⟨c, view, hf⟩ := hb.inst i x hx
  obtain ⟨y, hy, hshape⟩ := h.inst i x hx
  have hclass : y.classId = x.classId := congrArg Prod.fst hshape
  have hc' : w'.class? y.classId = some c := by
    rw [hclass, h.class?]
    exact hf.cls
  obtain ⟨view', hf'⟩ := hb'.formed hy hc'
  have hvalid := hb.compiled.valid hf.cls
  refine ⟨y, hy, hclass, List.ext_getElem? fun n => ?_⟩
  cases hp : c.descriptor.properties[n]? with
  | none =>
    have hlen := List.getElem?_eq_none_iff.1 hp
    rw [List.getElem?_eq_none (hf'.values ▸ hlen), List.getElem?_eq_none (hf.values ▸ hlen)]
  | some p =>
    rw [← stored?_of_getElem? hy hc' hvalid hp, ← stored?_of_getElem? hx hf.cls hvalid hp]
    exact h.stored i x p.name hx (hhit p.name)

/-! ## Steps that leave places intact -/

/-- The same instances with the same values, classes and collections. -/
theorem Extends.intact (h : w.Extends w')
    (hvalues : ∀ i x, w.inst? i = some x → ∃ y, w'.inst? i = some y ∧ y.classId = x.classId ∧ y.values = x.values)
    (hocc : ∀ pl P m, w.layout.spot pl = some (P, m) → w.isAlive P = true → w'.isAlive P = true →
      w'.occupants pl = w.occupants pl) : w.Intact hit w' where
  toExtends := h
  stored P x name hx _ := by
    obtain ⟨y, hy, hclass, hvals⟩ := hvalues P x hx
    unfold stored?
    rw [hx, hy, Option.bind_some, Option.bind_some, hclass, hvals, h.class?]
  occ pl P m hspot _ := hocc pl P m hspot

theorem Orderly.intact_settle (hw : w.Orderly) : w.Intact hit w.settle := by
  have hlets := hw.letsGo_settle
  refine hw.respects_settle.toExtends.intact (fun i x hx => ?_) fun pl P m hspot _ halive =>
    hw.respects_settle.occ pl P m halive hspot
  have hrecord := hlets.record i
  rw [hx] at hrecord
  obtain ⟨y, hy, hsame⟩ := Option.map_eq_some_iff.1 hrecord
  have hclass : y.lasting.classId = x.lasting.classId := congrArg Instance.classId hsame
  have hvalues : y.lasting.values = x.lasting.values := congrArg Instance.values hsame
  exact ⟨y, hy, hclass, hvalues⟩

theorem Refills.intact {pl : Place} {P : InstanceId} {m : NodeId} {is : List InstanceId}
    (h : w.Refills pl P m is w') : w.Intact (· = pl) w' where
  toExtends := .of_sameShape h.edits.shape
  stored Q _ name _ hne := h.stored Q name hne
  occ pl' _ _ _ hne _ _ := by rw [h.occupants, Function.update_of_ne hne]

/-- Constructing an instance leaves everything intact. -/
theorem AtRest.intact_construct {cb : Callbacks} (hmild : cb.Mild) (hdiscreet : ∀ j, cb.Discreet PlainClasses j)
    (hw : w.AtRest) {id : ClassId} {init : Option Value} (hinit : ∀ v ∈ init, v.instances ⊆ w.handles) :
    w.Intact hit (cb.construct id init w).2 ∧
      ∀ P, w.isAlive P = true → (cb.construct id init w).2.isAlive P = true := by
  have hr := (hmild id init w hw.orderly hinit).respects _ hw.settled
  refine ⟨hr.toExtends.intact (fun j x hx => ?_) fun pl P m hspot halive _ => hr.occ pl P m halive hspot,
    fun P => hr.alive P⟩
  obtain ⟨-, hspares⟩ := hdiscreet j id init w hw.orderly.plain
  obtain ⟨y, hy, hagrees⟩ := hspares.inst x hx
  exact ⟨y, hy, hagrees.classId, List.ext_getElem? fun n => hagrees.values n not_false⟩

/-! ## What stands below an instance -/

/-- An instance stands in a property of another one: in a slot, or among the items of a collection. -/
def PartOf (w : World) (k i : InstanceId) : Prop :=
  ∃ x v, w.inst? i = some x ∧ v ∈ x.values ∧ (v = .inst k ∨ ∃ c, v = .coll c ∧ k ∈ w.itemsOf c)

/-- What stands in a property of an instance in use occupies a place of it. -/
theorem Orderly.under_of_partOf (hw : w.Orderly) (hi : w.isAlive i = true) {k : InstanceId}
    (h : w.PartOf k i) : w.layout.Under w.occupants k i := by
  obtain ⟨x, v, hx, hv, rfl | ⟨c, rfl, hk⟩⟩ := h
  · obtain ⟨d, view, hf⟩ := hw.inst i x hx
    obtain ⟨name, hname⟩ := hf.exists_stored? hw.compiled hx (List.mem_filterMap.2 ⟨_, hv, rfl⟩)
    have hocc : k ∈ w.occupants (.slot i name) := mem_occupants_slot.2 ⟨hi, hname⟩
    obtain ⟨P, m, hspot, -⟩ := hw.linked.live_owner k _ hocc
    obtain rfl := spot_slot hspot
    exact ⟨_, m, hocc, hspot⟩
  · obtain ⟨y, hy, rfl⟩ := hw.owner_of_mem_values hx hv
    exact ⟨.sequence c, y.anchor, hk, spot_of_coll? hy⟩

theorem Orderly.isAlive_of_partOf (hw : w.Orderly) (hi : w.isAlive i = true) {k : InstanceId}
    (h : w.PartOf k i) : w.isAlive k = true := by
  obtain ⟨pl, m, hocc, -⟩ := hw.under_of_partOf hi h
  exact hw.linked.live_item k pl hocc

/-- Everything below an instance is younger than what it stands in. -/
inductive Descends (w : World) : InstanceId → Prop where
  | intro {i : InstanceId} : (∀ k, w.PartOf k i → i.index < k.index) →
      (∀ k, w.PartOf k i → Descends w k) → Descends w i

/-- What a value is projected to. -/
def valueData (w : World) (fuel : Nat) (v : Value) : Json :=
  v.toJson (w.instanceData fuel) fun c => .array ((w.itemsOf c).map (w.instanceData fuel))

theorem instanceData_succ {x : Instance} {c : Class} (hx : w.inst? i = some x)
    (hc : w.class? x.classId = some c) (fuel : Nat) : w.instanceData (fuel + 1) i =
      .object (Dict.ofList (c.descriptor.propertyNames.zip (x.values.map (w.valueData fuel)))) := by
  have hclass : w.classOf? i = some c := by
    unfold classOf?
    rw [hx, Option.bind_some, hc]
  unfold instanceData
  rw [hx, hclass]
  rfl

theorem exists_inst?_of_isAlive (h : w.isAlive i = true) : ∃ x, w.inst? i = some x := by
  unfold isAlive at h
  cases hx : w.inst? i with
  | none =>
    rw [hx] at h
    cases h
  | some x => exact ⟨x, .refl _⟩

/-- A value of an instance is projected alike when what it refers to is. -/
theorem Formed.valueData_congr {x : Instance} {c : Class} {view : View} (hf : w.Formed i x c view)
    {v : Value} (hv : v ∈ x.values) {fuel : Nat}
    (hinst : ∀ k, v = .inst k → w'.instanceData fuel k = w.instanceData fuel k)
    (hcoll : ∀ d, v = .coll d → w'.itemsOf d = w.itemsOf d ∧
      ∀ k ∈ w.itemsOf d, w'.instanceData fuel k = w.instanceData fuel k) :
    w'.valueData fuel v = w.valueData fuel v := by
  obtain ⟨n, hn⟩ := List.mem_iff_getElem?.1 hv
  obtain ⟨p, site, -, -, hfits⟩ := hf.exists_fits hn
  unfold valueData
  generalize p.kind = kind at hfits
  cases hfits with
  | primitive hprim => rw [Value.toJson_of_isPrimitive hprim, Value.toJson_of_isPrimitive hprim]
  | empty => rfl
  | child => exact hinst _ rfl
  | @sequence element d y hy howner helement =>
    obtain ⟨hitems, hdata⟩ := hcoll d rfl
    change Json.array _ = Json.array _
    rw [hitems]
    exact congrArg Json.array (List.map_congr_left hdata)

/-- Writes to an older instance leave what descends from an instance alone. -/
theorem Intact.instanceData (h : w.Intact hit w') (hw : w.Orderly) (hw' : w'.Orderly) (hd : w.Descends i)
    (hhit : ∀ pl, hit pl → ∃ P, w.ownerOf? pl = some P ∧ P.index < i.index)
    (hi : w.isAlive i = true) (hi' : w'.isAlive i = true) :
    w'.Descends i ∧ ∀ fuel, w'.instanceData fuel i = w.instanceData fuel i := by
  induction hd with
  | @intro i hyounger _ ih =>
    have hnot (pl : Place) (hin : hit pl) : w.ownerOf? pl ≠ some i := by
      obtain ⟨P, howner, hlt⟩ := hhit pl hin
      rw [howner]
      rintro heq
      rw [Option.some.inj heq] at hlt
      exact Nat.lt_irrefl _ hlt
    obtain ⟨x, hx⟩ := exists_inst?_of_isAlive hi
    obtain ⟨c, view, hf⟩ := hw.inst i x hx
    obtain ⟨y, hy, hclass, hvalues⟩ := h.values hw.toBuilt hw'.toBuilt hx fun name hin =>
      hnot _ hin (.refl _)
    have hitems (d : CollectionId) (hd : Value.coll d ∈ x.values) : w'.itemsOf d = w.itemsOf d := by
      obtain ⟨z, hz, rfl⟩ := hw.owner_of_mem_values hx hd
      exact h.occ (.sequence d) z.owner z.anchor (spot_of_coll? hz)
        (fun hin => hnot _ hin (ownerOf?_of_spot (spot_of_coll? hz))) hi hi'
    have hpart (k : InstanceId) : w'.PartOf k i ↔ w.PartOf k i := by
      unfold PartOf
      rw [hx, hy]
      constructor
      · rintro ⟨_, v, hsome, hv, hk⟩
        obtain rfl := Option.some.inj hsome
        rw [hvalues] at hv
        refine ⟨x, v, .refl _, hv, hk.imp_right ?_⟩
        rintro ⟨d, rfl, hkd⟩
        exact ⟨d, .refl _, hitems d hv ▸ hkd⟩
      · rintro ⟨_, v, hsome, hv, hk⟩
        obtain rfl := Option.some.inj hsome
        refine ⟨y, v, .refl _, hvalues ▸ hv, hk.imp_right ?_⟩
        rintro ⟨d, rfl, hkd⟩
        exact ⟨d, .refl _, (hitems d hv).symm ▸ hkd⟩
    have hpass (k : InstanceId) (hk : w.PartOf k i) :
        w'.Descends k ∧ ∀ fuel, w'.instanceData fuel k = w.instanceData fuel k :=
      ih k hk (fun pl hin => (hhit pl hin).imp fun P hP => ⟨hP.1, Nat.lt_trans hP.2 (hyounger k hk)⟩)
        (hw.isAlive_of_partOf hi hk) (hw'.isAlive_of_partOf hi' ((hpart k).2 hk))
    refine ⟨.intro (fun k hk => hyounger k ((hpart k).1 hk)) fun k hk => (hpass k ((hpart k).1 hk)).1,
      fun fuel => ?_⟩
    cases fuel with
    | zero => exact .refl _
    | succ fuel =>
      have hc' : w'.class? y.classId = some c := by
        rw [hclass, h.class?]
        exact hf.cls
      rw [instanceData_succ hx hf.cls, instanceData_succ hy hc', hvalues]
      congr 3
      refine List.map_congr_left fun v hv => hf.valueData_congr hv (fun k hk => ?_) fun d hd => ?_
      · exact (hpass k ⟨x, v, hx, hv, .inl hk⟩).2 fuel
      · refine ⟨hitems d (hd ▸ hv), fun k hk => ?_⟩
        exact (hpass k ⟨x, v, hx, hv, .inr ⟨d, hd, hk⟩⟩).2 fuel

end World

end ReactiveView
