import ReactiveView.Proofs.Steps.Places
import ReactiveView.Proofs.Steps.Runs

/-!
# Where children are moored

The marker of an element or array property stands in an element of the view. The sink that is kept for the
property is the one of this very element, in the live view and in the shape that it was built from: it leads to the
handlers that the element declares for the events of its children (`World.Surrounded`). Once an instance has been
made this remains so, whatever happens to the world (`World.Steps.moored`), because a marker is never moved. An
instance that is put into a slot or a collection is recorded with the sink that is kept for this place, and keeps this
record until it is released (`World.StepsBy.fastened`).
-/

set_option autoImplicit false

namespace ReactiveView

/-- An element of the view has the marker of a property among its children. -/
inductive ViewNode.Surrounds (shape : ElementShape) (name : String) : ViewNode → Prop where
  | here {children : List ViewNode} {value : String} :
      .marker value (some name) ∈ children → Surrounds shape name (.element shape children)
  | deeper {other : ElementShape} {children : List ViewNode} {v : ViewNode} :
      v ∈ children → Surrounds shape name v → Surrounds shape name (.element other children)

theorem ViewNode.Surrounds.cons {shape other : ElementShape} {name : String} {v : ViewNode} {children : List ViewNode}
    (h : Surrounds shape name (.element other children)) : Surrounds shape name (.element other (v :: children)) := by
  cases h with
  | here hmem => exact .here (List.mem_cons_of_mem v hmem)
  | deeper hmem h => exact .deeper (List.mem_cons_of_mem v hmem) h

/-- The handlers of the sink are those that the element around the marker of a property declares. -/
def Sink.DeclaredIn (s : Sink) (v : ViewNode) (name : String) : Prop :=
  ∃ shape, v.Surrounds shape name ∧ s.handlers = shape.childHandlers

namespace Building

variable {f₀ : Forest} {b b' : Building} {d : Descriptor} {owner : InstanceId} {name : String} {m : NodeId} {s : Sink}

/-! ## Building -/

/-- The marker stands in the element that the sink belongs to. -/
structure Moors (b : Building) (owner : InstanceId) (v : ViewNode) (name : String) (m : NodeId) (s : Sink) : Prop where
  parent : b.forest.recorded? m = some s.node
  owner : s.owner = owner
  declared : s.DeclaredIn v name

theorem Moors.grows {v v' : ViewNode} (h : b.Moors owner v name m s) (hg : b.forest.Grows b'.forest)
    (hm : m.index < b.forest.size) (hv : ∀ shape, v.Surrounds shape name → v'.Surrounds shape name) :
    b'.Moors owner v' name m s where
  parent := (hg.recorded m hm).trans h.parent
  owner := h.owner
  declared := by
    obtain ⟨shape, hshape, hhandlers⟩ := h.declared
    exact ⟨shape, hv shape hshape, hhandlers⟩

mutual

/-- A marker that is noted while a node is built stands in an element of this node, or it is the node. -/
theorem build_noted {b b' : Building} {around : Option Sink} {top : Option NodeId} (hs : b.Sturdy f₀)
    (hlt : around.isSome = true → f₀.size < b.forest.size) :
    ∀ v : ViewNode, b.build d owner around v = .ok (top, b') → b'.anchors.get? name = some (m, s) →
      b.anchors.get? name = some (m, s) ∨ b'.Moors owner v name m s ∨
        top = some m ∧ around = some s ∧ ∃ value, v = .marker value (some name)
  | .element shape children, h, hm => by
    unfold build at h
    dsimp only at h
    split at h
    · cases h
    · next b₁ hattrs =>
      split at h
      · cases h
      · next b₂ hchildren =>
        obtain ⟨rfl, rfl⟩ := Prod.mk.inj (Except.ok.inj h)
        have halike := (alike_addAttributes hattrs).trans
          (alike_noteElement b₁ shape (b.create (.element shape.name [] false)).1)
        have hplanted := (planted_create b (.element shape.name [] false)).sameLinks halike.links
        have hstart := (hs.create (.element shape.name [] false)).alike halike
        have hle : f₀.size ≤ (b.create (.element shape.name [] false)).1.index := by
          rw [hplanted.index]
          exact hs.grown.size_le
        have hhandlers : (⟨owner, (b.create (.element shape.name [] false)).1, shape.childHandlers⟩ : Sink).handlers =
            shape.childHandlers := rfl
        rcases buildAll_noted hstart hle hplanted.lt rfl hhandlers children hchildren hm with hold | hnew
        · exact Or.inl (halike.anchors ▸ hold)
        · exact Or.inr (Or.inl hnew)
  | .text value source, h, hm => by
    unfold build at h
    dsimp only at h
    split at h
    · cases h
    · next b₁ hplaces =>
      obtain ⟨rfl, rfl⟩ := Prod.mk.inj (Except.ok.inj h)
      exact Or.inl ((alike_addPlaces hplaces).anchors ▸ hm)
  | .marker value property, h, hm => by
    unfold build at h
    dsimp only at h
    split at h
    · next name' sink =>
      obtain ⟨rfl, rfl⟩ := Prod.mk.inj (Except.ok.inj h)
      by_cases hname : name' = name
      · subst hname
        obtain ⟨rfl, rfl⟩ := Prod.mk.inj (Option.some.inj ((Dict.get?_insert_self _ _ _).symm.trans hm))
        exact Or.inr (Or.inr ⟨rfl, rfl, value, rfl⟩)
      · exact Or.inl ((Dict.get?_insert_of_ne _ _ _ _ hname).symm.trans hm)
    · obtain ⟨rfl, rfl⟩ := Prod.mk.inj (Except.ok.inj h)
      exact Or.inl hm
  | .extensionPoint, h, hm => by
    unfold build at h
    obtain ⟨rfl, rfl⟩ := Prod.mk.inj (Except.ok.inj h)
    exact Or.inl hm

/-- A marker that is noted while the children of an element are built stands in an element. -/
theorem buildAll_noted {b b' : Building} {sink : Sink} {shape : ElementShape} (hs : b.Sturdy f₀)
    (hle : f₀.size ≤ sink.node.index) (hlt : sink.node.index < b.forest.size) (howner : sink.owner = owner)
    (hhandlers : sink.handlers = shape.childHandlers) :
    ∀ vs : List ViewNode, b.buildAll d owner sink vs = .ok b' → b'.anchors.get? name = some (m, s) →
      b.anchors.get? name = some (m, s) ∨ b'.Moors owner (.element shape vs) name m s
  | [], h, hm => by
    unfold buildAll at h
    obtain rfl := Except.ok.inj h
    exact Or.inl hm
  | v :: rest, h, hm => by
    have haround : (some sink).isSome = true → f₀.size < b.forest.size := fun _ => Nat.lt_of_le_of_lt hle hlt
    unfold buildAll at h
    split at h
    · cases h
    · next n b₁ hv =>
      obtain ⟨hs₁, hg₁, hplanted⟩ := build_sound hs haround v hv
      obtain ⟨hs₂, hg₂, -⟩ := Planted.append hplanted hs₁ hle hlt hg₁
      have hlt₂ := Nat.lt_of_lt_of_le hlt hg₂.size_le
      obtain ⟨hs₃, hg₃, -⟩ := buildAll_sound hs₂ hle hlt₂ rest h
      have happ : b₁.forest.Appended (b₁.append sink.node n).forest sink.node n :=
        Forest.appended_append hplanted.lt (Nat.lt_of_lt_of_le hlt hg₁.size_le) hplanted.free
      rcases buildAll_noted hs₂ hle hlt₂ howner hhandlers rest h hm with hold | hnew
      · have hrange := (hs₂.range name m s hold).2
        rcases build_noted hs haround v hv hold with hold | hinside | ⟨htop, hsink, value, rfl⟩
        · exact Or.inl hold
        · have hne : m ≠ n := by
            rintro rfl
            cases hplanted.free.symm.trans hinside.parent
          have hmoors : (b₁.append sink.node n).Moors owner v name m s :=
            ⟨(happ.recorded_other m hne).trans hinside.parent, hinside.owner, hinside.declared⟩
          exact Or.inr (hmoors.grows hg₃ hrange fun _ => .deeper List.mem_cons_self)
        · obtain rfl := Option.some.inj htop
          obtain rfl := Option.some.inj hsink
          refine Or.inr ⟨(hg₃.recorded _ hrange).trans happ.recorded_self, howner, shape, ?_, hhandlers⟩
          exact .here List.mem_cons_self
      · exact Or.inr (hnew.grows .rfl (hs₃.range name m s hm).2 fun _ => ViewNode.Surrounds.cons)
    · next b₁ hv =>
      obtain ⟨-, -, rfl⟩ := build_sound hs haround v hv
      rcases buildAll_noted hs hle hlt howner hhandlers rest h hm with hold | hnew
      · exact Or.inl hold
      · obtain ⟨hs₃, -, -⟩ := buildAll_sound hs hle hlt rest h
        exact Or.inr (hnew.grows .rfl (hs₃.range name m s hm).2 fun _ => ViewNode.Surrounds.cons)

end

end Building

namespace World

variable {w w' : World} {pl : Place} {anchor : NodeId} {sink : Sink} {P : InstanceId} {name : String}

/-! ## The moorings of places -/

/-- The place is the one of a property of an instance. -/
def IsPlaceOf (w : World) (P : InstanceId) (name : String) : Place → Prop
  | .slot Q property => Q = P ∧ property = name
  | .sequence k => ∃ y, w.coll? k = some y ∧ y.owner = P ∧ y.property = name

/-- The marker is for a property of the owner of the sink and stands in the element that the sink belongs to; the sink
leads to the handlers that this element declares. -/
structure Surrounded (w : World) (pl : Place) (anchor : NodeId) (sink : Sink) : Prop extends w.Rootless anchor where
  declared : ∃ name x c v, w.IsPlaceOf sink.owner name pl ∧ w.inst? sink.owner = some x ∧
    w.class? x.classId = some c ∧ c.descriptor.view = some v ∧ sink.DeclaredIn v name
  parent : ∀ p, w.forest.recorded? anchor = some p → p = sink.node

/-- All places are moored to the elements around their markers. -/
structure Moored (w : World) : Prop where
  rooted : w.Rooted
  surrounded : ∀ pl anchor sink, w.Mooring pl anchor sink → w.Surrounded pl anchor sink

theorem IsPlaceOf.grows (h : w.IsPlaceOf P name pl) (hg : w.Grows w') : w'.IsPlaceOf P name pl := by
  cases pl with
  | slot Q property => exact h
  | sequence k =>
    obtain ⟨y, hy, howner, hproperty⟩ := h
    obtain ⟨y', hy', -, howner', hproperty', -⟩ := hg.coll k y hy
    exact ⟨y', hy', howner'.trans howner, hproperty'.trans hproperty⟩

theorem Surrounded.later (h : w.Surrounded pl anchor sink) (hg : w.Grows w') (hputs : w.PutsOnlyRoots w') :
    w'.Surrounded pl anchor sink where
  toRootless := h.toRootless.putsOnlyRoots hputs
  declared := by
    obtain ⟨name, x, c, v, hplace, hx, hc, hv, hdeclared⟩ := h.declared
    obtain ⟨x', hx', hid, -⟩ := hg.inst _ _ hx
    exact ⟨name, x', c, v, hplace.grows hg, hx', hid ▸ hg.cls _ _ hc, hv, hdeclared⟩
  parent p hp := h.parent p (hputs.recorded anchor p h.there h.not_root hp)

/-! ## Making an instance -/

/-- The markers that are noted for a view stand in the elements that the sinks belong to. -/
theorem BuildsView.noted {d : Descriptor} {i : InstanceId} {root : NodeId} {b b' : Building}
    (h : BuildsView d i root b b') {s : Sink} (hm : b'.anchors.get? name = some (anchor, s)) :
    ∃ v, d.view = some v ∧ b'.Moors i v name anchor s := by
  obtain ⟨hnone, v, hv, hbuild⟩ := h
  have hstart : b.Sturdy b.forest := by
    refine ⟨.rfl, fun name m s hm => ?_, fun name name' m s s' hm => ?_⟩
    all_goals
      rw [hnone] at hm
      cases hm
  rcases Building.build_noted hstart (fun h => by cases h) v hbuild hm with hold | hnew | ⟨-, hnone, -⟩
  · rw [hnone] at hold
    cases hold
  · exact ⟨v, hv, hnew⟩
  · cases hnone

/-- What a new instance brings along is moored; everything else is as it was. -/
theorem Moored.create {id : ClassId} {c : Class} {i : InstanceId} (hw : w.Moored) (hc : w.class? id = some c)
    (h : w.createInstance id c.descriptor = .ok (i, w')) : w'.Moored := by
  have hg := grows_createInstance h
  have hputs := PutsOnlyRoots.create h
  obtain ⟨-, view, b, b', hbuilds, hjoins⟩ := createInstance_builds h
  obtain ⟨attrs, hself⟩ := hjoins.self
  -- a site of the new instance comes with a marker that was noted for its property
  have hnew {name : String} {anchor : NodeId} {s : Sink} {pl : Place} (hm : b'.anchors.get? name = some (anchor, s))
      (hplace : w'.IsPlaceOf i name pl) : w'.Surrounded pl anchor s := by
    obtain ⟨v, hv, hmoors⟩ := hbuilds.noted hm
    obtain ⟨hge, hlt⟩ := hjoins.sturdy.range _ _ _ hm
    obtain rfl := hmoors.owner
    refine ⟨⟨hjoins.forest ▸ hlt, fun j hj => ?_⟩, ⟨name, _, c, v, hplace, hself, ?_, hv, hmoors.declared⟩,
      fun p hp => ?_⟩
    · -- the first new node is the root, and the other roots are old
      have hindex := hjoins.planted.index
      rw [hjoins.start] at hindex
      by_cases hji : j = s.owner
      · subst hji
        unfold rootOf? at hj
        rw [hself] at hj
        rw [← Option.some.inj hj, hindex] at hge
        exact Nat.lt_irrefl _ hge
      · unfold rootOf? at hj
        rw [hjoins.other j hji] at hj
        exact Nat.lt_asymm (hw.rooted j anchor hj) hge
    · exact (hjoins.class? id).trans hc
    · rw [hjoins.forest] at hp
      exact Option.some.inj (hp.symm.trans hmoors.parent)
  refine ⟨hputs.rooted hw.rooted, fun pl anchor sink hmooring => ?_⟩
  cases hmooring with
  | @sequence k y hy =>
    rcases Nat.lt_or_ge k.index w.collections.size with hk | hk
    · exact (hw.surrounded _ _ _ (.sequence ((hjoins.old k hk).symm.trans hy))).later hg hputs
    · obtain ⟨n, hn⟩ := hjoins.new k y hk hy
      have hlt : n < c.descriptor.properties.length := hjoins.length ▸ (List.getElem?_eq_some_iff.1 hn).1
      cases hjoins.site n _ _ (List.getElem?_eq_getElem hlt) hn with
      | sequence _ hm _ hcoll =>
        obtain rfl := Option.some.inj (hy.symm.trans hcoll)
        exact hnew hm ⟨_, hy, rfl, rfl⟩
  | @slot P x d name n view' anchor sink hx hd hn hview hsite =>
    by_cases hP : P = i
    · subst hP
      obtain rfl := Option.some.inj (hx.symm.trans hself)
      obtain rfl := Option.some.inj hview
      obtain rfl : d = c := Option.some.inj (hd.symm.trans ((hjoins.class? id).trans hc))
      obtain ⟨p, hp, rfl⟩ := Descriptor.propertyIndex?_some hn
      cases hjoins.site n p _ hp hsite with
      | slot _ hm => exact hnew hm ⟨rfl, rfl⟩
    · have hold : w.Mooring (.slot P name) anchor sink := by
        rw [hjoins.other P hP] at hx
        rw [hjoins.class?] at hd
        exact .slot hx hd hn hview hsite
      exact (hw.surrounded _ _ _ hold).later hg hputs

/-! ## Elementary changes -/

/-- A change that makes no instance leaves as many instances and collections as there were. -/
theorem Step.same_sizes_or_create (h : w.Step w') :
    (w'.instances.size = w.instances.size ∧ w'.collections.size = w.collections.size) ∨
      ∃ id c i, w.class? id = some c ∧ w.createInstance id c.descriptor = .ok (i, w') := by
  have hmodify {v : World} (i : InstanceId) (f : Instance → Instance) (hi : v.instances = w.instances)
      (hk : v.collections = w.collections) : (v.modifyInstance i f).instances.size = w.instances.size ∧
        (v.modifyInstance i f).collections.size = w.collections.size :=
    ⟨(Table.size_modify _ _ _).trans (congrArg Table.size hi), congrArg Table.size hk⟩
  cases h with
  | quiet screen classes instances collections => exact Or.inl ⟨by rw [instances], by rw [collections]⟩
  | moves | mark | space | addSpace | addClass | flush => exact Or.inl ⟨rfl, rfl⟩
  | record i f => exact Or.inl (hmodify i f rfl rfl)
  | finish i => exact Or.inl (hmodify i _ rfl rfl)
  | contents k f => exact Or.inl ⟨rfl, Table.size_modify _ _ _⟩
  | create hc h => exact Or.inr ⟨_, _, _, hc, h⟩
  | @write i x c view n p types v =>
    refine Or.inl (hmodify i _ ?_ ?_)
    all_goals
      unfold rendered
      split <;> rfl
  | @slot i => exact Or.inl (hmodify i _ rfl rfl)
  | @attr i => exact Or.inl (hmodify i _ rfl rfl)

/-- As long as nothing is made, all moorings are old. -/
theorem Mooring.of_grows (h : w'.Mooring pl anchor sink) (hw : w.Sound) (hg : w.Grows w')
    (hi : w'.instances.size = w.instances.size) (hk : w'.collections.size = w.collections.size) :
    w.Mooring pl anchor sink := by
  cases h with
  | @sequence k y hy =>
    have hlt : k.index < w.collections.size := hk ▸ index_lt_of_coll? hy
    obtain ⟨y₀, hy₀⟩ : ∃ y₀, w.coll? k = some y₀ := ⟨_, Array.getElem?_eq_getElem hlt⟩
    obtain ⟨y', hy', -, -, -, hanchor, hsink⟩ := hg.coll k y₀ hy₀
    obtain rfl := Option.some.inj (hy.symm.trans hy')
    rw [hanchor, hsink]
    exact .sequence hy₀
  | @slot P x c name n view anchor sink hx hc hn hview hsite =>
    have hlt : P.index < w.instances.size := hi ▸ index_lt_of_inst? hx
    obtain ⟨x₀, hx₀⟩ : ∃ x₀, w.inst? P = some x₀ := ⟨_, Array.getElem?_eq_getElem hlt⟩
    obtain ⟨x', hx', hid, hview'⟩ := hg.inst P x₀ hx₀
    obtain rfl := Option.some.inj (hx.symm.trans hx')
    obtain ⟨c₀, hc₀, -⟩ := hw.inst P x₀ hx₀
    obtain rfl : c = c₀ := Option.some.inj (hc.symm.trans (hid ▸ hg.cls _ _ hc₀))
    exact .slot hx₀ hc₀ hn (hview'.symm.trans hview) hsite

theorem Step.moored (h : w.Step w') (hsound : w.Sound) (hw : w.Moored) : w'.Moored := by
  rcases h.same_sizes_or_create with ⟨hi, hk⟩ | ⟨id, c, i, hc, hcreate⟩
  · refine ⟨h.putsOnlyRoots.rooted hw.rooted, fun pl anchor sink hmooring => ?_⟩
    exact (hw.surrounded _ _ _ (hmooring.of_grows hsound h.grows hi hk)).later h.grows h.putsOnlyRoots
  · exact hw.create hc hcreate

/-- Whatever happens, places stay moored. -/
theorem Steps.moored (h : w.Steps w') (hsound : w.Sound) (hw : w.Moored) : w'.Moored := by
  induction h with
  | refl => exact hw
  | tail hsteps hstep ih => exact hstep.moored (Steps.sound hsteps hsound) ih

/-- Where nothing has been made there are no places. -/
theorem Fresh.moored (h : w.Fresh) : w.Moored where
  rooted i r hr := by
    unfold rootOf? inst? at hr
    rw [h.instances] at hr
    cases hr
  surrounded pl anchor sink hmooring := by
    cases hmooring with
    | sequence hy =>
      unfold coll? at hy
      rw [h.collections] at hy
      cases hy
    | slot hx =>
      unfold inst? at hx
      rw [h.instances] at hx
      cases hx

/-! ## Attachments keep to the moorings of their places -/

/-- Every attachment has the sink that is kept for its place. -/
def Fastened (w : World) : Prop := ∀ i a, w.attachment? i = some a → w.Moors a

theorem FastStep.fastened (h : w.FastStep w') (hw : w.Fastened) : w'.Fastened := fun i a ha => by
  have hmoors : w.Moors a := (h.fastens i a ha).elim (hw i a) id
  exact hmoors.grows h.step.grows

/-- Whatever is attached stays fastened. -/
theorem StepsBy.fastened (h : StepsBy FastStep w w') (hw : w.Fastened) : w'.Fastened := by
  induction h with
  | refl => exact hw
  | tail _ hstep ih => exact hstep.fastened ih

theorem Fresh.fastened (h : w.Fresh) : w.Fastened := fun i a ha => by
  unfold attachment? inst? at ha
  rw [h.instances] at ha
  cases ha

end World

end ReactiveView
