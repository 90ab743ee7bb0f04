import ReactiveView.Proofs.Ownership.Invariant

/-!
# What has been made once can be made again

Whether an instance of a class can be made depends on the descriptor alone: a view is built for an outermost
element, each place that is rendered needs its property or attribute, and each slot and each array property
needs its marker inside an element. Nodes that are there already play no part
(`World.exists_createInstance`). So a class that has an instance in some world can have one in every world
(`World.Steps.creatable`).
-/

set_option autoImplicit false

namespace ReactiveView

namespace Building

variable {d : Descriptor} {b b' r : Building}

/-- Two walks have met the markers of the same properties. -/
def SameMarkers (b b' : Building) : Prop :=
  ∀ name, (b.anchors.get? name).isSome = (b'.anchors.get? name).isSome

theorem addPlace_again {source : Source} {place : BoundNode} (h : b.addPlace d source place = .ok r)
    (b' : Building) (place' : BoundNode) :
    r.anchors = b.anchors ∧ ∃ r', b'.addPlace d source place' = .ok r' ∧ r'.anchors = b'.anchors := by
  cases source with
  | property name =>
    unfold addPlace at h ⊢
    dsimp only at h ⊢
    split at h
    · obtain rfl := Except.ok.inj h
      exact ⟨rfl, _, rfl, rfl⟩
    · cases h
  | attr name =>
    unfold addPlace at h ⊢
    dsimp only at h ⊢
    split at h
    · obtain rfl := Except.ok.inj h
      exact ⟨rfl, _, rfl, rfl⟩
    · cases h

theorem addPlaces_again {sources : List Source} {place : BoundNode}
    (h : b.addPlaces d place sources = .ok r) (b' : Building) (place' : BoundNode) :
    r.anchors = b.anchors ∧ ∃ r', b'.addPlaces d place' sources = .ok r' ∧ r'.anchors = b'.anchors := by
  induction sources generalizing b b' with
  | nil =>
    obtain rfl := Except.ok.inj h
    exact ⟨rfl, b', rfl, rfl⟩
  | cons source rest ih =>
    unfold addPlaces at h ⊢
    split at h
    · cases h
    · next b₁ hplace =>
      obtain ⟨hsame, b₁', hplace', hsame'⟩ := addPlace_again hplace b' place'
      obtain ⟨hrest, r', hrest', hanchors⟩ := ih h b₁'
      rw [hplace']
      exact ⟨hrest.trans hsame, r', hrest', hanchors.trans hsame'⟩

theorem addAttributes_again {attrs : List AttributeShape} {n : NodeId}
    (h : b.addAttributes d n attrs = .ok r) (b' : Building) (n' : NodeId) :
    r.anchors = b.anchors ∧ ∃ r', b'.addAttributes d n' attrs = .ok r' ∧ r'.anchors = b'.anchors := by
  induction attrs generalizing b b' with
  | nil =>
    obtain rfl := Except.ok.inj h
    exact ⟨rfl, b', rfl, rfl⟩
  | cons a rest ih =>
    unfold addAttributes at h ⊢
    cases hformat : a.format with
    | none =>
      rw [hformat] at h
      exact ih h _
    | some format =>
      rw [hformat] at h
      dsimp only at h ⊢
      split at h
      · cases h
      · next b₁ hplaces =>
        obtain ⟨hsame, b₁', hplaces', hsame'⟩ := addPlaces_again hplaces
          { b' with screen := ((b'.screen.addBinding (Binding.ofFormat n' a.name format)).2.write
            (b'.screen.addBinding (Binding.ofFormat n' a.name format)).1).2 }
          (.attr (b'.screen.addBinding (Binding.ofFormat n' a.name format)).1)
        obtain ⟨hrest, r', hrest', hanchors⟩ := ih h b₁'
        rw [hplaces']
        exact ⟨hrest.trans hsame, r', hrest', hanchors.trans hsame'⟩

theorem anchors_noteElement (b : Building) (shape : ElementShape) (n : NodeId) :
    (b.noteElement shape n).anchors = b.anchors := by
  unfold noteElement
  dsimp only
  split <;> split <;> rfl

theorem SameMarkers.congr {b₁ b₁' : Building} (h : b.SameMarkers b') (hb : b₁.anchors = b.anchors)
    (hb' : b₁'.anchors = b'.anchors) : b₁.SameMarkers b₁' := by
  intro name
  rw [hb, hb']
  exact h name

/-- A marker that both walks meet. -/
theorem SameMarkers.insert {b₁ b₁' : Building} (h : b.SameMarkers b') {name : String}
    {anchor anchor' : NodeId × Sink} (hb : b₁.anchors = b.anchors.insert name anchor)
    (hb' : b₁'.anchors = b'.anchors.insert name anchor') : b₁.SameMarkers b₁' := by
  intro other
  rw [hb, hb']
  by_cases hname : name = other
  · rw [hname, Dict.get?_insert_self, Dict.get?_insert_self]
    rfl
  · rw [Dict.get?_insert_of_ne _ _ _ _ hname, Dict.get?_insert_of_ne _ _ _ _ hname]
    exact h other

mutual

/-- A node that has been built once is built again. -/
theorem build_again {owner : InstanceId} (owner' : InstanceId) {around : Option Sink} (around' : Option Sink)
    {top : Option NodeId} {b r : Building} (b' : Building) : ∀ v : ViewNode,
      b.build d owner around v = .ok (top, r) → b.SameMarkers b' → around'.isSome = around.isSome →
        ∃ top' r', b'.build d owner' around' v = .ok (top', r') ∧ top'.isSome = top.isSome ∧ r.SameMarkers r'
  | .element shape children, h, hmarkers, _ => by
    unfold build at h ⊢
    dsimp only at h ⊢
    split at h
    · cases h
    · next b₁ hattrs =>
      split at h
      · cases h
      · next b₂ hchildren =>
        obtain ⟨rfl, rfl⟩ := Prod.mk.inj (Except.ok.inj h)
        obtain ⟨hsame, b₁', hattrs', hsame'⟩ := addAttributes_again hattrs
          (b'.create (.element shape.name [] false)).2 (b'.create (.element shape.name [] false)).1
        have hnoted : (b₁.noteElement shape (b.create (.element shape.name [] false)).1).SameMarkers
            (b₁'.noteElement shape (b'.create (.element shape.name [] false)).1) :=
          hmarkers.congr ((anchors_noteElement _ _ _).trans hsame) ((anchors_noteElement _ _ _).trans hsame')
        obtain ⟨r', hchildren', hr⟩ := buildAll_again owner' _ _ children hchildren hnoted
        rw [hattrs']
        dsimp only
        rw [hchildren']
        exact ⟨_, r', rfl, rfl, hr⟩
  | .text value source, h, hmarkers, _ => by
    unfold build at h ⊢
    dsimp only at h ⊢
    split at h
    · cases h
    · next b₁ hplaces =>
      obtain ⟨rfl, rfl⟩ := Prod.mk.inj (Except.ok.inj h)
      obtain ⟨hsame, r', hplaces', hsame'⟩ := addPlaces_again hplaces (b'.create (.text value)).2
        (.text (b'.create (.text value)).1)
      rw [hplaces']
      exact ⟨_, r', rfl, rfl, hmarkers.congr hsame hsame'⟩
  | .marker value property, h, hmarkers, haround => by
    unfold build at h ⊢
    dsimp only at h ⊢
    cases property with
    | none =>
      obtain ⟨rfl, rfl⟩ := Prod.mk.inj (Except.ok.inj h)
      exact ⟨_, _, rfl, rfl, hmarkers.congr rfl rfl⟩
    | some name =>
      cases around with
      | none =>
        obtain rfl := Option.isNone_iff_eq_none.1 (Option.isSome_eq_false_iff.1 haround)
        obtain ⟨rfl, rfl⟩ := Prod.mk.inj (Except.ok.inj h)
        exact ⟨_, _, rfl, rfl, hmarkers.congr rfl rfl⟩
      | some sink =>
        obtain ⟨sink', rfl⟩ := Option.isSome_iff_exists.1 haround
        obtain ⟨rfl, rfl⟩ := Prod.mk.inj (Except.ok.inj h)
        exact ⟨_, _, rfl, rfl, hmarkers.insert rfl rfl⟩
  | .extensionPoint, h, hmarkers, _ => by
    unfold build at h ⊢
    obtain ⟨rfl, rfl⟩ := Prod.mk.inj (Except.ok.inj h)
    exact ⟨none, b', rfl, rfl, hmarkers⟩

theorem buildAll_again {owner : InstanceId} (owner' : InstanceId) {sink : Sink} (sink' : Sink) {b r : Building}
    (b' : Building) : ∀ vs : List ViewNode, b.buildAll d owner sink vs = .ok r → b.SameMarkers b' →
      ∃ r', b'.buildAll d owner' sink' vs = .ok r' ∧ r.SameMarkers r'
  | [], h, hmarkers => by
    unfold buildAll at h ⊢
    obtain rfl := Except.ok.inj h
    exact ⟨b', rfl, hmarkers⟩
  | v :: rest, h, hmarkers => by
    unfold buildAll at h ⊢
    split at h
    · cases h
    · next n b₁ hv =>
      obtain ⟨top', b₁', hv', htop, hmarkers₁⟩ := build_again owner' (some sink') b' v hv hmarkers rfl
      obtain ⟨n', rfl⟩ := Option.isSome_iff_exists.1 htop
      obtain ⟨r', hrest, hr⟩ := buildAll_again owner' sink' (b₁'.append sink'.node n') rest h
        (hmarkers₁.congr rfl rfl)
      rw [hv']
      exact ⟨r', hrest, hr⟩
    · next b₁ hv =>
      obtain ⟨top', b₁', hv', htop, hmarkers₁⟩ := build_again owner' (some sink') b' v hv hmarkers rfl
      obtain rfl := Option.isNone_iff_eq_none.1 (Option.isSome_eq_false_iff.1 htop)
      obtain ⟨r', hrest, hr⟩ := buildAll_again owner' sink' b₁' rest h hmarkers₁
      rw [hv']
      exact ⟨r', hrest, hr⟩

end

end Building

namespace World

variable {w : World} {d : Descriptor}

/-- The site of a property needs the marker of the property, and no more. -/
theorem siteOf_again {owner : InstanceId} {anchors anchors' : Dict String (NodeId × Sink)} {p : PropertyDescriptor}
    (hmarker : (anchors.get? p.name).isSome = (anchors'.get? p.name).isSome) {nodes : NodeSet} {r : Site × World}
    (h : w.siteOf owner anchors p nodes = .ok r) (v : World) (owner' : InstanceId) (nodes' : NodeSet) :
    ∃ r', v.siteOf owner' anchors' p nodes' = .ok r' := by
  unfold siteOf at h ⊢
  cases hkind : p.kind with
  | primitive types => exact ⟨_, rfl⟩
  | slot element | sequence element =>
    rw [hkind] at h
    dsimp only at h ⊢
    cases hget : anchors.get? p.name with
    | none =>
      rw [hget] at h
      cases h
    | some anchor =>
      rw [hget] at hmarker
      obtain ⟨anchor', hget'⟩ := Option.isSome_iff_exists.1 hmarker.symm
      rw [hget']
      exact ⟨_, rfl⟩

theorem sitesOf_again {owner : InstanceId} {anchors anchors' : Dict String (NodeId × Sink)}
    (hsame : ∀ name, (anchors.get? name).isSome = (anchors'.get? name).isSome)
    {ps : List PropertyDescriptor} {nodes : List NodeSet} {r : List Site × World}
    (h : w.sitesOf owner anchors ps nodes = .ok r) (v : World) (owner' : InstanceId) (nodes' : List NodeSet) :
    ∃ r', v.sitesOf owner' anchors' ps nodes' = .ok r' := by
  induction ps generalizing w nodes r v nodes' with
  | nil => exact ⟨_, rfl⟩
  | cons p ps ih =>
    unfold sitesOf at h
    split at h
    · cases h
    · next hsite =>
      split at h
      · cases h
      · next hsites =>
        obtain ⟨r₁, hsite'⟩ := siteOf_again (hsame p.name) hsite v owner' (nodes'.head?.getD [])
        obtain ⟨r₂, hsites'⟩ := ih hsites r₁.2 nodes'.tail
        unfold sitesOf
        rw [hsite']
        dsimp only
        rw [hsites']
        exact ⟨_, rfl⟩

/-- A view has been built once: it can be built in every world. -/
theorem exists_bindView {owner : InstanceId} {r : View × World} (h : w.bindView d owner = .ok r) (v : World)
    (owner' : InstanceId) : ∃ r', v.bindView d owner' = .ok r' := by
  unfold bindView at h ⊢
  split at h
  · next shape children hview =>
    extract_lets start at h
    split at h
    · cases h
    · cases h
    · next root b hbuild =>
      split at h
      · cases h
      · next hsites =>
        obtain ⟨top', b', hbuild', htop, hmarkers⟩ := Building.build_again owner' none
          ⟨v.screen, d.properties.map fun _ => [], d.attributes.map fun _ => [], [], [], []⟩ _ hbuild
          (fun _ => rfl) rfl
        obtain ⟨root', rfl⟩ := Option.isSome_iff_exists.1 htop
        obtain ⟨r', hsites'⟩ := sitesOf_again hmarkers hsites { v with screen := b'.screen } owner'
          b'.propertyNodes
        dsimp only
        rw [hbuild']
        dsimp only
        rw [hsites']
        exact ⟨_, rfl⟩
  · cases h

end World

/-- Instances can be made from a descriptor: one has been made in some world. -/
def Descriptor.Creatable (d : Descriptor) : Prop :=
  ∃ (w : World) (id : ClassId) (r : InstanceId × World), w.createInstance id d = .ok r

namespace World

variable {w w' : World} {d : Descriptor}

/-- An instance can be made in every world. -/
theorem exists_createInstance (h : d.Creatable) (w : World) (id : ClassId) :
    ∃ r, w.createInstance id d = .ok r := by
  obtain ⟨v, id', r, hr⟩ := h
  unfold createInstance at hr ⊢
  dsimp only at hr ⊢
  split at hr
  · cases hr
  · next hview =>
    split
    · next herror =>
      obtain ⟨made, hmade⟩ := exists_bindView hview _ _
      cases herror.symm.trans hmade
    · exact ⟨_, rfl⟩

/-- All instances are of classes that instances can be made of. -/
def Stocked (w : World) : Prop :=
  ∀ i x, w.inst? i = some x → ∃ c, w.class? x.classId = some c ∧ c.descriptor.Creatable

theorem classId_modifyInstance (w : World) (i : InstanceId) {f : Instance → Instance}
    (hf : ∀ x, (f x).classId = x.classId) (j : InstanceId) :
    ((w.modifyInstance i f).inst? j).map (·.classId) = (w.inst? j).map (·.classId) :=
  map_inst?_modifyInstance (·.classId) hf w i j

theorem Stocked.of_grows (h : w.Stocked) (hg : w.Grows w')
    (hold : ∀ i, (w'.inst? i).map (·.classId) = (w.inst? i).map (·.classId)) : w'.Stocked := by
  intro i x hx
  have hid := hold i
  rw [hx] at hid
  obtain ⟨y, hy, hclass⟩ := Option.map_eq_some_iff.1 hid.symm
  obtain ⟨c, hc, hcreatable⟩ := h i y hy
  refine ⟨c, hg.cls _ c ?_, hcreatable⟩
  rw [← show y.classId = x.classId from hclass]
  exact hc

theorem Step.stocked (hstep : w.Step w') (h : w.Stocked) : w'.Stocked := by
  have hg := hstep.grows
  cases hstep with
  | quiet screen classes instances collections spaces =>
    refine h.of_grows hg fun i => ?_
    unfold inst?
    rw [instances]
  | moves f hf => exact h.of_grows hg fun _ => rfl
  | mark hr hm a ha => exact h.of_grows hg fun _ => rfl
  | space n f hf => exact h.of_grows hg fun _ => rfl
  | addSpace delay ns hq => exact h.of_grows hg fun _ => rfl
  | addClass c hc hq => exact h.of_grows hg fun _ => rfl
  | record i f hf => exact h.of_grows hg fun j => classId_modifyInstance w i (fun x => (hf x).1) j
  | finish i hall hroot => exact h.of_grows hg fun j => classId_modifyInstance w i (by exact fun _ => rfl) j
  | contents k f hf hitems => exact h.of_grows hg fun _ => rfl
  | @create id c i _ hc hmade =>
    obtain ⟨-, view, b, b', hjoins⟩ := createInstance_joins hmade
    intro j x hx
    by_cases hij : j = i
    · obtain ⟨attrs, hself⟩ := hjoins.self
      rw [hij, hself] at hx
      obtain rfl := Option.some.inj hx
      exact ⟨c, hg.cls id c hc, w, id, _, hmade⟩
    · rw [hjoins.other j hij] at hx
      obtain ⟨d, hd, hcreatable⟩ := h j x hx
      exact ⟨d, hg.cls _ d hd, hcreatable⟩
  | @write i x c view n p types v hx hc hview hp hkind hv =>
    refine h.of_grows hg fun j => ?_
    rw [← inst?_rendered w c view.sites[n]? (.property p.name) v.outputText j]
    exact classId_modifyInstance _ i (by exact fun _ => rfl) j
  | @slot i x c n p element v hx hc hp hkind hv =>
    exact h.of_grows hg fun j => classId_modifyInstance w i (by exact fun _ => rfl) j
  | @attr i x c view n a v hx hc hview ha hv =>
    exact h.of_grows hg fun j => classId_modifyInstance _ i (by exact fun _ => rfl) j
  | flush q => exact h.of_grows hg fun _ => rfl

theorem Steps.stocked (hsteps : w.Steps w') (h : w.Stocked) : w'.Stocked := by
  induction hsteps with
  | refl => exact h
  | tail _ hstep ih => exact hstep.stocked ih

end World

end ReactiveView
