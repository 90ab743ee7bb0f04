import ReactiveView.Proofs.Ownership.Create
import ReactiveView.Proofs.Ownership.Settle
import ReactiveView.Proofs.Upkeep

/-!
# Closed worlds

A world is *closed* when everything that it refers to is there (`World.Closed`): the places in which instances are
recorded, the instances that are stored, listed, named as objects or kept hold of, the owners of collections,
the roots of views, and the nodes that are recorded as parents. Things that are there stay there
(`World.Larger`), so a reference that has been good stays good (`World.Covers.larger`), and a change leaves a
world closed if what it adds refers to what is there (`World.Closed.grow`).

A *regular* world is closed, and its classes are compiled. The elementary changes leave a regular world regular
(`World.Regrows`): the edits of the trees, the changes of a record, making an instance, and letting go
(`World.upkeep_settle`).
-/

set_option autoImplicit false

namespace ReactiveView

namespace Forest

variable {f f' f'' : Forest} {n p : NodeId}

/-! ## Forests that get wider -/

/-- Every node that is recorded as a parent is there. -/
def Bounded (f : Forest) : Prop := ∀ n p, f.recorded? n = some p → p.index < f.size

/-- No node is lost, and if the recorded parents were there they are there. -/
structure Widens (f f' : Forest) : Prop where
  size : f.size ≤ f'.size
  bounded : f.Bounded → f'.Bounded

namespace Widens

theorem rfl : f.Widens f := ⟨Nat.le_refl _, id⟩

theorem trans (h : f.Widens f') (h' : f'.Widens f'') : f.Widens f'' :=
  ⟨Nat.le_trans h.size h'.size, fun hf => h'.bounded (h.bounded hf)⟩

theorem of_recorded (hsize : f.size ≤ f'.size)
    (h : ∀ n p, f'.recorded? n = some p → f.recorded? n = some p ∨ p.index < f'.size) : f.Widens f' := by
  refine ⟨hsize, fun hf n p hp => ?_⟩
  rcases h n p hp with hold | hlt
  · exact Nat.lt_of_lt_of_le (hf n p hold) hsize
  · exact hlt

theorem of_sameLinks (h : f.SameLinks f') : f.Widens f' :=
  of_recorded (Nat.le_of_eq h.size.symm) fun n _ hp => Or.inl ((h.recorded? n).symm.trans hp)

theorem grown (h : f.Grown f') : f.Widens f' := by
  refine of_recorded h.size_le fun n p hp => ?_
  rcases Nat.lt_or_ge n.index f.size with hold | hnew
  · exact Or.inl ((h.old_recorded n hold).symm.trans hp)
  · refine Or.inr (Nat.lt_trans (h.new_recorded n p hnew hp).2 ?_)
    by_contra hge
    rw [recorded?_eq_none_of_le (Nat.not_lt.1 hge)] at hp
    cases hp

theorem unlink (f : Forest) (n : NodeId) : f.Widens (f.unlink n) :=
  of_recorded (Nat.le_of_eq (size_unlink f n).symm) fun _ _ hp => Or.inl (recorded?_of_unlink hp)

theorem place (hp : p.index < f.size) (i : Nat) (n : NodeId) : f.Widens (f.place p i n) := by
  refine of_recorded (Nat.le_of_eq (size_place _ _ _ _).symm) fun m q hq => ?_
  rcases recorded?_of_place hq with hold | rfl
  · exact Or.inl hold
  · exact Or.inr (by rw [size_place]; exact hp)

theorem append (hp : p.index < f.size) (n : NodeId) : f.Widens (f.append p n) :=
  (unlink f n).trans (place (by rw [size_unlink]; exact hp) _ n)

theorem insertAfter (f : Forest) (anchor n : NodeId) : f.Widens (f.insertAfter anchor n).2 := by
  unfold Forest.insertAfter
  split
  · exact rfl
  · next p hp =>
    dsimp only
    split
    · exact unlink f n
    · refine (unlink f n).trans (place ?_ _ n)
      rw [size_unlink]
      exact lt_size_of_isAlive (isAlive_of_parent? hp)

theorem setAttr (f : Forest) (n : NodeId) (name : QName) (value : String) : f.Widens (f.setAttr n name value) :=
  of_sameLinks (sameLinks_setAttr f n name value)

theorem sweep (f : Forest) (held : NodeId → Bool) (fuel : Nat) : f.Widens (f.sweep held fuel) :=
  of_recorded (Nat.le_of_eq (size_sweep held fuel f).symm) fun n _ hp =>
    Or.inl ((recorded?_sweep held fuel f n).symm.trans hp)

theorem create (f : Forest) (kind : NodeKind) : f.Widens (f.create kind).2 :=
  of_recorded (by rw [size_create]; exact Nat.le_succ _) fun n _ hp =>
    Or.inl ((recorded?_create f kind n).symm.trans hp)

theorem foldl {α : Type} {g : Forest → α → Forest} (hg : ∀ f a, Widens f (g f a)) (as : List α) (f : Forest) :
    f.Widens (as.foldl g f) := by
  induction as generalizing f with
  | nil => exact rfl
  | cons a as ih => exact (hg f a).trans (ih (g f a))

mutual

theorem plant : ∀ (f : Forest) (m : Markup), f.Widens (f.plant m).2
  | f, .text _ => create f _
  | f, .comment _ => create f _
  | f, .element _ _ _ children => by
    refine (create f _).trans (plantBelow ?_ children)
    rw [size_create]
    exact Nat.lt_succ_self _

theorem plantBelow : ∀ {f : Forest} {parent : NodeId} (_ : parent.index < f.size) (ms : List Markup),
    f.Widens (f.plantBelow parent ms)
  | _, _, _, [] => rfl
  | f, parent, hp, m :: ms => by
    unfold Forest.plantBelow
    have hplant := plant f m
    have happend := append (Nat.lt_of_lt_of_le hp hplant.size) (f.plant m).1
    exact (hplant.trans happend).trans (plantBelow (Nat.lt_of_lt_of_le hp (hplant.trans happend).size) ms)

end

theorem plantDocument (f : Forest) (trees : List Markup) : f.Widens (f.plantDocument trees).2 := by
  refine (create f _).trans (plantBelow ?_ trees)
  rw [size_create]
  exact Nat.lt_succ_self _

end Widens

end Forest

namespace World

variable {w w' w'' : World} {i j : InstanceId} {x : Instance} {v : Value}

/-! ## What is there -/

/-- The instance is there. -/
def Knows (w : World) (i : InstanceId) : Prop := i.index < w.instances.size

/-- The collection is there. -/
def KnowsColl (w : World) (c : CollectionId) : Prop := c.index < w.collections.size

/-- The collection, or the owner of the slot, is there. -/
def KnowsPlace (w : World) : Place → Prop
  | .sequence c => w.KnowsColl c
  | .slot P _ => w.Knows P

/-- The instances in the value are there. -/
def KnowsValue (w : World) (v : Value) : Prop := ∀ j ∈ v.instances, w.Knows j

theorem knows_of_inst? (h : w.inst? i = some x) : w.Knows i := index_lt_of_inst? h

theorem knows_of_isAlive (h : w.isAlive i = true) : w.Knows i := lt_size_of_isAlive h

theorem Knows.exists_inst (h : w.Knows i) : ∃ x, w.inst? i = some x := ⟨_, Array.getElem?_eq_getElem h⟩

theorem KnowsColl.exists_coll {c : CollectionId} (h : w.KnowsColl c) : ∃ x, w.coll? c = some x :=
  ⟨_, Array.getElem?_eq_getElem h⟩

/-- What is not there holds nothing. -/
theorem occupants_of_not_knows {pl : Place} (h : ¬ w.KnowsPlace pl) : w.occupants pl = [] := by
  cases pl with
  | slot P name =>
    unfold occupants
    dsimp only
    rw [if_neg fun halive => h (knows_of_isAlive halive)]
  | sequence d =>
    change w.itemsOf d = []
    unfold itemsOf
    cases hx : w.coll? d with
    | none => rfl
    | some x => exact absurd (index_lt_of_coll? hx) h

/-- Instances, collections and nodes that are there stay. -/
structure Larger (w w' : World) : Prop where
  instances : w.instances.size ≤ w'.instances.size
  collections : w.collections.size ≤ w'.collections.size
  nodes : w.forest.size ≤ w'.forest.size

theorem Larger.rfl : w.Larger w := ⟨Nat.le_refl _, Nat.le_refl _, Nat.le_refl _⟩

theorem Larger.trans (h : w.Larger w') (h' : w'.Larger w'') : w.Larger w'' :=
  ⟨Nat.le_trans h.instances h'.instances, Nat.le_trans h.collections h'.collections, Nat.le_trans h.nodes h'.nodes⟩

theorem Knows.larger (h : w.Knows i) (hl : w.Larger w') : w'.Knows i := Nat.lt_of_lt_of_le h hl.instances

theorem KnowsColl.larger {c : CollectionId} (h : w.KnowsColl c) (hl : w.Larger w') : w'.KnowsColl c :=
  Nat.lt_of_lt_of_le h hl.collections

theorem KnowsPlace.larger {pl : Place} (h : w.KnowsPlace pl) (hl : w.Larger w') : w'.KnowsPlace pl := by
  cases pl with
  | sequence c => exact KnowsColl.larger h hl
  | slot P name => exact Knows.larger h hl

theorem KnowsValue.larger (h : w.KnowsValue v) (hl : w.Larger w') : w'.KnowsValue v :=
  fun j hj => (h j hj).larger hl

/-! ## Closed worlds -/

/-- What an instance refers to is there. -/
structure Covers (w : World) (x : Instance) : Prop where
  placed : ∀ a, x.attachment = some a → w.KnowsPlace a.place
  stored : ∀ v ∈ x.values, w.KnowsValue v
  root : ∀ view, x.view = some view → view.root.index < w.forest.size

theorem Covers.larger (h : w.Covers x) (hl : w.Larger w') : w'.Covers x where
  placed a ha := (h.placed a ha).larger hl
  stored v hv := (h.stored v hv).larger hl
  root view hview := Nat.lt_of_lt_of_le (h.root view hview) hl.nodes

/-- Everything that a world refers to is there. -/
structure Closed (w : World) : Prop where
  inst : ∀ i x, w.inst? i = some x → w.Covers x
  owner : ∀ c x, w.coll? c = some x → w.Knows x.owner
  item : ∀ c x, w.coll? c = some x → ∀ j ∈ x.items, w.Knows j
  handled : ∀ i ∈ w.handles, w.Knows i
  object : ∀ n ns, w.space? n = some ns → ∀ e ∈ ns.objects, w.Knows e.2
  bounded : w.forest.Bounded

namespace Closed

variable (h : w.Closed)

include h

theorem placed {a : Attachment} (ha : w.attachment? i = some a) : w.KnowsPlace a.place := by
  obtain ⟨x, hx, hxa⟩ := Option.bind_eq_some_iff.1 ha
  exact (h.inst i x hx).placed a hxa

theorem stored (hx : w.inst? i = some x) (hv : v ∈ x.values) : w.KnowsValue v := (h.inst i x hx).stored v hv

theorem root {r : NodeId} (hr : w.rootOf? i = some r) : r.index < w.forest.size := by
  obtain ⟨view, hview, rfl⟩ := Option.map_eq_some_iff.1 hr
  obtain ⟨x, hx, hxv⟩ := Option.bind_eq_some_iff.1 hview
  exact (h.inst i x hx).root view hxv

theorem pinned (hi : Held.inst i ∈ w.pins) : w.Knows i :=
  h.handled i (List.mem_append_left _ (List.mem_filterMap.2 ⟨_, hi, rfl⟩))

theorem labelled {e : String × InstanceId} (he : e ∈ w.registry.instances) : w.Knows e.2 :=
  h.handled e.2 (List.mem_append_right _ (List.mem_map_of_mem he))

theorem listed {c : CollectionId} (hj : j ∈ w.itemsOf c) : w.Knows j := by
  unfold itemsOf at hj
  cases hx : w.coll? c with
  | none =>
    rw [hx] at hj
    cases hj
  | some x =>
    rw [hx] at hj
    exact h.item c x hx j hj

/-- A larger world is closed, too, if what it adds refers to what is there. -/
theorem grow (hl : w.Larger w') (hinst : ∀ i x, w'.inst? i = some x → w.inst? i = some x ∨ w'.Covers x)
    (hcoll : ∀ c x, w'.coll? c = some x → w.coll? c = some x ∨ w'.Knows x.owner ∧ ∀ j ∈ x.items, w'.Knows j)
    (hhandled : ∀ i ∈ w'.handles, i ∈ w.handles ∨ w'.Knows i)
    (hspace : ∀ n ns, w'.space? n = some ns → w.space? n = some ns ∨ ∀ e ∈ ns.objects, w'.Knows e.2)
    (hbounded : w'.forest.Bounded) : w'.Closed where
  inst i x hx := (hinst i x hx).elim (fun hold => (h.inst i x hold).larger hl) id
  owner c x hx := (hcoll c x hx).elim (fun hold => (h.owner c x hold).larger hl) (·.1)
  item c x hx j hj := (hcoll c x hx).elim (fun hold => (h.item c x hold j hj).larger hl) fun hnew => hnew.2 j hj
  handled i hi := (hhandled i hi).elim (fun hold => (h.handled i hold).larger hl) id
  object n ns hns e he := (hspace n ns hns).elim (fun hold => (h.object n ns hold e he).larger hl) fun hnew => hnew e he
  bounded := hbounded

end Closed

/-! ## Regular worlds -/

/-- A closed world whose classes are compiled. -/
structure Regular (w : World) : Prop extends Closed w where
  compiled : Compiled w.classes

/-- The change leads from a regular world to a regular one in which nothing is missing. -/
def Regrows (w w' : World) : Prop := w.Regular → w'.Regular ∧ w.Larger w'

instance : IsPreorder World Regrows where
  refl _ hw := ⟨hw, .rfl⟩
  trans _ _ _ h h' hw := by
    obtain ⟨hw₁, hl₁⟩ := h hw
    obtain ⟨hw₂, hl₂⟩ := h' hw₁
    exact ⟨hw₂, hl₁.trans hl₂⟩

/-- The screen changes, or what is kept hold of. -/
theorem regrows_of_same (hc : w'.classes = w.classes) (hi : w'.instances = w.instances)
    (hk : w'.collections = w.collections) (hn : w'.spaces = w.spaces) (hf : w.forest.Widens w'.forest)
    (hhandled : w.Regular → ∀ i ∈ w'.handles, i ∈ w.handles ∨ w.Knows i) : w.Regrows w' := by
  intro hw
  have hl : w.Larger w' := ⟨Nat.le_of_eq (by rw [hi]), Nat.le_of_eq (by rw [hk]), hf.size⟩
  refine ⟨⟨hw.grow hl (fun i x hx => Or.inl ?_) (fun c x hx => Or.inl ?_) (fun i hmem => ?_)
    (fun n ns hns => Or.inl ?_) (hf.bounded hw.bounded), hc ▸ hw.compiled⟩, hl⟩
  · unfold inst? at hx ⊢
    rw [← hi]
    exact hx
  · unfold coll? at hx ⊢
    rw [← hk]
    exact hx
  · exact (hhandled hw i hmem).imp_right fun hknown => hknown.larger hl
  · unfold space? at hns ⊢
    rw [← hn]
    exact hns

theorem regrows_mapScreen {f : Screen → Screen} (hf : w.screen.forest.Widens (f w.screen).forest) :
    w.Regrows (w.mapScreen f) :=
  regrows_of_same rfl rfl rfl rfl hf fun _ _ hi => Or.inl hi

theorem regrows_mapForest {f : Forest → Forest} (hf : w.forest.Widens (f w.forest)) : w.Regrows (w.mapForest f) :=
  regrows_mapScreen hf

theorem regrows_renderIn (w : World) (c : Class) (places : NodeSet) (source : Source) (text : String) :
    w.Regrows (w.renderIn c places source text) :=
  regrows_mapScreen (.of_sameLinks (Screen.sameLinks_render _ _ _ _ _))

/-- Other things are kept hold of, which are there. -/
theorem regrows_pins {ps : List Held} (hps : w.Regular → ∀ j, Held.inst j ∈ ps → w.Knows j) :
    w.Regrows { w with pins := ps } := by
  refine regrows_of_same rfl rfl rfl rfl .rfl fun hw j hj => ?_
  rcases List.mem_append.1 hj with hpin | hlabel
  · obtain ⟨p, hp, hpj⟩ := List.mem_filterMap.1 hpin
    obtain rfl : p = .inst j := by cases p <;> cases hpj; rfl
    exact Or.inr (hps hw j hp)
  · exact Or.inl (List.mem_append_right _ hlabel)

/-- An instance is changed, and refers to what is there. -/
theorem regrows_modifyInstance (i : InstanceId) {f : Instance → Instance}
    (hf : w.Regular → ∀ x, w.inst? i = some x → w.Covers (f x)) : w.Regrows (w.modifyInstance i f) := by
  intro hw
  have hl : w.Larger (w.modifyInstance i f) :=
    ⟨Nat.le_of_eq (Table.size_modify _ _ _).symm, Nat.le_refl _, Nat.le_refl _⟩
  refine ⟨⟨hw.grow hl (fun j x hx => ?_) (fun _ _ hx => Or.inl hx) (fun _ hi => Or.inl hi)
    (fun _ _ hns => Or.inl hns) hw.bounded, hw.compiled⟩, hl⟩
  by_cases hij : i = j
  · subst hij
    rw [inst?_modifyInstance_self] at hx
    obtain ⟨y, hy, rfl⟩ := Option.map_eq_some_iff.1 hx
    exact Or.inr ((hf hw y hy).larger hl)
  · exact Or.inl ((inst?_modifyInstance_of_ne w f hij).symm.trans hx)

/-- An instance is changed, but refers to nothing that it did not refer to. -/
theorem regrows_record (i : InstanceId) {f : Instance → Instance}
    (hf : ∀ x, (f x).view = x.view ∧ (f x).values = x.values ∧ ((f x).attachment = x.attachment ∨ (f x).attachment = none)) :
    w.Regrows (w.modifyInstance i f) := by
  refine regrows_modifyInstance i fun hw x hx => ?_
  obtain ⟨hview, hvalues, hatt⟩ := hf x
  have hx := hw.inst i x hx
  refine ⟨fun a ha => ?_, hvalues ▸ hx.stored, hview ▸ hx.root⟩
  rcases hatt with hsame | hnone
  · exact hx.placed a (hsame ▸ ha)
  · rw [hnone] at ha
    cases ha

theorem regrows_setAttachment {a : Attachment} (ha : w.KnowsPlace a.place) (i : InstanceId) :
    w.Regrows (w.setAttachment i (some a)) :=
  regrows_modifyInstance i fun hw x hx =>
    ⟨fun _ hb => Option.some.inj hb ▸ ha, (hw.inst i x hx).stored, (hw.inst i x hx).root⟩

theorem regrows_storeValue (hv : w.Regular → w.KnowsValue v) (i : InstanceId) (n : Nat) :
    w.Regrows (w.storeValue i n v) := by
  refine regrows_modifyInstance i fun hw x hx =>
    ⟨(hw.inst i x hx).placed, fun u hu => ?_, (hw.inst i x hx).root⟩
  rcases List.mem_or_eq_of_mem_set hu with hold | rfl
  · exact hw.stored hx hold
  · exact hv hw

/-- A collection is changed, and what it lists is there. -/
theorem regrows_modifyCollection (k : CollectionId) {f : Collection → Collection}
    (howner : ∀ x, (f x).owner = x.owner)
    (hitems : w.Regular → ∀ x, w.coll? k = some x → ∀ j ∈ (f x).items, w.Knows j) :
    w.Regrows (w.modifyCollection k f) := by
  intro hw
  have hl : w.Larger (w.modifyCollection k f) :=
    ⟨Nat.le_refl _, Nat.le_of_eq (Table.size_modify _ _ _).symm, Nat.le_refl _⟩
  refine ⟨⟨hw.grow hl (fun _ _ hx => Or.inl hx) (fun c x hx => ?_) (fun _ hi => Or.inl hi)
    (fun _ _ hns => Or.inl hns) hw.bounded, hw.compiled⟩, hl⟩
  by_cases hk : k = c
  · subst hk
    rw [coll?_modifyCollection_self] at hx
    obtain ⟨y, hy, rfl⟩ := Option.map_eq_some_iff.1 hx
    exact Or.inr ⟨howner y ▸ hw.owner k y hy, hitems hw y hy⟩
  · exact Or.inl ((coll?_modifyCollection_of_ne w f hk).symm.trans hx)

theorem regrows_setItems {is : List InstanceId} (his : w.Regular → ∀ j ∈ is, w.Knows j) (k : CollectionId) :
    w.Regrows (w.setItems k is) :=
  regrows_modifyCollection k (fun _ => rfl) fun hw _ _ => his hw

/-- A namespace is changed, and the objects that it names are there. -/
theorem regrows_modifySpace (n : NamespaceId) {f : Namespace → Namespace}
    (hf : w.Regular → ∀ ns, w.space? n = some ns → ∀ e ∈ (f ns).objects, w.Knows e.2) :
    w.Regrows (w.modifySpace n f) := by
  intro hw
  have hl : w.Larger (w.modifySpace n f) := ⟨Nat.le_refl _, Nat.le_refl _, Nat.le_refl _⟩
  refine ⟨⟨hw.grow hl (fun _ _ hx => Or.inl hx) (fun _ _ hx => Or.inl hx) (fun _ hi => Or.inl hi)
    (fun m ns hns => ?_) hw.bounded, hw.compiled⟩, hl⟩
  by_cases hnm : n = m
  · subst hnm
    rw [space?_modifySpace_self] at hns
    obtain ⟨ns₀, hns₀, rfl⟩ := Option.map_eq_some_iff.1 hns
    exact Or.inr (hf hw ns₀ hns₀)
  · exact Or.inl ((space?_modifySpace_of_ne w f hnm).symm.trans hns)

/-- A namespace without objects is added. -/
theorem regrows_pushSpace {ns : Namespace} (hns : ns.objects = []) : w.Regrows (w.pushSpace ns).2 := by
  intro hw
  have hl : w.Larger (w.pushSpace ns).2 := ⟨Nat.le_refl _, Nat.le_refl _, Nat.le_refl _⟩
  refine ⟨⟨hw.grow hl (fun _ _ hx => Or.inl hx) (fun _ _ hx => Or.inl hx) (fun _ hi => Or.inl hi)
    (fun m ms hms => ?_) hw.bounded, hw.compiled⟩, hl⟩
  unfold space? pushSpace at hms
  rcases Nat.lt_trichotomy m.index w.spaces.size with hlt | heq | hgt
  · rw [Table.get?_push_of_lt _ _ _ hlt] at hms
    exact Or.inl hms
  · rw [heq, Table.get?_push_self] at hms
    obtain rfl := Option.some.inj hms
    exact Or.inr fun e he => by rw [hns] at he; cases he
  · have hnone : (w.spaces.push ns).get? m.index = none := by
      refine Array.getElem?_eq_none ?_
      change (w.spaces.push ns).size ≤ m.index
      rw [Table.size_push]
      exact hgt
    rw [hnone] at hms
    cases hms

/-- A class is added. -/
theorem regrows_pushClass {c : Class} (hc : Compiled w.classes → Compiled (w.classes.push c)) :
    w.Regrows (w.pushClass c).2 := by
  intro hw
  have hl : w.Larger (w.pushClass c).2 := ⟨Nat.le_refl _, Nat.le_refl _, Nat.le_refl _⟩
  exact ⟨⟨hw.grow hl (fun _ _ hx => Or.inl hx) (fun _ _ hx => Or.inl hx) (fun _ hi => Or.inl hi)
    (fun _ _ hns => Or.inl hns) hw.bounded, hc hw.compiled⟩, hl⟩

instance : IsLettingGo Regrows where
  unlink _ n := regrows_mapForest (.unlink _ n)
  sweep _ held := regrows_mapForest (.sweep _ held _)
  free _ i := regrows_record i fun _ => ⟨rfl, rfl, Or.inr rfl⟩
  retire _ i := regrows_record i fun _ => ⟨rfl, rfl, Or.inl rfl⟩
  retireColl _ k := regrows_modifyCollection k (fun _ => rfl) fun hw x hx => hw.item k x hx
  retireSpace _ n := regrows_modifySpace n fun hw ns hns => hw.object n ns hns
  clear _ k := regrows_setItems (fun _ _ hj => by cases hj) k

theorem Extends.larger (h : w.Extends w') (hnodes : w.forest.size ≤ w'.forest.size) : w.Larger w' := by
  refine ⟨?_, ?_, hnodes⟩
  · by_contra hlt
    obtain ⟨x, hx⟩ := Knows.exists_inst (w := w) (i := ⟨w'.instances.size⟩) (Nat.not_le.1 hlt)
    obtain ⟨y, hy, -⟩ := h.inst _ x hx
    exact Nat.lt_irrefl _ (knows_of_inst? hy)
  · by_contra hlt
    obtain ⟨x, hx⟩ := KnowsColl.exists_coll (w := w) (c := ⟨w'.collections.size⟩) (Nat.not_le.1 hlt)
    obtain ⟨y, hy, -⟩ := h.coll _ x hx
    exact Nat.lt_irrefl _ (index_lt_of_coll? hy)

/-- An instance is made. -/
theorem Joins.regrows {id : ClassId} {c : Class} {view : View} {b b' : Building}
    (hj : w.Joins w' i id c view b b') : w.Regrows w' := by
  intro hw
  have hgrown : w.forest.Widens w'.forest := by
    rw [hj.forest]
    exact .grown hj.sturdy.grown
  have hl : w.Larger w' := hj.toExtends.larger hgrown.size
  obtain ⟨attrs, hself⟩ := hj.self
  have hi : w'.Knows i := knows_of_inst? hself
  refine ⟨⟨hw.grow hl (fun j x hx => ?_) (fun d x hx => ?_) (fun j hmem => Or.inl ?_) (fun n ns hns => Or.inl ?_)
    (hgrown.bounded hw.bounded), hj.classes ▸ hw.compiled⟩, hl⟩
  · by_cases hji : j = i
    · subst hji
      obtain rfl := Option.some.inj (hself.symm.trans hx)
      refine Or.inr ⟨(by intro a ha; cases ha), fun v hv k hk => ?_, fun u hu => ?_⟩
      · obtain ⟨site, -, rfl⟩ := List.mem_map.1 hv
        cases site <;> cases hk
      · obtain rfl := Option.some.inj hu
        rw [hj.forest]
        exact hj.planted.lt
    · exact Or.inl ((hj.other j hji).symm.trans hx)
  · rcases Nat.lt_or_ge d.index w.collections.size with hold | hnew
    · exact Or.inl ((hj.old d hold).symm.trans hx)
    · obtain ⟨howner, hitems, -⟩ := hj.new_coll hnew hx
      exact Or.inr ⟨howner ▸ hi, fun j hj => by rw [hitems] at hj; cases hj⟩
  · unfold World.handles at hmem ⊢
    rw [← hj.handles.pins, ← hj.handles.registry]
    exact hmem
  · unfold space? at hns ⊢
    rw [← hj.spaces]
    exact hns

end World

end ReactiveView
