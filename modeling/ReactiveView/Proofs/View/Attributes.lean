import ReactiveView.Proofs.View.Consistency
import ReactiveView.Proofs.View.Dressing

/-!
# Attributes read what was written for them

A live view has an element for every element of the shape, in document order, with the attributes of the shape.
On the root stand besides the attributes of the class, under names of their own (`dataName`), and what it took over
from a marker. An attribute of the shape that is the only one of its name on its element, and that neither an
attribute of the class nor a marker writes, reads its value, or its format with the texts of the present values
once the queue of the class has been flushed (`World.attributes_of_reaches`).

Only `style` can stand twice on one element. So the one way in which two attributes of a shape get in each other's
way is that an element carries both `style` and `ooml-style`; and on the root one named as an attribute of the
class is.
-/

set_option autoImplicit false

namespace ReactiveView

/-- The text that an attribute of a shape stands for. -/
def AttributeShape.textIn (a : AttributeShape) (text : Source → String) : String :=
  match a.format with
  | none => a.value
  | some f => f.render text

/-- The writer of an attribute is what the shape asks for, its formatted attribute being wired. -/
def AttributeShape.AskedOf (a : AttributeShape) (g : Wiring) : Writer → Prop
  | .still v => a.format = none ∧ v = some a.value
  | .bound k => ∃ f, a.format = some f ∧ (k, f) ∈ g.formats

theorem dataName_injective {a b : String} (h : (dataName a).tag = (dataName b).tag) : a = b := by
  have hlist := congrArg String.toList h
  unfold dataName QName.plain at hlist
  simp only [String.toList_append, List.append_cancel_left_eq] at hlist
  exact String.toList_inj.1 hlist

/-- An attribute of the class is shown on the root under this name. -/
def Descriptor.Mirrors (d : Descriptor) (t : String) : Prop := ∃ a ∈ d.attributes, (dataName a.name).tag = t

namespace World

variable {w w' w₀ : World} {g : InstanceId → Wiring} {home : BindingId → QueueId}
  {dress : InstanceId → List (NodeId × ElementShape)} {own own' : Writers}

/-- No marker carries the attribute. -/
def Unmarked (w : World) (t : String) : Prop :=
  ∀ m, (w.forest.attr? m Template.markerAttr).isSome = true → w.forest.attr? m t = none

theorem Step.unmarked (hstep : w.Step w') (hw : w.Sound) {t : String} (h : w'.Unmarked t) : w.Unmarked t := by
  intro m hm
  by_contra hsome
  have hthere := hstep.isSome_attr? hw (Option.isSome_iff_ne_none.2 hsome)
  rw [h m (hstep.isSome_attr? hw hm)] at hthere
  cases hthere

/-! ## Elements of one view -/

/-- The elements of a live view carry the attributes of the shape, and the root those of the class. -/
structure Wears (w : World) (x : Instance) (c : Class) (view : View) (g : Wiring) (own : Writers)
    (els : List (NodeId × ElementShape)) : Prop where
  shapes : els.map (·.2) = c.descriptor.elements
  root : els.head?.map (·.1) = some view.root
  nodup : (els.map (·.1)).Nodup
  tag : ∀ e ∈ els, w.forest.tag? e.1 = some e.2.name.tag
  written : ∀ n s a, (n, s) ∈ els → a ∈ s.attrs → s.tags.count a.name.tag = 1 →
    (n = view.root → ¬ c.descriptor.Mirrors a.name.tag ∧ w.Unmarked a.name.tag) →
      ∃ r, own n a.name.tag = some r ∧ a.AskedOf g r
  bare : ∀ n s t, (n, s) ∈ els → t ∉ s.tags → (n = view.root → ¬ c.descriptor.Mirrors t ∧ w.Unmarked t) →
    own n t = some (.still none)
  mirrored : ∀ s (k : Nat) a v, (view.root, s) ∈ els → c.descriptor.attributes[k]? = some a →
    x.attrValues[k]? = some v → (dataName a.name).tag ∉ s.tags → w.Unmarked (dataName a.name).tag →
      ∃ u, own view.root (dataName a.name).tag = some (.still u) ∧ (u = none ∨ u = some v.outputText)
  built : x.built = true → ∀ a ∈ c.descriptor.attributes,
    (w.forest.attr? view.root (dataName a.name).tag).isSome = true

section Wears

variable {x x' : Instance} {c : Class} {view : View} {wiring : Wiring} {els : List (NodeId × ElementShape)}

theorem Wears.root_mem (h : w.Wears x c view wiring own els) : ∃ s, (view.root, s) ∈ els := by
  obtain ⟨e, he, hroot⟩ := Option.map_eq_some_iff.1 h.root
  exact ⟨e.2, hroot ▸ List.mem_of_head? he⟩

/-- A change that writes no attribute of the view but those of a marker. -/
theorem Wears.keep (h : w.Wears x c view wiring own els) (hstep : w.Step w') (hw : w.Sound)
    (hattrs : x'.attrValues = x.attrValues)
    (hbuilt : x'.built = true → x.built = true ∨ ∀ a ∈ c.descriptor.attributes,
      (w.forest.attr? view.root (dataName a.name).tag).isSome = true)
    (hown : ∀ e ∈ els, ∀ t, (e.1 = view.root → w'.Unmarked t) → own' e.1 t = own e.1 t) :
    w'.Wears x' c view wiring own' els where
  shapes := h.shapes
  root := h.root
  nodup := h.nodup
  tag e he := hstep.tag? hw (h.tag e he)
  written n s a hs ha hcount hroot := by
    rw [hown (n, s) hs a.name.tag fun hn => (hroot hn).2]
    exact h.written n s a hs ha hcount fun hn => (hroot hn).imp_right (hstep.unmarked hw)
  bare n s t hs ht hroot := by
    rw [hown (n, s) hs t fun hn => (hroot hn).2]
    exact h.bare n s t hs ht fun hn => (hroot hn).imp_right (hstep.unmarked hw)
  mirrored s k a v hs ha hv htag hmark := by
    rw [hown (view.root, s) hs _ fun _ => hmark]
    exact h.mirrored s k a v hs ha (hattrs ▸ hv) htag (hstep.unmarked hw hmark)
  built hx a ha := hstep.isSome_attr? hw ((hbuilt hx).elim (fun hold => h.built hold a ha) fun hall => hall a ha)

/-- An attribute of the class is shown on the root when it is stored. -/
theorem Wears.store (h : w.Wears x c view wiring own els) (hstep : w.Step w') (hw : w.Sound)
    (hd : c.descriptor.WellFormed) {n : Nat} {a : AttributeDescriptor} {v : Value}
    (ha : c.descriptor.attributes[n]? = some a)
    (hother : ∀ m t, m ≠ view.root ∨ t ≠ (dataName a.name).tag → own' m t = own m t)
    (hself : ∀ u, own view.root (dataName a.name).tag = some (.still u) →
      own' view.root (dataName a.name).tag = some (.still (some v.outputText))) :
    w'.Wears { x with attrValues := x.attrValues.set n v } c view wiring own' els := by
  have happart {m : NodeId} {t : String} (hm : m = view.root → ¬ c.descriptor.Mirrors t) :
      m ≠ view.root ∨ t ≠ (dataName a.name).tag :=
    not_and_or.1 fun hplace => hm hplace.1 ⟨a, List.mem_of_getElem? ha, hplace.2.symm⟩
  refine ⟨h.shapes, h.root, h.nodup, fun e he => hstep.tag? hw (h.tag e he), fun m s a' hs ha' hcount hroot => ?_,
    fun m s t hs ht hroot => ?_, fun s k a' v' hs ha' hv' htag hmark => ?_,
    fun hx a ha => hstep.isSome_attr? hw (h.built hx a ha)⟩
  · rw [hother m a'.name.tag (happart fun hm => (hroot hm).1)]
    exact h.written m s a' hs ha' hcount fun hm => (hroot hm).imp_right (hstep.unmarked hw)
  · rw [hother m t (happart fun hm => (hroot hm).1)]
    exact h.bare m s t hs ht fun hm => (hroot hm).imp_right (hstep.unmarked hw)
  · have hmark := hstep.unmarked hw hmark
    by_cases hk : n = k
    · subst hk
      obtain rfl := Option.some.inj (ha.symm.trans ha')
      obtain ⟨hn, rfl⟩ := List.getElem?_eq_some_iff.1 hv'
      rw [List.length_set] at hn
      obtain ⟨u, hu, -⟩ := h.mirrored s n a _ hs ha (List.getElem?_eq_getElem hn) htag hmark
      refine ⟨_, hself u hu, Or.inr ?_⟩
      rw [List.getElem_set_self]
    · have hne : (dataName a'.name).tag ≠ (dataName a.name).tag := by
        intro heq
        have hname : a'.name = a.name := dataName_injective heq
        have hindex := hd.attributeIndex?_name ha'
        rw [hname, hd.attributeIndex?_name ha] at hindex
        exact hk (Option.some.inj hindex)
      rw [hother _ _ (Or.inr hne)]
      rw [List.getElem?_set_ne hk] at hv'
      exact h.mirrored s k a' v' hs ha' hv' htag hmark

end Wears

/-! ## The elements of all views -/

/-- The elements of the views of all instances, none of which belongs to two. -/
structure Dressed (w : World) (g : InstanceId → Wiring) (dress : InstanceId → List (NodeId × ElementShape))
    (own : Writers) : Prop where
  obeys : w.screen.Obeys own
  wears : ∀ i x, w.inst? i = some x → ∃ c view, w.class? x.classId = some c ∧ x.view = some view ∧
    w.Wears x c view (g i) own (dress i)
  known : ∀ i, ∀ e ∈ dress i, (w.inst? i).isSome = true
  apart : ∀ i j, ∀ e ∈ dress i, ∀ e' ∈ dress j, e.1 = e'.1 → i = j

theorem Dressed.keep (h : w.Dressed g dress own) (hstep : w.Step w') (hobeys : w'.screen.Obeys own')
    (hinst : ∀ i x', w'.inst? i = some x' → ∃ x, w.inst? i = some x ∧ x'.classId = x.classId ∧
      x'.view = x.view ∧ ∀ c view, w.class? x.classId = some c → x.view = some view →
        w.Wears x c view (g i) own (dress i) → w'.Wears x' c view (g i) own' (dress i)) :
    w'.Dressed g dress own' where
  obeys := hobeys
  wears i x' hx' := by
    obtain ⟨x, hx, hid, hview, hwears⟩ := hinst i x' hx'
    obtain ⟨c, view, hc, hv, hold⟩ := h.wears i x hx
    exact ⟨c, view, hid ▸ hstep.grows.cls _ c hc, hview.trans hv, hwears c view hc hv hold⟩
  known i e he := by
    obtain ⟨x, hx⟩ := Option.isSome_iff_exists.1 (h.known i e he)
    obtain ⟨x', hx', -⟩ := hstep.grows.inst i x hx
    rw [hx']
    rfl
  apart := h.apart

/-- The root of an instance is an element of no other view. -/
theorem Dressed.eq_of_root (h : w.Dressed g dress own) {i j : InstanceId} {x : Instance} {view : View}
    (hx : w.inst? i = some x) (hview : x.view = some view) {e : NodeId × ElementShape} (he : e ∈ dress j)
    (hroot : e.1 = view.root) : i = j := by
  obtain ⟨c, v, -, hv, hold⟩ := h.wears i x hx
  obtain rfl := Option.some.inj (hview.symm.trans hv)
  obtain ⟨s, hs⟩ := hold.root_mem
  exact h.apart i j _ hs e he hroot.symm

/-- Elementary changes keep the elements of all views dressed, unless an instance is made. -/
theorem Step.dressed (hstep : w.Step w') (hw : w.Sound) (h : w.Dressed g dress own) :
    (∃ own', w'.Dressed g dress own') ∨
      ∃ id c i, w.class? id = some c ∧ w.createInstance id c.descriptor = .ok (i, w') := by
  have hchange := hstep
  -- no instance is changed, and no attribute is written
  have hsame (hinst : ∀ i, w'.inst? i = w.inst? i) (hobeys : w'.screen.Obeys own) : w'.Dressed g dress own :=
    h.keep hchange hobeys fun i x' hx' => ⟨x', (hinst i).symm.trans hx', rfl, rfl,
      fun _ _ _ _ hold => hold.keep hchange hw rfl Or.inl fun _ _ _ _ => rfl⟩
  -- one instance is changed, whose attributes stay
  have hmodify {i : InstanceId} {f : Instance → Instance} (hinst : ∀ j, w'.inst? j = (w.modifyInstance i f).inst? j)
      (hobeys : w'.screen.Obeys own)
      (hf : ∀ x, (f x).classId = x.classId ∧ (f x).view = x.view ∧ (f x).attrValues = x.attrValues)
      (hbuilt : ∀ x c view, w.inst? i = some x → w.class? x.classId = some c → x.view = some view →
        (f x).built = true → x.built = true ∨ ∀ a ∈ c.descriptor.attributes,
          (w.forest.attr? view.root (dataName a.name).tag).isSome = true) : w'.Dressed g dress own := by
    refine h.keep hchange hobeys fun j x' hx' => ?_
    rw [hinst] at hx'
    by_cases hij : i = j
    · subst hij
      rw [inst?_modifyInstance_self] at hx'
      obtain ⟨x, hx, rfl⟩ := Option.map_eq_some_iff.1 hx'
      refine ⟨x, hx, (hf x).1, (hf x).2.1, fun c view hc hv hold => ?_⟩
      exact hold.keep hchange hw (hf x).2.2 (hbuilt x c view hx hc hv) fun _ _ _ _ => rfl
    · rw [inst?_modifyInstance_of_ne _ _ hij] at hx'
      exact ⟨x', hx', rfl, rfl, fun _ _ _ _ hold => hold.keep hchange hw rfl Or.inl fun _ _ _ _ => rfl⟩
  cases hstep with
  | quiet screen classes instances collections spaces =>
    refine Or.inl ⟨own, hsame (fun i => ?_) (screen ▸ h.obeys)⟩
    unfold inst?
    rw [instances]
  | moves f hf => exact Or.inl ⟨own, hsame (fun _ => rfl) (h.obeys.moves hf rfl)⟩
  | @mark i r m hr hm a ha =>
    refine Or.inl ⟨_, h.keep hchange (h.obeys.setAttr (Or.inl rfl)) fun j x' hx' => ⟨x', hx', rfl, rfl,
      fun c view hc hv hold => hold.keep hchange hw rfl Or.inl fun e he t hroot => ?_⟩⟩
    refine Writers.put_of_ne _ _ (not_and_or.1 fun hplace => ?_)
    -- only attributes of a marker are taken over
    obtain ⟨view', hview', rfl⟩ := Option.map_eq_some_iff.1 hr
    obtain ⟨y, hy, hyv⟩ := Option.bind_eq_some_iff.1 hview'
    obtain rfl := h.eq_of_root hy hyv he hplace.1
    obtain rfl := Option.some.inj (hx'.symm.trans hy)
    obtain rfl := Option.some.inj (hv.symm.trans hyv)
    have hnone := hroot hplace.1 m (hchange.isSome_attr? hw hm)
    have hsome := hchange.isSome_attr? hw ha
    rw [← hplace.2, hnone] at hsome
    cases hsome
  | create hc hcreate => exact Or.inr ⟨_, _, _, hc, hcreate⟩
  | @write i x c view n p types v hx hc hview hp hkind hv =>
    refine Or.inl ⟨own, hmodify (i := i) (f := fun x => { x with values := x.values.set n v }) (fun j => ?_) ?_
      (fun _ => ⟨rfl, rfl, rfl⟩) fun _ _ _ _ _ _ => Or.inl⟩
    · unfold rendered
      split <;> rfl
    · change (w.rendered c view.sites[n]? (.property p.name) v.outputText).screen.Obeys own
      unfold rendered
      split
      · exact h.obeys.render c.queue _ _ _
      · exact h.obeys
  | @slot i x c n p element v hx hc hp hkind hv =>
    exact Or.inl ⟨own, hmodify (i := i) (f := fun x => { x with values := x.values.set n v }) (fun _ => rfl) h.obeys
      (fun _ => ⟨rfl, rfl, rfl⟩) fun _ _ _ _ _ _ => Or.inl⟩
  | @attr i x c view n a v hx hc hview ha hv =>
    obtain ⟨o, ho⟩ : ∃ o, o = Writer.reset v.outputText (own view.root (dataName a.name).tag) := ⟨_, rfl⟩
    have hcases := ho ▸ Writer.reset_cases v.outputText (own view.root (dataName a.name).tag)
    have hrender := h.obeys.render c.queue (view.attributeNodes[n]?.getD []) (.attr a.name) v.outputText
    refine Or.inl ⟨own.put view.root (dataName a.name).tag o, h.keep hchange (hrender.setAttr hcases) fun j x' hx' => ?_⟩
    have hx' : (w.modifyInstance i fun x => { x with attrValues := x.attrValues.set n v }).inst? j = some x' := hx'
    by_cases hij : i = j
    · subst hij
      rw [inst?_modifyInstance_self, hx, Option.map_some] at hx'
      obtain rfl := Option.some.inj hx'
      refine ⟨x, hx, rfl, rfl, fun d v' hd hv' hold => ?_⟩
      obtain rfl := Option.some.inj (hc.symm.trans hd)
      obtain rfl := Option.some.inj (hview.symm.trans hv')
      refine hold.store hchange hw (hw.compiled.parsed hc).spec.2.1 ha (fun m t hm => Writers.put_of_ne _ _ hm)
        fun u hu => ?_
      rw [Writers.put_self]
      rw [ho, hu]
      rfl
    · rw [inst?_modifyInstance_of_ne _ _ hij] at hx'
      refine ⟨x', hx', rfl, rfl, fun d v' hd hv' hold => hold.keep hchange hw rfl Or.inl fun e he t _ => ?_⟩
      exact Writers.put_of_ne _ _ (Or.inl fun hroot => hij (h.eq_of_root hx hview he hroot))
  | flush q => exact Or.inl ⟨own, hsame (fun _ => rfl) (h.obeys.flush q)⟩
  | record i f hf =>
    exact Or.inl ⟨own, hmodify (fun _ => rfl) h.obeys (fun x => ⟨(hf x).1, (hf x).2.1, (hf x).2.2.2.1⟩)
      fun x _ _ _ _ _ hb => Or.inl ((hf x).2.2.2.2 ▸ hb)⟩
  | finish i hi hroot =>
    exact Or.inl ⟨own, hmodify (fun _ => rfl) h.obeys (fun _ => ⟨rfl, rfl, rfl⟩)
      fun x c view hx hc hv _ => Or.inr (hroot x c view hx hc hv)⟩
  | addSpace delay ns hq =>
    refine Or.inl ⟨own, hsame (fun _ => rfl) ?_⟩
    exact h.obeys.congr (Nat.le_refl _) (fun _ => id) (fun _ _ _ => rfl) fun _ => rfl
  | space | contents | addClass => exact Or.inl ⟨own, hsame (fun _ => rfl) h.obeys⟩

/-! ## Making an instance -/

/-- The view that is built for an instance has the elements of the shape, the root first. -/
theorem exists_dresses_bindView {d : Descriptor} (hd : d.Parsed) {owner : InstanceId} {view : View}
    (h : w.bindView d owner = .ok (view, w')) (ho : w.screen.Obeys own) :
    ∃ own' els, w.screen.Dresses w'.screen own own' els ∧ els.map (·.2) = d.elements ∧
      els.head?.map (·.1) = some view.root := by
  unfold bindView at h
  split at h
  · next shape children hview =>
    extract_lets start at h
    split at h
    · cases h
    · cases h
    · next root b hbuild =>
      split at h
      · cases h
      · next sites w₁ hsites =>
        obtain ⟨rfl, rfl⟩ := Prod.mk.inj (Except.ok.inj h)
        have hscreen : w₁.screen = b.screen := by
          rw [(sitesOf_sound hsites).same]
        have hstart : start.screen.Obeys own := ho
        obtain ⟨own', els, hels, hshapes, hroot⟩ :=
          Building.exists_dresses_build _ (hd.blank _ hview) hbuild hstart
        have helements : els.map (·.2) = d.elements := by
          rw [hshapes]
          unfold Descriptor.elements
          rw [hview]
          rfl
        refine ⟨own', els, hscreen ▸ hels, helements, ?_⟩
        cases els with
        | nil =>
          rw [ViewNode.elements] at hshapes
          cases hshapes
        | cons e rest => exact (hroot e rfl).symm
  · cases h

theorem exists_dresses_createInstance {id : ClassId} {d : Descriptor} (hd : d.Parsed) {i : InstanceId}
    (h : w.createInstance id d = .ok (i, w')) {x : Instance} (hx : w'.inst? i = some x) {view : View}
    (hview : x.view = some view) (ho : w.screen.Obeys own) :
    ∃ own' els, w.screen.Dresses w'.screen own own' els ∧ els.map (·.2) = d.elements ∧
      els.head?.map (·.1) = some view.root := by
  unfold createInstance at h
  dsimp only [pushInstance] at h
  split at h
  · cases h
  · next view' w₁ hbind =>
    obtain ⟨rfl, rfl⟩ := Prod.mk.inj (Except.ok.inj h)
    rw [inst?_modifyInstance_self] at hx
    obtain ⟨y, -, rfl⟩ := Option.map_eq_some_iff.1 hx
    obtain rfl := Option.some.inj hview
    obtain ⟨own', els, hels⟩ := exists_dresses_bindView hd hbind ho
    exact ⟨own', els, hels⟩

/-- A new instance has elements of its own. -/
theorem Dressed.create (h : w.Dressed g dress own) (hw : w.Sound) {id : ClassId} {c : Class} {i : InstanceId}
    (hc : w.class? id = some c) (hcreate : w.createInstance id c.descriptor = .ok (i, w')) {x : Instance}
    {view : View} {new : Wiring} (hx : w'.inst? i = some x) (hview : x.view = some view)
    (hbuilds : w.Builds w' c.descriptor view new) :
    ∃ els own', w'.Dressed (Function.update g i new) (Function.update dress i els) own' := by
  obtain ⟨-, _, _, _, hjoins⟩ := createInstance_joins hcreate
  obtain ⟨own', els, hels, hshapes, hroot⟩ :=
    exists_dresses_createInstance (hw.compiled.parsed hc) hcreate hx hview h.obeys
  obtain ⟨attrs, hself⟩ := hjoins.self
  obtain rfl := Option.some.inj (hself.symm.trans hx)
  obtain rfl := Option.some.inj hview
  have hold {j : InstanceId} {e : NodeId × ElementShape} (he : e ∈ dress j) :
      e.1.index < w.screen.forest.size := by
    obtain ⟨y, hy⟩ := Option.isSome_iff_exists.1 (h.known j e he)
    obtain ⟨_, _, -, -, hwears⟩ := h.wears j y hy
    exact Forest.lt_size_of_tag? (hwears.tag e he)
  have hfresh {j : InstanceId} {e e' : NodeId × ElementShape} (he : e ∈ dress j) (he' : e' ∈ els) : e.1 ≠ e'.1 :=
    fun heq => Nat.lt_irrefl _ (Nat.lt_of_lt_of_le (heq ▸ hold he) (hels.new e' he'))
  -- a new formatted attribute is wired with the format that was asked for
  have hasked {a : AttributeShape} {r : Writer} {e : NodeId × ElementShape} (he : e ∈ els)
      (hr : own' e.1 a.name.tag = some r) (hwritten : a.WrittenBy w'.screen r) : a.AskedOf new r := by
    cases r with
    | still v => exact hwritten
    | bound k =>
      obtain ⟨f, y, hf, hy, hslots, hparts⟩ := hwritten
      have hnone : w.screen.binding? k = none := by
        by_contra hsome
        obtain ⟨z, hz⟩ := Option.ne_none_iff_exists'.1 hsome
        obtain rfl := Option.some.inj (hy.symm.trans (hels.grows.old k z hz))
        obtain ⟨y', hy', howner, -⟩ := hels.obeys.bound _ _ k hr
        obtain rfl := Option.some.inj (hy.symm.trans hy')
        have hlt := h.obeys.owner k y hz
        rw [howner] at hlt
        exact absurd hlt (Nat.not_lt.2 (hels.new e he))
      obtain ⟨f', hf', hslots', hparts'⟩ := hbuilds.format k y hy hnone
      obtain ⟨parts, slots⟩ := f
      obtain ⟨parts', slots'⟩ := f'
      obtain rfl : slots = slots' := hslots.symm.trans hslots'
      obtain rfl : parts = parts' := hparts.symm.trans hparts'
      exact ⟨_, hf, hf'⟩
  refine ⟨els, own', hels.obeys, fun j y hy => ?_, fun j e he => ?_, fun j k e he e' he' heq => ?_⟩
  · by_cases hj : j = i
    · subst hj
      obtain rfl := Option.some.inj (hself.symm.trans hy)
      rw [Function.update_self, Function.update_self]
      refine ⟨c, _, (hjoins.class? id).trans hc, rfl, hshapes, hroot, hels.nodup, fun e he => (hels.worn e he).tag,
        fun n s a hs ha hcount _ => ?_, fun n s t hs ht _ => (hels.worn _ hs).bare t ht,
        fun s k a v hs ha _ htag _ => ?_, fun hb => by cases hb⟩
      · obtain ⟨r, hr, hwritten⟩ := (hels.worn (n, s) hs).written a ha hcount
        exact ⟨r, hr, hasked hs hr hwritten⟩
      · exact ⟨none, (hels.worn _ hs).bare _ htag, Or.inl rfl⟩
    · rw [hjoins.other j hj] at hy
      rw [Function.update_of_ne hj, Function.update_of_ne hj]
      obtain ⟨d, v, hd, hv, hwears⟩ := h.wears j y hy
      refine ⟨d, v, (hjoins.class? _).trans hd, hv, hwears.keep (.create hc hcreate) hw rfl Or.inl fun e he t _ => ?_⟩
      rw [hels.old e.1 (hold he)]
  · by_cases hj : j = i
    · rw [hj, hself]
      rfl
    · rw [Function.update_of_ne hj] at he
      rw [hjoins.other j hj]
      exact h.known j e he
  · by_cases hji : j = i <;> by_cases hki : k = i
    · rw [hji, hki]
    · rw [hji, Function.update_self] at he
      rw [Function.update_of_ne hki] at he'
      exact absurd heq.symm (hfresh he' he)
    · rw [Function.update_of_ne hji] at he
      rw [hki, Function.update_self] at he'
      exact absurd heq (hfresh he he')
    · rw [Function.update_of_ne hji] at he
      rw [Function.update_of_ne hki] at he'
      exact h.apart j k e he e' he' heq

/-! ## Runs -/

theorem Unused.dressed (h : w.Unused) : w.Dressed (fun _ => {}) (fun _ => []) fun _ _ => none := by
  have hnone (b : BindingId) : w.screen.binding? b = none := by
    unfold Screen.binding?
    rw [h.bindings]
    simp [Table.get?]
  have hobeys : w.screen.Obeys fun _ _ => none := by
    refine ⟨fun n t r hr => ?_, fun n t v hv => ?_, fun n t b hb => ?_, fun b x _ => Or.inl rfl, fun b x hx => ?_⟩
    · cases hr
    · cases hv
    · cases hb
    · rw [hnone] at hx
      cases hx
  refine ⟨hobeys, fun i x hx => ?_, fun i e he => absurd he List.not_mem_nil,
    fun i j e he => absurd he List.not_mem_nil⟩
  unfold inst? at hx
  rw [h.instances] at hx
  simp [Table.get?] at hx

theorem Dressed.exists_create (h : w.Dressed g dress own) (hw : w.Sound) (hp : w.Presents g home) {id : ClassId}
    {c : Class} {i : InstanceId} (hc : w.class? id = some c)
    (hcreate : w.createInstance id c.descriptor = .ok (i, w')) :
    ∃ g' home' dress' own', w'.Presents g' home' ∧ w'.Dressed g' dress' own' := by
  obtain ⟨-, _, _, _, hjoins⟩ := createInstance_joins hcreate
  obtain ⟨attrs, hself⟩ := hjoins.self
  obtain ⟨view, new, hview, hbuilds⟩ := exists_builds_createInstance (hw.compiled.parsed hc) hcreate hself
  obtain ⟨els, own', hdressed⟩ := h.create hw hc hcreate hself hview hbuilds
  exact ⟨_, _, _, _, hp.create hc hcreate hself hview hbuilds, hdressed⟩

/-- Any number of elementary changes keep all views wired and dressed. -/
theorem Steps.dressed (hsteps : w.Steps w') (hw : w.Sound) (hp : w.Presents g home) (h : w.Dressed g dress own) :
    ∃ g' home' dress' own', w'.Presents g' home' ∧ w'.Dressed g' dress' own' := by
  induction hsteps with
  | refl => exact ⟨g, home, dress, own, hp, h⟩
  | tail hsteps hstep ih =>
    obtain ⟨g', home', dress', own', hp', h'⟩ := ih
    have hmid := Steps.sound hsteps hw
    rcases hstep.presents hmid hp' with hkept | ⟨id, c, i, hc, hcreate⟩
    · rcases hstep.dressed hmid h' with ⟨own'', hdressed⟩ | ⟨id, c, i, hc, hcreate⟩
      · exact ⟨g', home', dress', own'', hkept, hdressed⟩
      · exact h'.exists_create hmid hp' hc hcreate
    · exact h'.exists_create hmid hp' hc hcreate

/-- What the attributes of a live view read. -/
structure ReadsAttributes (w : World) (x : Instance) (c : Class) (view : View) (els : List (NodeId × ElementShape)) :
    Prop where
  shapes : els.map (·.2) = c.descriptor.elements
  root : els.head?.map (·.1) = some view.root
  nodup : (els.map (·.1)).Nodup
  tag : ∀ e ∈ els, w.forest.tag? e.1 = some e.2.name.tag
  distinct : ∀ e ∈ els, e.2.Distinct
  /-- An attribute of the shape that is the only one of its name; a formatted one needs an element in use. -/
  attrs : ∀ n s a, (n, s) ∈ els → a ∈ s.attrs → s.tags.count a.name.tag = 1 →
    (n = view.root → ¬ c.descriptor.Mirrors a.name.tag ∧ w.Unmarked a.name.tag) →
      (a.format.isSome = true → w.forest.isAlive n = true) →
        w.forest.attr? n a.name.tag = some (a.textIn (x.textIn c))
  /-- There are no others. -/
  bare : ∀ n s t, (n, s) ∈ els → t ∉ s.tags → (n = view.root → ¬ c.descriptor.Mirrors t ∧ w.Unmarked t) →
    w.forest.attr? n t = none
  /-- The attributes of the class, which are written when an instance is constructed. -/
  mirrors : x.built = true → ∀ s a, (view.root, s) ∈ els → a ∈ c.descriptor.attributes →
    (dataName a.name).tag ∉ s.tags → w.Unmarked (dataName a.name).tag →
      w.forest.attr? view.root (dataName a.name).tag = some (x.textIn c (.attr a.name))

/-- Where no formatted attribute of the class waits, attributes read what they stand for. -/
theorem Wears.reads {x : Instance} {c : Class} {view : View} {wiring : Wiring}
    {els : List (NodeId × ElementShape)} (h : w.Wears x c view wiring own els) (hobeys : w.screen.Obeys own)
    (hd : c.descriptor.Parsed) (hvalues : x.attrValues.length = c.descriptor.attributes.length)
    (hformats : ∀ b f, (b, f) ∈ wiring.formats → ∃ y, w.screen.binding? b = some y ∧
      y.joined = f.render (x.textIn c) ∧ (w.forest.isAlive y.owner = true → y.written = some y.joined)) :
    w.ReadsAttributes x c view els where
  shapes := h.shapes
  root := h.root
  nodup := h.nodup
  tag := h.tag
  distinct e he := hd.distinct e.2 (h.shapes ▸ List.mem_map_of_mem (f := (·.2)) he)
  attrs n s a hs ha hcount hroot halive := by
    obtain ⟨r, hr, hasked⟩ := h.written n s a hs ha hcount hroot
    unfold AttributeShape.textIn
    cases r with
    | still v =>
      obtain ⟨hnone, rfl⟩ := hasked
      rw [hnone]
      exact hobeys.still _ _ _ hr
    | bound b =>
      obtain ⟨f, hf, hb⟩ := hasked
      obtain ⟨y, hy, howner, -, hread⟩ := hobeys.bound _ _ _ hr
      obtain ⟨z, hz, hjoined, hwritten⟩ := hformats b f hb
      obtain rfl := Option.some.inj (hy.symm.trans hz)
      rw [hf] at halive ⊢
      rw [howner] at hwritten
      exact hread.trans ((hwritten (halive rfl)).trans (congrArg some hjoined))
  bare n s t hs ht hroot := hobeys.still _ _ _ (h.bare n s t hs ht hroot)
  mirrors hb s a hs ha htag hmark := by
    obtain ⟨k, hk⟩ := List.getElem?_of_mem ha
    have hlt : k < x.attrValues.length := hvalues ▸ (List.getElem?_eq_some_iff.1 hk).1
    obtain ⟨u, hu, hcases⟩ := h.mirrored s k a _ hs hk (List.getElem?_eq_getElem hlt) htag hmark
    have hread := hobeys.still _ _ _ hu
    have hthere : (w.screen.forest.attr? view.root (dataName a.name).tag).isSome = true := h.built hb a ha
    rcases hcases with rfl | rfl
    · rw [hread] at hthere
      cases hthere
    · refine hread.trans (congrArg some ?_)
      unfold Instance.textIn
      dsimp only
      rw [hd.spec.2.1.attributeIndex?_name hk, Option.bind_some, List.getElem?_eq_getElem hlt]
      rfl

/-- Whatever is done after a fresh start, once the queue of a class has been flushed the attributes of every
instance of the class read what they stand for. -/
theorem attributes_of_reaches (h₀ : w₀.Unused) (hreach : w₀.Reaches w) {i : InstanceId} {x : Instance} {c : Class}
    (hx : w.inst? i = some x) (hc : w.class? x.classId = some c) :
    ∃ view els, x.view = some view ∧ (Run.flushQueue c.queue w).2.ReadsAttributes x c view els := by
  have hw := hreach.sound h₀.sound
  obtain ⟨g, home, dress, own, hp, hd⟩ := Steps.dressed
    ((hreach.steps h₀.sound).tail (.flush c.queue)) h₀.sound h₀.presents h₀.dressed
  change (Run.flushQueue c.queue w).2.Presents g home at hp
  change (Run.flushQueue c.queue w).2.Dressed g dress own at hd
  have hx' : (Run.flushQueue c.queue w).2.inst? i = some x := hx
  have hc' : (Run.flushQueue c.queue w).2.class? x.classId = some c := hc
  obtain ⟨d, view, hd', hview, hwears⟩ := hd.wears i x hx'
  obtain rfl := Option.some.inj (hc'.symm.trans hd')
  obtain ⟨d, view', hconsistent⟩ := hp.viewConsistent hx'
  obtain rfl := Option.some.inj (hc'.symm.trans hconsistent.ofClass)
  refine ⟨view, dress i, hview, hwears.reads hd.obeys (hw.compiled.parsed hc) ?_ fun b f hf => ?_⟩
  · exact (hw.fills hx hc).attrs.length_eq.symm
  · obtain ⟨y, hy, hjoined, horder⟩ := hconsistent.formats b f hf
    -- nothing waits after a flush
    have hidle : y.pending = false := by
      by_contra hpending
      obtain ⟨bs, hbs, hmem⟩ := horder.pending_iff.1 (Bool.not_eq_false _ ▸ hpending)
      change (w.screen.flush c.queue).2.waiting? c.queue = some bs at hbs
      rw [(w.screen.flushed_flush c.queue).empty] at hbs
      obtain ⟨_, -, rfl⟩ := Option.map_eq_some_iff.1 hbs
      exact List.not_mem_nil hmem
    exact ⟨y, hy, hjoined, horder.written hidle⟩

/-- After the tone of a tile has been set and what waits has been written, its outermost element reads the format
with the new tone, and the tone itself. -/
theorem attributes_of_reaches_board : ∃ w x c view els, boardWorld.Reaches w ∧ w.inst? ⟨1⟩ = some x ∧
    w.class? x.classId = some c ∧ (Run.flushQueue c.queue w).2.ReadsAttributes x c view els ∧
      (Run.flushQueue c.queue w).2.forest.attr? view.root "class" = some "tile warm" ∧
        (Run.flushQueue c.queue w).2.forest.attr? view.root "data-tone" = some "warm" := by
  obtain ⟨w, hw⟩ : ∃ w, w = ((Operation.setAttribute ⟨1⟩ "tone" (.text "warm")).run (Callbacks.ofDepth 2) board.2).2 :=
    ⟨_, rfl⟩
  have hreach : boardWorld.Reaches w := reaches_board.tail ⟨2, .setAttribute ⟨1⟩ "tone" (.text "warm"), hw⟩
  have hqueue : ((w.inst? ⟨1⟩).bind fun x => w.class? x.classId).map (·.queue) = some ⟨0⟩ := by
    rw [hw]
    decide +kernel
  have hread : (w.rootOf? ⟨1⟩).map (fun r => ((Run.flushQueue ⟨0⟩ w).2.forest.attr? r "class",
      (Run.flushQueue ⟨0⟩ w).2.forest.attr? r "data-tone")) = some (some "tile warm", some "warm") := by
    rw [hw]
    decide +kernel
  obtain ⟨c, hfound, hq⟩ := Option.map_eq_some_iff.1 hqueue
  obtain ⟨x, hx, hc⟩ := Option.bind_eq_some_iff.1 hfound
  obtain ⟨view, els, hview, hreads⟩ := attributes_of_reaches unused_boardWorld hreach hx hc
  have hroot : w.rootOf? ⟨1⟩ = some view.root := by
    unfold rootOf?
    rw [hx, Option.bind_some, hview]
    rfl
  rw [hroot, Option.map_some] at hread
  obtain ⟨hclass, htone⟩ := Prod.mk.inj (Option.some.inj hread)
  refine ⟨w, x, c, view, els, hreach, hx, hc, hreads, ?_, ?_⟩
  · rw [hq]
    exact hclass
  · rw [hq]
    exact htone

end World

end ReactiveView
