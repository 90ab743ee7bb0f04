import ReactiveView.Proofs.Steps.Construction
import ReactiveView.Proofs.View.Creation

/-!
# Views that show what instances hold

A world *presents* its instances when every live view is wired along what its class uses and shows, along
its wiring, the texts of the values that the instance holds, and when formatted attributes wait in the
queues of their classes (`World.Presents`). No two instances share a place.

Every elementary change keeps this (`World.Step.presents`). A change either leaves screens and values
alone, or renders the text of a value in all places of its source when it is stored
(`World.Presents.render`), or makes an instance, whose view shows empty texts while all its values are
empty (`World.Presents.create`).
-/

set_option autoImplicit false

namespace ReactiveView

/-- The text of the value that an instance holds for a source. -/
def Instance.textIn (x : Instance) (c : Class) : Source → String
  | .property name =>
    (((c.descriptor.propertyIndex? name).bind fun n => x.values[n]?).map Value.outputText).getD ""
  | .attr name =>
    (((c.descriptor.attributeIndex? name).bind fun n => x.attrValues[n]?).map Value.outputText).getD ""

namespace World

variable {w w' : World} {i : InstanceId} {g : InstanceId → Wiring} {home : BindingId → QueueId}

/-- What an instance of a class shows, and where. -/
structure Displays (w : World) (x : Instance) (c : Class) (view : View) (g : Wiring)
    (home : BindingId → QueueId) : Prop where
  wired : view.Wired c.descriptor g
  serves : g.Serves c.descriptor.uses
  shows : w.screen.Shows g (x.textIn c)
  home : ∀ b f, (b, f) ∈ g.formats → home b = c.queue

/-- Every live view shows what its instance holds, and what has changed waits in the queue of the class. -/
structure Presents (w : World) (g : InstanceId → Wiring) (home : BindingId → QueueId) : Prop where
  view : ∀ i x, w.inst? i = some x → ∃ c view, w.class? x.classId = some c ∧ x.view = some view ∧
    w.Displays x c view (g i) home
  known : ∀ i place, (g i).Has place → (w.inst? i).isSome = true
  apart : ∀ i j place, (g i).Has place → (g j).Has place → i = j
  queued : w.screen.Queued home
  classQueue : ∀ id c, w.class? id = some c → (w.screen.waiting? c.queue).isSome = true
  spaceQueue : ∀ n ns, w.space? n = some ns → (w.screen.waiting? ns.queue).isSome = true

/-! ## Changes that leave texts alone -/

theorem Displays.congr {x x' : Instance} {c : Class} {view : View} {g : Wiring}
    (h : w.Displays x c view g home) (hr : w.screen.Retains w'.screen)
    (htext : x'.textIn c = x.textIn c) : w'.Displays x' c view g home where
  wired := h.wired
  serves := h.serves
  shows := htext ▸ h.shows.retains hr
  home := h.home

/-- What a world presents it still presents when no text has changed. -/
theorem Presents.keep (h : w.Presents g home) (hg : w.Grows w')
    (hinst : ∀ i x', w'.inst? i = some x' → ∃ x, w.inst? i = some x ∧ x'.classId = x.classId ∧
      x'.view = x.view ∧ ∀ c, w.class? x.classId = some c → x'.textIn c = x.textIn c)
    (hr : w.screen.Retains w'.screen) (hqueued : w'.screen.Queued home)
    (hclass : ∀ id c, w'.class? id = some c → (w'.screen.waiting? c.queue).isSome = true)
    (hspace : ∀ n ns, w'.space? n = some ns → (w'.screen.waiting? ns.queue).isSome = true) :
    w'.Presents g home where
  view i x' hx' := by
    obtain ⟨x, hx, hid, hview, htext⟩ := hinst i x' hx'
    obtain ⟨c, view, hc, hv, hdisplays⟩ := h.view i x hx
    exact ⟨c, view, hid ▸ hg.cls _ c hc, hview.trans hv, hdisplays.congr hr (htext c hc)⟩
  known i place hp := by
    obtain ⟨x, hx⟩ := Option.isSome_iff_exists.1 (h.known i place hp)
    obtain ⟨x', hx', -⟩ := hg.inst i x hx
    rw [hx']
    rfl
  apart := h.apart
  queued := hqueued
  classQueue := hclass
  spaceQueue := hspace

/-- A change of records that leaves all texts alone, with a screen that has grown. -/
theorem Presents.grow (h : w.Presents g home) (hg : w.Grows w')
    (hinst : ∀ i x', w'.inst? i = some x' → ∃ x, w.inst? i = some x ∧ x'.classId = x.classId ∧
      x'.view = x.view ∧ ∀ c, w.class? x.classId = some c → x'.textIn c = x.textIn c)
    (he : w.screen.Extends w'.screen)
    (hclass : ∀ id c, w'.class? id = some c → w.class? id = some c ∨
      (w'.screen.waiting? c.queue).isSome = true)
    (hspace : ∀ n ns, w'.space? n = some ns → (∃ ns', w.space? n = some ns' ∧ ns'.queue = ns.queue) ∨
      (w'.screen.waiting? ns.queue).isSome = true) : w'.Presents g home := by
  refine h.keep hg hinst he.retains (h.queued.extend he fun _ _ => rfl) (fun id c hc => ?_) fun n ns hns => ?_
  · exact (hclass id c hc).elim (fun hold => he.isSome_waiting? (h.classQueue id c hold)) fun hnew => hnew
  · rcases hspace n ns hns with ⟨ns', hns', hq⟩ | hnew
    · exact he.isSome_waiting? (hq ▸ h.spaceQueue n ns' hns')
    · exact hnew

/-! ## Rendering a value and storing it -/

/-- A value is rendered in all places of its source and stored. -/
theorem Presents.render (h : w.Presents g home) {x : Instance} {c : Class} {view : View}
    (hx : w.inst? i = some x) (hc : w.class? x.classId = some c) (hview : x.view = some view)
    {source : Source} {places : NodeSet} (hplaces : ∀ place, place ∈ places ↔ (g i).Lists source place)
    {new : String} {f : Instance → Instance} (hf : ∀ y, (f y).classId = y.classId ∧ (f y).view = y.view)
    (htext : (f x).textIn c = Function.update (x.textIn c) source new)
    (hclasses : w'.classes = w.classes) (hspaces : w'.spaces = w.spaces)
    (hinst : w'.instances = (w.modifyInstance i f).instances)
    (he : (w.screen.render c.queue places source new).Extends w'.screen) : w'.Presents g home := by
  have hclass (id : ClassId) : w'.class? id = w.class? id := by
    unfold class?
    rw [hclasses]
  have hlook (j : InstanceId) : w'.inst? j = (w.modifyInstance i f).inst? j := by
    unfold inst?
    rw [hinst]
  have hself : w'.inst? i = some (f x) := by
    rw [hlook, inst?_modifyInstance_self, hx]
    rfl
  have hother {j : InstanceId} (hj : i ≠ j) : w'.inst? j = w.inst? j := by
    rw [hlook, inst?_modifyInstance_of_ne _ _ hj]
  have hsome {q : QueueId} (hq : (w.screen.waiting? q).isSome = true) :
      (w'.screen.waiting? q).isSome = true := by
    refine he.isSome_waiting? ?_
    rw [Screen.isSome_waiting?_render]
    exact hq
  obtain ⟨c', view', hc', hview', hdisplays⟩ := h.view i x hx
  obtain rfl := Option.some.inj (hc.symm.trans hc')
  obtain rfl := Option.some.inj (hview.symm.trans hview')
  have hplace {place : BoundNode} (hp : place ∈ places) : (g i).Has place := ((hplaces place).1 hp).has
  refine ⟨fun j y hy => ?_, fun j place hp => ?_, h.apart, ?_, fun id c hc => ?_, fun n ns hns => ?_⟩
  · by_cases hj : i = j
    · subst hj
      obtain rfl := Option.some.inj (hself.symm.trans hy)
      refine ⟨c, view, ?_, (hf x).2.trans hview, hdisplays.wired, hdisplays.serves, ?_, hdisplays.home⟩
      · rw [hclass, (hf x).1]
        exact hc
      · rw [htext]
        exact (hdisplays.shows.render hdisplays.serves c.queue hplaces new).retains he.retains
    · -- the places are none of another view
      rw [hother hj] at hy
      obtain ⟨d, v, hd, hv, hdis⟩ := h.view j y hy
      refine ⟨d, v, (hclass _).trans hd, hv, hdis.wired, hdis.serves, ?_, hdis.home⟩
      refine (hdis.shows.render_apart c.queue (fun place hp hhas => ?_) source new).retains he.retains
      exact hj (h.apart i j place (hplace hp) hhas)
  · by_cases hj : i = j
    · subst hj
      rw [hself]
      rfl
    · rw [hother hj]
      exact h.known j place hp
  · refine (h.queued.render (h.classQueue _ c hc) places (fun b hb => ?_) source new).extend he fun _ _ => rfl
    obtain ⟨f, hf, -⟩ := (hplaces _).1 hb
    exact hdisplays.home b f hf
  · exact hsome (h.classQueue id c ((hclass id).symm.trans hc))
  · refine hsome (h.spaceQueue n ns ?_)
    unfold space? at hns ⊢
    rw [← hspaces]
    exact hns

section Store

variable {x : Instance} {c : Class} {n : Nat} {v : Value}

/-- The text of a property follows the value that is stored. -/
theorem textIn_setValue (hd : c.descriptor.Valid) {p : PropertyDescriptor}
    (hp : c.descriptor.properties[n]? = some p) (hlt : n < x.values.length) :
    Instance.textIn { x with values := x.values.set n v } c =
      Function.update (x.textIn c) (.property p.name) v.outputText := by
  funext σ
  by_cases hσ : σ = .property p.name
  · subst hσ
    rw [Function.update_self]
    unfold Instance.textIn
    dsimp only
    rw [hd.propertyIndex?_name hp, Option.bind_some, List.getElem?_set_self hlt]
    rfl
  · rw [Function.update_of_ne hσ]
    unfold Instance.textIn
    cases σ with
    | attr name => rfl
    | property name =>
      dsimp only
      cases hm : c.descriptor.propertyIndex? name with
      | none => rfl
      | some m =>
        have hnm : n ≠ m := by
          rintro rfl
          obtain ⟨p', hp', rfl⟩ := Descriptor.propertyIndex?_some hm
          exact hσ (congrArg _ (congrArg _ (Option.some.inj (hp'.symm.trans hp))))
        rw [Option.bind_some, Option.bind_some, List.getElem?_set_ne hnm]

theorem textIn_setAttr (hd : c.descriptor.WellFormed) {a : AttributeDescriptor}
    (ha : c.descriptor.attributes[n]? = some a) (hlt : n < x.attrValues.length) :
    Instance.textIn { x with attrValues := x.attrValues.set n v } c =
      Function.update (x.textIn c) (.attr a.name) v.outputText := by
  funext σ
  by_cases hσ : σ = .attr a.name
  · subst hσ
    rw [Function.update_self]
    unfold Instance.textIn
    dsimp only
    rw [hd.attributeIndex?_name ha, Option.bind_some, List.getElem?_set_self hlt]
    rfl
  · rw [Function.update_of_ne hσ]
    unfold Instance.textIn
    cases σ with
    | property name => rfl
    | attr name =>
      dsimp only
      cases hm : c.descriptor.attributeIndex? name with
      | none => rfl
      | some m =>
        have hnm : n ≠ m := by
          rintro rfl
          obtain ⟨a', ha', rfl⟩ := Descriptor.attributeIndex?_some hm
          exact hσ (congrArg _ (congrArg _ (Option.some.inj (ha'.symm.trans ha))))
        rw [Option.bind_some, Option.bind_some, List.getElem?_set_ne hnm]

/-- A child has no text, nor has its absence. -/
theorem textIn_setChild (hd : c.descriptor.Valid) {p : PropertyDescriptor}
    (hp : c.descriptor.properties[n]? = some p) {old : Value} (hold : x.values[n]? = some old)
    (hempty : old.outputText = "") (hv : v.outputText = "") :
    Instance.textIn { x with values := x.values.set n v } c = x.textIn c := by
  rw [textIn_setValue hd hp (List.getElem?_eq_some_iff.1 hold).1, hv, ← hempty]
  refine Function.update_eq_self_iff.2 ?_
  unfold Instance.textIn
  dsimp only
  rw [hd.propertyIndex?_name hp, Option.bind_some, hold]
  rfl

end Store

/-! ## Making an instance -/

/-- An instance that has just been made holds no text. -/
theorem textIn_fresh {x : Instance} {c : Class} {sites : List Site} (hv : x.values = sites.map placeholder)
    (ha : x.attrValues = c.descriptor.attributes.map fun _ => .null) : x.textIn c = fun _ => "" := by
  have hempty (s : Site) : (placeholder s).outputText = "" := by cases s <;> rfl
  funext σ
  unfold Instance.textIn
  cases σ with
  | property name =>
    dsimp only
    cases c.descriptor.propertyIndex? name with
    | none => rfl
    | some n =>
      rw [Option.bind_some, hv, List.getElem?_map]
      cases sites[n]? with
      | none => rfl
      | some s => exact hempty s
  | attr name =>
    dsimp only
    cases c.descriptor.attributeIndex? name with
    | none => rfl
    | some n =>
      rw [Option.bind_some, ha, List.getElem?_map]
      cases c.descriptor.attributes[n]? <;> rfl

/-- A place that is wired is there. -/
theorem Presents.exists_place (h : w.Presents g home) {place : BoundNode} (hp : (g i).Has place) :
    match place with
    | .text t => t.index < w.screen.forest.size
    | .attr b => (w.screen.binding? b).isSome = true := by
  obtain ⟨x, hx⟩ := Option.isSome_iff_exists.1 (h.known i place hp)
  obtain ⟨c, view, -, -, hdisplays⟩ := h.view i x hx
  cases place with
  | text t =>
    obtain ⟨⟨t', σ⟩, ht, rfl⟩ := List.mem_map.1 hp
    obtain ⟨node, hnode, -⟩ := Option.map_eq_some_iff.1 (hdisplays.shows.texts t' σ ht)
    exact (Array.getElem?_eq_some_iff.1 hnode).1
  | attr b =>
    obtain ⟨⟨b', f⟩, hf, rfl⟩ := List.mem_map.1 hp
    obtain ⟨y, hy, -⟩ := hdisplays.shows.formats b' f hf
    dsimp only
    rw [hy]
    rfl

/-- A new instance shows empty texts, in places of its own. -/
theorem Presents.create (h : w.Presents g home) {id : ClassId} {c : Class} (hc : w.class? id = some c)
    (hcreate : w.createInstance id c.descriptor = .ok (i, w')) {x : Instance} {view : View} {new : Wiring}
    (hx : w'.inst? i = some x) (hview : x.view = some view) (hbuilds : w.Builds w' c.descriptor view new) :
    w'.Presents (Function.update g i new) fun b =>
      if (w.screen.binding? b).isSome then home b else c.queue := by
  obtain ⟨-, view', b, b', hjoins⟩ := createInstance_joins hcreate
  obtain ⟨attrs, hself⟩ := hjoins.self
  have hattrs := attrValues_createInstance hcreate hself
  obtain rfl := Option.some.inj (hself.symm.trans hx)
  obtain rfl := Option.some.inj hview
  have hclass (id' : ClassId) : w'.class? id' = w.class? id' := hjoins.class? id'
  have hold {j : InstanceId} {place : BoundNode} (hp : (g j).Has place) (hnew : new.Has place) : False := by
    have hthere := h.exists_place hp
    have habsent := hbuilds.new place hnew
    cases place with
    | text t => exact absurd hthere (Nat.not_lt.2 habsent)
    | attr b =>
      dsimp only at hthere habsent
      rw [habsent] at hthere
      cases hthere
  refine ⟨fun j y hy => ?_, fun j place hp => ?_, fun j k place hj hk => ?_, ?_, fun id' d hd => ?_, fun n ns hns => ?_⟩
  · by_cases hj : j = i
    · subst hj
      obtain rfl := Option.some.inj (hself.symm.trans hy)
      rw [Function.update_self]
      refine ⟨c, view', (hclass id).trans hc, rfl, hbuilds.wired, hbuilds.serves, ?_, fun b f hf => ?_⟩
      · rw [textIn_fresh rfl hattrs]
        exact hbuilds.shows
      · have hnone : w.screen.binding? b = none :=
          hbuilds.new (.attr b) (List.mem_map_of_mem (f := (·.1)) hf)
        rw [hnone]
        rfl
    · rw [hjoins.other j hj] at hy
      rw [Function.update_of_ne hj]
      obtain ⟨d, v, hd, hv, hdis⟩ := h.view j y hy
      refine ⟨d, v, (hclass _).trans hd, hv, hdis.wired, hdis.serves, hdis.shows.retains hbuilds.grows.retains,
        fun b f hf => ?_⟩
      have hsome : (w.screen.binding? b).isSome = true :=
        h.exists_place (i := j) (List.mem_map_of_mem (f := (·.1)) hf : (g j).Has (.attr b))
      rw [if_pos hsome]
      exact hdis.home b f hf
  · by_cases hj : j = i
    · rw [hj, hself]
      rfl
    · rw [Function.update_of_ne hj] at hp
      rw [hjoins.other j hj]
      exact h.known j place hp
  · by_cases hji : j = i <;> by_cases hki : k = i
    · rw [hji, hki]
    · rw [hji, Function.update_self] at hj
      rw [Function.update_of_ne hki] at hk
      exact (hold hk hj).elim
    · rw [Function.update_of_ne hji] at hj
      rw [hki, Function.update_self] at hk
      exact (hold hj hk).elim
    · rw [Function.update_of_ne hji] at hj
      rw [Function.update_of_ne hki] at hk
      exact h.apart j k place hj hk
  · exact h.queued.extend hbuilds.grows fun b hb => if_pos hb
  · exact hbuilds.grows.isSome_waiting? (h.classQueue id' d ((hclass id').symm.trans hd))
  · refine hbuilds.grows.isSome_waiting? (h.spaceQueue n ns ?_)
    unfold space? at hns ⊢
    rw [← hjoins.spaces]
    exact hns

theorem Presents.exists_create (h : w.Presents g home) (hw : w.Sound) {id : ClassId} {c : Class}
    (hc : w.class? id = some c) (hcreate : w.createInstance id c.descriptor = .ok (i, w')) :
    ∃ g' home', w'.Presents g' home' := by
  obtain ⟨-, _, _, _, hjoins⟩ := createInstance_joins hcreate
  obtain ⟨attrs, hself⟩ := hjoins.self
  obtain ⟨view, new, hview, hbuilds⟩ := exists_builds_createInstance (hw.compiled.parsed hc) hcreate hself
  exact ⟨_, _, h.create hc hcreate hself hview hbuilds⟩

/-! ## Elementary changes -/

/-- Elementary changes keep what a world presents, unless an instance is made. -/
theorem Step.presents (hstep : w.Step w') (hw : w.Sound) (h : w.Presents g home) :
    w'.Presents g home ∨ ∃ id c i, w.class? id = some c ∧ w.createInstance id c.descriptor = .ok (i, w') := by
  have hgrows := hstep.grows
  have hsame {i : InstanceId} {x' : Instance} (hx' : w.inst? i = some x') : ∃ x, w.inst? i = some x ∧
      x'.classId = x.classId ∧ x'.view = x.view ∧
        ∀ c, w.class? x.classId = some c → x'.textIn c = x.textIn c :=
    ⟨x', hx', rfl, rfl, fun _ _ => rfl⟩
  have hqueue {n : NamespaceId} {ns : Namespace} (hns : w.space? n = some ns) :
      ∃ ns', w.space? n = some ns' ∧ ns'.queue = ns.queue := ⟨ns, hns, rfl⟩
  -- one instance is changed, whose text stays
  have hmodify {i : InstanceId} {f : Instance → Instance} (hf : ∀ x, (f x).classId = x.classId ∧ (f x).view = x.view)
      (htext : ∀ x c, w.inst? i = some x → w.class? x.classId = some c → (f x).textIn c = x.textIn c) :
      (w.modifyInstance i f).Presents g home := by
    refine h.grow (.modifyInstance w i f hf) (fun j x' hx' => ?_) .rfl (fun _ _ hc => Or.inl hc)
      fun _ _ hns => Or.inl (hqueue hns)
    by_cases hij : i = j
    · subst hij
      rw [inst?_modifyInstance_self] at hx'
      obtain ⟨x, hx, rfl⟩ := Option.map_eq_some_iff.1 hx'
      exact ⟨x, hx, (hf x).1, (hf x).2, fun c hc => htext x c hx hc⟩
    · rw [inst?_modifyInstance_of_ne _ _ hij] at hx'
      exact hsame hx'
  have hforest {f : Forest} (hf : w.forest.Recast f) : (w.mapForest fun _ => f).Presents g home :=
    h.grow (.of_same rfl rfl rfl) (fun i x' hx' => hsame hx') (.of_recast hf rfl rfl) (fun _ _ hc => Or.inl hc)
      fun _ _ hns => Or.inl (hqueue hns)
  cases hstep with
  | quiet screen classes instances collections spaces =>
    refine Or.inl (h.grow hgrows (fun i x' hx' => hsame ?_) ?_ (fun id c hc => Or.inl ?_)
      fun n ns hns => Or.inl (hqueue ?_))
    · unfold inst? at hx' ⊢
      rwa [instances] at hx'
    · rw [screen]
      exact .rfl
    · unfold class? at hc ⊢
      rwa [classes] at hc
    · unfold space? at hns ⊢
      rwa [spaces] at hns
  | moves f hf => exact Or.inl (hforest hf.recast)
  | mark hr hm a ha => exact Or.inl (hforest (.setAttr _ _ _ _))
  | space n f hf =>
    refine Or.inl (h.grow hgrows (fun i x' hx' => hsame hx') .rfl (fun _ _ hc => Or.inl hc) fun m ns hns => ?_)
    left
    unfold space? modifySpace at hns
    by_cases hm : n.index = m.index
    · rw [hm, Table.get?_modify_self] at hns
      obtain ⟨old, hold, rfl⟩ := Option.map_eq_some_iff.1 hns
      exact ⟨old, hold, (hf old).symm⟩
    · rw [Table.get?_modify_of_ne _ _ _ _ hm] at hns
      exact hqueue hns
  | addSpace delay ns hq =>
    obtain ⟨hextends, hnew⟩ := w.screen.extends_addQueue delay
    refine Or.inl (h.grow hgrows (fun i x' hx' => hsame hx') hextends (fun _ _ hc => Or.inl hc)
      fun m ns' hns => ?_)
    rcases Table.get?_push_eq_some hns with rfl | hns
    · right
      rw [hq]
      exact hnew
    · exact Or.inl (hqueue hns)
  | addClass c hc hq =>
    refine Or.inl (h.grow hgrows (fun i x' hx' => hsame hx') .rfl (fun id d hd => ?_)
      fun _ _ hns => Or.inl (hqueue hns))
    rcases Table.get?_push_eq_some hd with rfl | hd
    · obtain ⟨n, ns, hns, heq⟩ := hq
      right
      rw [heq]
      exact h.spaceQueue n ns hns
    · exact Or.inl hd
  | record i f hf =>
    refine Or.inl (hmodify (fun x => ⟨(hf x).1, (hf x).2.1⟩) fun x c _ _ => ?_)
    obtain ⟨-, -, hvalues, hattrs, -⟩ := hf x
    unfold Instance.textIn
    rw [hvalues, hattrs]
  | finish i hi hroot => exact Or.inl (hmodify (fun _ => ⟨rfl, rfl⟩) fun _ _ _ _ => rfl)
  | contents k f hf hitems =>
    exact Or.inl (h.grow hgrows (fun i x' hx' => hsame hx') .rfl (fun _ _ hc => Or.inl hc)
      fun _ _ hns => Or.inl (hqueue hns))
  | create hc hcreate => exact Or.inr ⟨_, _, _, hc, hcreate⟩
  | @write i x c view n p types v hx hc hview hp hkind hv =>
    obtain ⟨c', view', hc', hview', hdisplays⟩ := h.view i x hx
    obtain rfl := Option.some.inj (hc.symm.trans hc')
    obtain rfl := Option.some.inj (hview.symm.trans hview')
    obtain ⟨places, hsite, hplaces⟩ := hdisplays.wired.properties n p hp (by rw [hkind]; rfl)
    obtain ⟨old, hold, -⟩ := getElem?_of_forall₂ (hw.fills hx hc).values hp
    rw [hsite]
    refine Or.inl (h.render hx hc hview hplaces (f := fun x => { x with values := x.values.set n v })
      (fun _ => ⟨rfl, rfl⟩) ?_ rfl rfl rfl .rfl)
    exact textIn_setValue (hw.compiled.parsed hc).spec.1 hp (List.getElem?_eq_some_iff.1 hold).1
  | @slot i x c n p element v hx hc hp hkind hv =>
    refine Or.inl (hmodify (fun _ => ⟨rfl, rfl⟩) fun x' c' hx' hc' => ?_)
    obtain rfl := Option.some.inj (hx.symm.trans hx')
    obtain rfl := Option.some.inj (hc.symm.trans hc')
    obtain ⟨old, hold, hsuits⟩ := getElem?_of_forall₂ (hw.fills hx hc).values hp
    refine textIn_setChild (hw.compiled.parsed hc).spec.1 hp hold ?_ ?_
    · cases hsuits with
      | primitive hk _ =>
        rw [hkind] at hk
        cases hk
      | empty _ => rfl
      | child _ _ => rfl
      | sequence _ _ _ _ _ => rfl
    · rcases hv with rfl | ⟨j, rfl, -⟩ <;> rfl
  | @attr i x c view n a v hx hc hview ha hv =>
    obtain ⟨c', view', hc', hview', hdisplays⟩ := h.view i x hx
    obtain rfl := Option.some.inj (hc.symm.trans hc')
    obtain rfl := Option.some.inj (hview.symm.trans hview')
    obtain ⟨places, hnodes, hplaces⟩ := hdisplays.wired.attributes n a ha
    obtain ⟨old, hold, -⟩ := getElem?_of_forall₂ (hw.fills hx hc).attrs ha
    rw [hnodes]
    refine Or.inl (h.render hx hc hview hplaces (f := fun x => { x with attrValues := x.attrValues.set n v })
      (fun _ => ⟨rfl, rfl⟩) ?_ rfl rfl rfl (.of_recast (.setAttr _ _ _ _) rfl rfl))
    exact textIn_setAttr (hw.compiled.parsed hc).spec.2.1 ha (List.getElem?_eq_some_iff.1 hold).1
  | flush q =>
    have hsome {q' : QueueId} (hq : (w.screen.waiting? q').isSome = true) :
        ((w.screen.flush q).2.waiting? q').isSome = true := by
      have hf := w.screen.flushed_flush q
      by_cases heq : q' = q
      · subst heq
        rw [hf.empty, Option.isSome_map]
        exact hq
      · rw [hf.apart q' heq]
        exact hq
    exact Or.inl (h.keep hgrows (fun i x' hx' => hsame hx') (w.screen.retains_flush q) (h.queued.flush q)
      (fun id c hc => hsome (h.classQueue id c hc)) fun n ns hns => hsome (h.spaceQueue n ns hns))

end World

end ReactiveView
