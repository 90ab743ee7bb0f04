import ReactiveView.Proofs.Binding.Announcements
import ReactiveView.Proofs.Slots.Replacing
import ReactiveView.Proofs.View.Deferral

/-!
# What a write of a primitive property touches

A write of a primitive property that nobody listens to repaints the places where the written property and the
bound properties downstream of it are shown, and stores their values. This module says that this is all.

`Screen.Repaints` relates two screens that differ in some places only: texts of text nodes, parts and flags of
formatted attributes, and one queue, into which some of these attributes have come. No node is made, linked or
taken out of use, and no attribute of an element is set. `World.Repaints` adds the records: one instance has other
values, and everything else is what it was. Both are kept by one place after the other (`Screen.repaints_render`)
and by one property after the other (`Run.repaints_forM`).

`World.touches_of_reaches` is the statement for every world that is reached: the places are those of the
instance that is written, and of no other one.
-/

set_option autoImplicit false

namespace ReactiveView

/-! ## Screens -/

namespace Screen

variable {s s' s'' : Screen} {q : QueueId} {P P' : BoundNode → Prop}

/-- Some places have been painted anew, and their formatted attributes have been marked for a queue. -/
structure Repaints (s s' : Screen) (q : QueueId) (P : BoundNode → Prop) : Prop where
  links : s.forest.SameLinks s'.forest
  clock : s'.clock = s.clock
  /-- The text of a text node may be another one. -/
  kind? : ∀ n, s'.forest.kind? n = s.forest.kind? n ∨
    P (.text n) ∧ ∃ old new, s.forest.kind? n = some (.text old) ∧ s'.forest.kind? n = some (.text new)
  kept : ∀ b, ¬ P (.attr b) → s'.binding? b = s.binding? b
  /-- A formatted attribute may have other parts, and waits. -/
  filled : ∀ b, P (.attr b) → ∃ parts,
    s'.binding? b = (s.binding? b).map fun x => { x with parts := parts, pending := true }
  apart : ∀ q', q' ≠ q → s'.queue? q' = s.queue? q'
  /-- Attributes come last in the queue, and the deadline moves if there are any to be marked. -/
  joins : s'.queue? q = s.queue? q ∨ (∃ b, P (.attr b)) ∧ ∃ y added, s.queue? q = some y ∧
    (∀ b ∈ added, P (.attr b)) ∧
    s'.queue? q = some { y with pending := y.pending ++ added, deadline := some (s.clock + y.delay) }

namespace Repaints

theorem rfl : s.Repaints s q fun _ => False where
  links := .rfl
  clock := .refl _
  kind? _ := Or.inl (.refl _)
  kept _ _ := .refl _
  filled _ h := h.elim
  apart _ _ := .refl _
  joins := Or.inl (.refl _)

theorem trans (h : s.Repaints s' q P) (h' : s'.Repaints s'' q P') :
    s.Repaints s'' q fun place => P place ∨ P' place where
  links := h.links.trans h'.links
  clock := h'.clock.trans h.clock
  kind? n := by
    rcases h.kind? n with heq | ⟨hp, old, new, hold, hnew⟩
    · rcases h'.kind? n with heq' | ⟨hp', old', new', hold', hnew'⟩
      · exact Or.inl (heq'.trans heq)
      · exact Or.inr ⟨Or.inr hp', old', new', heq ▸ hold', hnew'⟩
    · rcases h'.kind? n with heq' | ⟨-, -, new', -, hnew'⟩
      · exact Or.inr ⟨Or.inl hp, old, new, hold, heq'.trans hnew⟩
      · exact Or.inr ⟨Or.inl hp, old, new', hold, hnew'⟩
  kept b hb := by
    obtain ⟨hp, hp'⟩ := not_or.1 hb
    exact (h'.kept b hp').trans (h.kept b hp)
  filled b hb := by
    by_cases hp' : P' (.attr b)
    · obtain ⟨parts', hparts'⟩ := h'.filled b hp'
      refine ⟨parts', ?_⟩
      by_cases hp : P (.attr b)
      · obtain ⟨parts, hparts⟩ := h.filled b hp
        rw [hparts', hparts, Option.map_map]
        exact .refl _
      · rw [hparts', h.kept b hp]
    · obtain ⟨parts, hparts⟩ := h.filled b (hb.resolve_right hp')
      exact ⟨parts, (h'.kept b hp').trans hparts⟩
  apart q' hq := (h'.apart q' hq).trans (h.apart q' hq)
  joins := by
    rcases h.joins with heq | ⟨⟨b, hb⟩, y, added, hy, hadded, hy'⟩
    · rcases h'.joins with heq' | ⟨⟨b, hb⟩, y, added, hy, hadded, hy'⟩
      · exact Or.inl (heq'.trans heq)
      · refine Or.inr ⟨⟨b, Or.inr hb⟩, y, added, heq ▸ hy, fun b hb => Or.inr (hadded b hb), ?_⟩
        rw [← h.clock]
        exact hy'
    · rcases h'.joins with heq' | ⟨-, z, added', hz, hadded', hz'⟩
      · exact Or.inr ⟨⟨b, Or.inl hb⟩, y, added, hy, fun b hb => Or.inl (hadded b hb), heq'.trans hy'⟩
      · obtain rfl := Option.some.inj (hy'.symm.trans hz)
        refine Or.inr ⟨⟨b, Or.inl hb⟩, y, added ++ added', hy, fun b hb => ?_, ?_⟩
        · exact (List.mem_append.1 hb).imp (hadded b) (hadded' b)
        · rw [hz', h.clock, List.append_assoc]

end Repaints

/-- A mark moves the deadline of the queue, and the attribute comes in unless it waits already. -/
theorem exists_queue?_mark (s : Screen) (q : QueueId) (b : BindingId) : ∃ added : List BindingId,
    (∀ b' ∈ added, b' = b) ∧ (s.mark q b).queue? q = (s.queue? q).map fun y =>
      { y with pending := y.pending ++ added, deadline := some (s.clock + y.delay) } := by
  cases hx : s.binding? b with
  | none =>
    refine ⟨[], fun b' hb' => absurd hb' List.not_mem_nil, ?_⟩
    unfold mark
    rw [hx, queue?_modifyQueue_self]
    simp
  | some x =>
    rw [queue?_mark hx]
    cases x.pending with
    | true => exact ⟨[], fun b' hb' => absurd hb' List.not_mem_nil, by simp⟩
    | false => exact ⟨[b], fun b' hb' => List.mem_singleton.1 hb', by simp⟩

theorem queue?_mark_of_ne (s : Screen) (b : BindingId) {q' : QueueId} (h : q' ≠ q) :
    (s.mark q b).queue? q' = s.queue? q' := by
  unfold mark
  dsimp only
  rw [queue?_modifyQueue_of_ne _ _ h]
  split <;> split
  · rfl
  · exact queue?_modifyQueue_of_ne _ _ h
  · rfl
  · exact queue?_modifyQueue_of_ne _ _ h

theorem clock_mark (s : Screen) (q : QueueId) (b : BindingId) : (s.mark q b).clock = s.clock := by
  unfold mark
  dsimp only
  split <;> split <;> rfl

/-- One place is painted. -/
theorem repaints_renderAt (s : Screen) (q : QueueId) (source : Source) (text : String) (place : BoundNode) :
    s.Repaints (s.renderAt q source text place) q (· = place) := by
  cases place with
  | text n =>
    refine ⟨Forest.sameLinks_setText _ _ _, rfl, fun m => ?_, fun _ _ => rfl, fun b hb => (nomatch hb), fun _ _ => rfl,
      Or.inl rfl⟩
    have hkind : (s.renderAt q source text (.text n)).forest.kind? m =
        if m = n then (s.forest.kind? m).map (NodeKind.withText text) else s.forest.kind? m :=
      Forest.kind?_setText s.forest n text m
    rw [hkind]
    split
    · next hmn =>
      cases hk : s.forest.kind? m with
      | none => exact Or.inl rfl
      | some k =>
        cases k with
        | text old => exact Or.inr ⟨congrArg _ hmn, old, text, rfl, rfl⟩
        | fragment | element _ _ _ | comment _ => exact Or.inl rfl
    · exact Or.inl rfl
  | attr b =>
    have hm := marked_renderAt s q source text b
    have hqueue (q' : QueueId) : (s.modifyBinding b fun x => x.fill source text).queue? q' = s.queue? q' := rfl
    refine ⟨sameLinks_renderAt s q source text _, clock_mark _ q b, fun n => Or.inl ?_, fun b' hb' => ?_,
      fun b' hb' => ?_, fun q' hq' => queue?_mark_of_ne _ b hq', ?_⟩
    · rw [hm.forest]
    · exact hm.other b' fun h => hb' (congrArg _ h)
    · obtain rfl := BoundNode.attr.inj hb'
      rw [hm.self]
      cases s.binding? b' with
      | none => exact ⟨[], rfl⟩
      | some x => exact ⟨(x.fill source text).parts, rfl⟩
    · obtain ⟨added, hadded, heq⟩ := exists_queue?_mark (s.modifyBinding b fun x => x.fill source text) q b
      rw [hqueue] at heq
      cases hy : s.queue? q with
      | none =>
        rw [hy] at heq
        exact Or.inl heq
      | some y =>
        rw [hy] at heq
        exact Or.inr ⟨⟨b, rfl⟩, y, added, rfl, fun b' hb' => congrArg _ (hadded b' hb'), heq⟩

/-- All places of a node set are painted, one after the other. -/
theorem repaints_render (s : Screen) (q : QueueId) (places : NodeSet) (source : Source) (text : String) :
    s.Repaints (s.render q places source text) q (· ∈ places) := by
  induction places generalizing s with
  | nil =>
    simp only [List.not_mem_nil]
    exact .rfl
  | cons place rest ih =>
    simp only [List.mem_cons]
    exact (s.repaints_renderAt q source text place).trans (ih _)

end Screen

/-! ## Worlds -/

/-- A place where one of some properties is shown. -/
def Wiring.ListsAny (g : Wiring) (names : List String) (place : BoundNode) : Prop :=
  ∃ m ∈ names, g.Lists (.property m) place

theorem Wiring.listsAny_cons (g : Wiring) (m : String) (ms : List String) :
    g.ListsAny (m :: ms) = fun place => g.Lists (.property m) place ∨ g.ListsAny ms place := by
  funext place
  simp [ListsAny]

namespace World

variable {w w' w'' w₀ : World} {i : InstanceId} {x : Instance} {c : Class} {view : View} {g : Wiring}
  {q : QueueId} {vals vals' : List Value} {P P' : BoundNode → Prop}

/-- An instance has been given other values, and some places have been painted anew. Nothing else is different:
no record of another instance, of a class, a collection or a namespace, and nothing else of this instance. -/
structure Repaints (w w' : World) (i : InstanceId) (q : QueueId) (x : Instance) (vals : List Value)
    (P : BoundNode → Prop) : Prop where
  screen : w.screen.Repaints w'.screen q P
  self : w'.inst? i = some { x with values := vals }
  others : ∀ j, j ≠ i → w'.inst? j = w.inst? j
  classes : w'.classes = w.classes
  collections : w'.collections = w.collections
  spaces : w'.spaces = w.spaces
  registry : w'.registry = w.registry
  pins : w'.pins = w.pins
  log : w'.log = w.log

theorem Repaints.rfl (hx : w.inst? i = some x) : w.Repaints w i q x x.values fun _ => False :=
  ⟨.rfl, hx, fun _ _ => .refl _, .refl _, .refl _, .refl _, .refl _, .refl _, .refl _⟩

theorem Repaints.trans (h : w.Repaints w' i q x vals P)
    (h' : w'.Repaints w'' i q { x with values := vals } vals' P') :
    w.Repaints w'' i q x vals' fun place => P place ∨ P' place where
  screen := h.screen.trans h'.screen
  self := h'.self
  others j hj := (h'.others j hj).trans (h.others j hj)
  classes := h'.classes.trans h.classes
  collections := h'.collections.trans h.collections
  spaces := h'.spaces.trans h.spaces
  registry := h'.registry.trans h.registry
  pins := h'.pins.trans h.pins
  log := h'.log.trans h.log

/-- A value is painted in the places of its source and stored. -/
theorem repaints_storeValue (hx : w.inst? i = some x) (c : Class) (places : NodeSet) (source : Source)
    (text : String) (n : Nat) (v : Value) :
    w.Repaints ((w.renderIn c places source text).storeValue i n v) i c.queue x (x.values.set n v)
      (· ∈ places) where
  screen := w.screen.repaints_render c.queue places source text
  self := by
    have hfound : (w.renderIn c places source text).inst? i = some x := hx
    unfold storeValue
    rw [inst?_modifyInstance_self, hfound, Option.map_some]
  others j hj := inst?_modifyInstance_of_ne _ _ hj.symm
  classes := .refl _
  collections := .refl _
  spaces := .refl _
  registry := .refl _
  pins := .refl _
  log := .refl _

/-- An instance with a view along a wiring, whose values nobody listens to. -/
structure Untold (w : World) (i : InstanceId) (c : Class) (x : Instance) (view : View) (g : Wiring) : Prop where
  found : w.inst? i = some x
  ofClass : w.class? x.classId = some c
  hasView : x.view = some view
  wired : view.Wired c.descriptor g
  untold : x.valueListeners = []
  length : x.values.length = c.descriptor.properties.length

theorem Untold.repaints (h : w.Untold i c x view g) (hr : w.Repaints w' i q x vals P)
    (hlen : vals.length = x.values.length) : w'.Untold i c { x with values := vals } view g where
  found := hr.self
  ofClass := by
    unfold class?
    rw [hr.classes]
    exact h.ofClass
  hasView := h.hasView
  wired := h.wired
  untold := h.untold
  length := hlen.trans h.length

theorem Untold.contains (h : w.Untold i c x view g) : w.Contains i c x := contains_of_inst? h.found h.ofClass

end World

/-! ## The steps of a write -/

namespace Run

open World

variable {w : World} {i : InstanceId} {x : Instance} {c : Class} {view : View} {g : Wiring} {n : Nat}
  {p : PropertyDescriptor} (cb : Callbacks)

/-- Without listeners a write paints the value and stores it. -/
theorem repaints_writePrimitive (h : w.Untold i c x view g) (hc : c.Valid)
    (hp : c.descriptor.properties[n]? = some p) (hprim : p.kind.isPrimitive = true) (v : Value) :
    ∃ w', writePrimitive cb i n p.name v w = (.ok (), w') ∧
      w.Repaints w' i c.queue x (c.put x.values p.name v) (g.Lists (.property p.name)) := by
  obtain ⟨places, hsite, hplaces⟩ := h.wired.properties n p hp hprim
  have hlt : n < x.values.length := h.length ▸ (List.getElem?_eq_some_iff.1 hp).1
  have hput : c.put x.values p.name v = x.values.set n v := by
    unfold Class.put
    rw [hc.descriptor.propertyIndex?_name hp]
  have hlists : g.Lists (.property p.name) = (· ∈ places) := funext fun place => propext (hplaces place).symm
  have hr := repaints_storeValue h.found c places (.property p.name) v.outputText n v
  rw [hput, hlists]
  refine ⟨_, ?_, hr⟩
  have hpainted : (w.renderIn c places (.property p.name) v.outputText).inst? i = some x := h.found
  unfold writePrimitive
  rw [bind_of_ok h.contains.theClassOf, bind_of_ok (theView_of h.found h.hasView), hsite]
  dsimp only
  rw [bind_of_ok (update_apply _ _), bind_of_ok (theInstance_of hpainted), List.getElem?_eq_getElem hlt,
    bind_of_ok (ofOption_some _ _), bind_of_ok (update_apply _ _)]
  -- nobody is told
  have hnobody : (x.mutationListeners.get? EventClass.propertyChange).getD [] = [] := h.untold
  unfold announce
  rw [bind_of_ok (theInstance_of hr.self)]
  dsimp only
  rw [hnobody]
  rfl

/-- Recomputing a bound property paints its new text. -/
theorem repaints_writeBinding (h : w.Untold i c x view g) (hc : c.Valid) {name : String}
    (hname : name ∈ c.graph.order) :
    ∃ w', writeBinding cb i name w = (.ok (), w') ∧
      w.Repaints w' i c.queue x (c.recomputed x.values name) (g.Lists (.property name)) := by
  obtain ⟨f, hf⟩ := hc.bindingOf?_of_mem_order hname
  obtain ⟨p, hpm, hbound, rfl⟩ := (hc.mem_order name).1 hname
  obtain ⟨n, hp⟩ := List.getElem?_of_mem hpm
  have hrec : c.recomputed x.values p.name = c.put x.values p.name (.text (f.render (c.textIn x.values))) := by
    unfold Class.recomputed
    rw [hf]
  rw [hrec]
  have hwrite := repaints_writePrimitive cb h hc hp (hc.descriptor.bound_primitive p hpm hbound)
    (.text (f.render (c.textIn x.values)))
  unfold writeBinding
  rw [bind_of_ok (h.contains.propertyIndex (hc.descriptor.propertyIndex?_name hp)), bind_of_ok h.contains.theClassOf]
  unfold Class.bindingOf? at hf
  rw [hf]
  dsimp only
  rw [bind_of_ok (ask_apply _ w), h.contains.textOfSource]
  exact hwrite

/-! ## The run -/

/-- Bound properties are recomputed one after the other, and their places painted. -/
theorem repaints_forM (h : w.Untold i c x view g) (hc : c.Valid) {names : List String}
    (hnames : ∀ m ∈ names, m ∈ c.graph.order) :
    ∃ w', names.forM (writeBinding cb i) w = (.ok (), w') ∧
      w.Repaints w' i c.queue x (names.foldl c.recomputed x.values) (g.ListsAny names) := by
  induction names generalizing w x with
  | nil =>
    have hnone : g.ListsAny [] = fun _ => False := by
      funext place
      simp [Wiring.ListsAny]
    rw [hnone]
    exact ⟨w, rfl, .rfl h.found⟩
  | cons m ms ih =>
    obtain ⟨w₁, hfirst, hr₁⟩ := repaints_writeBinding cb h hc (hnames m List.mem_cons_self)
    obtain ⟨w₂, hrest, hr₂⟩ := ih (h.repaints hr₁ (Class.length_recomputed _ _))
      fun k hk => hnames k (List.mem_cons_of_mem _ hk)
    refine ⟨w₂, ?_, ?_⟩
    · rw [forM_cons, bind_of_ok hfirst]
      exact hrest
    · rw [Wiring.listsAny_cons]
      exact hr₁.trans hr₂

/-- A write of a primitive property paints the places of the property and of all that is downstream of it. -/
theorem repaints_setProperty (h : w.Untold i c x view g) (hc : c.Valid)
    (hp : c.descriptor.properties[n]? = some p) {types : Option (List PrimitiveType)}
    (hkind : p.kind = .primitive types) {v : Value} (hv : checkPrimitive p.name types v = .ok ()) :
    ∃ w', setProperty cb i p.name v w = (.ok (), w') ∧
      w.Repaints w' i c.queue x (c.written x.values p.name v)
        (g.ListsAny (p.name :: c.affected p.name)) := by
  obtain ⟨w₁, hfirst, hr₁⟩ := repaints_writePrimitive cb h hc hp (by rw [hkind]; rfl) v
  have h₁ := h.repaints hr₁ (Class.length_put _ _ _)
  obtain ⟨w₂, hrest, hr₂⟩ := repaints_forM cb h₁ hc
    fun m hm => Graph.mem_order_of_mem_downstream _ _ _ _ hm
  refine ⟨w₂, ?_, ?_⟩
  · rw [setProperty_of_check h.contains (hc.descriptor.propertyIndex?_name hp) hp hkind hv hfirst h₁.contains]
    exact hrest
  · rw [Wiring.listsAny_cons]
    exact hr₁.trans hr₂

/-- A value that the check refuses changes nothing. -/
theorem setProperty_of_refused (h : w.Untold i c x view g) (hc : c.Valid)
    (hp : c.descriptor.properties[n]? = some p) {types : Option (List PrimitiveType)}
    (hkind : p.kind = .primitive types) {v : Value} {e : Error} (hv : checkPrimitive p.name types v = .error e) :
    setProperty cb i p.name v w = (.error (.failed e), w) := by
  unfold setProperty
  rw [bind_of_ok (h.contains.propertyIndex (hc.descriptor.propertyIndex?_name hp)), bind_of_ok h.contains.theClassOf,
    hp, bind_of_ok (ofOption_some _ _), hkind]
  exact setPrimitive_of_error cb hv w

end Run

/-! ## Worlds that are reached -/

/-- A property is another one, or bound to it, directly or through others. -/
def Descriptor.DependsOn (d : Descriptor) (m name : String) : Prop :=
  Relation.ReflTransGen (Graph.Through d.properties) m name

theorem Class.Valid.mem_cons_affected_iff {c : Class} (hc : c.Valid) {name m : String} :
    m ∈ name :: c.affected name ↔ c.descriptor.DependsOn m name := by
  rw [List.mem_cons, hc.mem_affected_iff, Descriptor.DependsOn, Relation.reflTransGen_iff_eq_or_transGen, eq_comm]

namespace World

variable {w w' w₀ : World} {i : InstanceId} {x : Instance} {c : Class}

/-- All that a write of a primitive property touches: the places where the instance shows the property and what
follows from it, and the values of these properties. -/
structure Touches (w w' : World) (i : InstanceId) (x : Instance) (c : Class) (g : Wiring) (name : String)
    (vals : List Value) : Prop extends
    Repaints w w' i c.queue x vals fun place => ∃ m, c.descriptor.DependsOn m name ∧ g.Lists (.property m) place where
  length : vals.length = x.values.length
  spares : ∀ (k : Nat) p, c.descriptor.properties[k]? = some p → ¬ c.descriptor.DependsOn p.name name →
    vals[k]? = x.values[k]?

/-- What is known of an instance of a world that presents its instances. -/
theorem Presents.untold (hw : w.Sound) {g : InstanceId → Wiring} {home : BindingId → QueueId} (h : w.Presents g home)
    (hx : w.inst? i = some x) (hc : w.class? x.classId = some c) (hlisteners : x.valueListeners = []) :
    ∃ view, w.Untold i c x view (g i) := by
  obtain ⟨c', view, hshown⟩ := h.viewConsistent hx
  obtain rfl := Option.some.inj (hc.symm.trans hshown.ofClass)
  obtain ⟨c', hc', hfills⟩ := hw.inst i x hx
  obtain rfl := Option.some.inj (hc.symm.trans hc')
  exact ⟨view, hx, hc, hshown.hasView, hshown.wired, hlisteners, hfills.values.length_eq.symm⟩

/-- A write that passes the check stores the value and what follows from it, and touches nothing else. -/
theorem Untold.touches {view : View} {g : Wiring} (h : w.Untold i c x view g) (hc : c.Valid) {n : Nat}
    {p : PropertyDescriptor} (hp : c.descriptor.properties[n]? = some p) {types : Option (List PrimitiveType)}
    (hkind : p.kind = .primitive types) {v : Value} (hv : checkPrimitive p.name types v = .ok ()) (cb : Callbacks) :
    ∃ w', Run.setProperty cb i p.name v w = (.ok (), w') ∧
      w.Touches w' i x c g p.name (c.written x.values p.name v) := by
  obtain ⟨w', hrun, hr⟩ := Run.repaints_setProperty cb h hc hp hkind hv
  have hplaces : g.ListsAny (p.name :: c.affected p.name) =
      fun place => ∃ m, c.descriptor.DependsOn m p.name ∧ g.Lists (.property m) place := by
    funext place
    simp only [Wiring.ListsAny, hc.mem_cons_affected_iff]
  rw [hplaces] at hr
  refine ⟨w', hrun, hr, Class.length_written _ _ _, fun k q hq hdepends => ?_⟩
  rw [← hc.mem_cons_affected_iff] at hdepends
  obtain ⟨hne, hm⟩ := not_or.1 (mt List.mem_cons.2 hdepends)
  have hkept : c.valueIn (c.written x.values p.name v) q.name = c.valueIn x.values q.name :=
    Class.Valid.valueIn_written_of_not_mem hne hm
  unfold Class.valueIn at hkept
  rw [hc.descriptor.propertyIndex?_name hq] at hkept
  exact hkept

/-- Whatever has been done after a fresh start, and whatever else is there: each instance shows its values in
places that no other instance has. A write of a primitive property of an instance whose values nobody listens to
is refused and changes nothing, or ends well. Then it has touched the places where this instance shows the
property and the bound properties downstream of it, and the values of these properties, and nothing else. -/
theorem touches_of_reaches (h₀ : w₀.Unused) (hreach : w₀.Reaches w) (hx : w.inst? i = some x)
    (hc : w.class? x.classId = some c) (hlisteners : x.valueListeners = []) {n : Nat} {p : PropertyDescriptor}
    {types : Option (List PrimitiveType)} (hp : c.descriptor.properties[n]? = some p)
    (hkind : p.kind = .primitive types) (v : Value) (cb : Callbacks) :
    ∃ g : InstanceId → Wiring,
      (∀ j y, w.inst? j = some y → ∃ d view, w.ViewConsistent j y d view (g j)) ∧
      (∀ j k place, (g j).Has place → (g k).Has place → j = k) ∧
      ((∃ e, checkPrimitive p.name types v = .error e ∧
          Run.setProperty cb i p.name v w = (.error (.failed e), w)) ∨
        checkPrimitive p.name types v = .ok () ∧
          ∃ w' vals, Run.setProperty cb i p.name v w = (.ok (), w') ∧ w.Touches w' i x c (g i) p.name vals) := by
  have hw := hreach.sound h₀.sound
  have hvalid := hw.compiled.valid hc
  obtain ⟨g, home, hpresents⟩ := Steps.presents (hreach.steps h₀.sound) h₀.sound h₀.presents
  obtain ⟨view, huntold⟩ := hpresents.untold hw hx hc hlisteners
  refine ⟨g, fun j y hy => hpresents.viewConsistent hy, hpresents.apart, ?_⟩
  cases hv : checkPrimitive p.name types v with
  | error e => exact Or.inl ⟨e, rfl, Run.setProperty_of_refused cb huntold hvalid hp hkind hv⟩
  | ok u =>
    obtain ⟨w', hrun, htouches⟩ := huntold.touches hvalid hp hkind hv cb
    exact Or.inr ⟨rfl, w', _, hrun, htouches⟩

/-! ### Two badges -/

/-- A world with classes that write into its one queue has not been used. -/
theorem unused_ofShelf {s : Class.Shelf} (hs : Compiled s.classes)
    (hqueue : (s.classes.entries.all fun c => c.queue == ⟨0⟩) = true) : (ofShelf s).Unused where
  toFresh := ⟨hs, rfl, rfl⟩
  bindings := rfl
  idle q bs hbs := by
    have hnone : ({} : Screen).waiting? q = none := by
      unfold Screen.waiting? Screen.queue?
      simp [Table.get?]
    exact (Screen.extends_addQueue {} 16).1.empty q bs hbs hnone
  classQueue id c hc := by
    have hmem : c ∈ s.classes.entries := Array.mem_of_getElem? hc
    rw [eq_of_beq (Array.all_eq_true_iff_forall_mem.1 hqueue c hmem)]
    exact (Screen.extends_addQueue {} 16).2
  spaceQueue n ns hns := by cases hns

end World

/-- The template of a badge: two names, and a full name that is bound to both. -/
def badgeTemplate : Markup :=
  let declaration (attrs : List Attr) : Markup := .element (.html "ooml-property") attrs false []
  .element (.html "template") [⟨.plain "ooml-class", "Badge"⟩] false
    [declaration [⟨.plain "name", "first"⟩], declaration [⟨.plain "name", "last"⟩],
      declaration [⟨.plain "name", "full"⟩,
        ⟨.plain "binding", "\x7b\x7b this.first \x7d\x7d \x7b\x7b this.last \x7d\x7d"⟩],
      .element (.html "p") [⟨.plain "title", "\x7b\x7b this.full \x7d\x7d!"⟩] false
        [.text "\x7b\x7b this.first \x7d\x7d, \x7b\x7b this.last \x7d\x7d"]]

/-- The classes of a world that knows the badge. -/
def badgeShelf : Class.Shelf := ((Class.Shelf.add {} true [] badgeTemplate).toOption.map (·.2)).getD {}

/-- A world that knows the badge. -/
def badgeWorld : World := .ofShelf badgeShelf

/-- Two badges. -/
def badges : World :=
  let named (first last : String) : Option Value := some (.object [("first", .text first), ("last", .text last)])
  let w := (Run.constructInstance (Callbacks.ofDepth 2) ⟨0⟩ (named "Mary" "Shelley") badgeWorld).2
  (Run.constructInstance (Callbacks.ofDepth 2) ⟨0⟩ (named "Ada" "Byron") w).2

namespace World

theorem unused_badgeWorld : badgeWorld.Unused := by
  refine unused_ofShelf ?_ (by decide +kernel)
  unfold badgeShelf
  cases hadd : Class.Shelf.add {} true [] badgeTemplate with
  | error e => exact .empty
  | ok x => exact Class.Shelf.compiled_add .empty hadd

theorem reaches_badges : badgeWorld.Reaches badges := by
  refine (Relation.ReflTransGen.single ⟨2, .construct ⟨0⟩ _, (Run.discard_apply _ _).symm⟩).tail
    ⟨2, .construct ⟨0⟩ _, (Run.discard_apply _ _).symm⟩

/-- A primitive property without declared types that is not bound. -/
def isFree (p : PropertyDescriptor) : Bool :=
  match p.kind, p.binding with
  | .primitive none, none => true
  | _, _ => false

theorem of_isFree {p : PropertyDescriptor} (h : isFree p = true) : p.kind = .primitive none ∧ p.binding = none := by
  unfold isFree at h
  split at h
  · next hkind hbinding => exact ⟨hkind, hbinding⟩
  · cases h

/-- The first of the two badges: nobody listens to it, and its names are two free properties. -/
theorem exists_badge : ∃ x c p q, badges.inst? ⟨0⟩ = some x ∧ badges.class? x.classId = some c ∧
    x.valueListeners = [] ∧ c.descriptor.properties[0]? = some p ∧ c.descriptor.properties[1]? = some q ∧
    p.name = "first" ∧ q.name = "last" ∧ (p.kind = .primitive none ∧ p.binding = none) ∧
    q.kind = .primitive none ∧ q.binding = none := by
  have hall : ((badges.inst? ⟨0⟩).bind fun x => (badges.class? x.classId).bind fun c =>
      c.descriptor.properties[0]?.bind fun p => c.descriptor.properties[1]?.map fun q =>
        x.valueListeners.isEmpty && p.name == "first" && q.name == "last" && isFree p && isFree q) = some true := by
    decide +kernel
  obtain ⟨x, hx, hall⟩ := Option.bind_eq_some_iff.1 hall
  obtain ⟨c, hc, hall⟩ := Option.bind_eq_some_iff.1 hall
  obtain ⟨p, hp, hall⟩ := Option.bind_eq_some_iff.1 hall
  obtain ⟨q, hq, hall⟩ := Option.map_eq_some_iff.1 hall
  simp only [Bool.and_eq_true, beq_iff_eq, List.isEmpty_iff] at hall
  obtain ⟨⟨⟨⟨hlisteners, hfirst⟩, hlast⟩, hpfree⟩, hqfree⟩ := hall
  exact ⟨x, c, p, q, hx, hc, hlisteners, hp, hq, hfirst, hlast, of_isFree hpfree, of_isFree hqfree⟩

/-- The first name of one badge is written: its full name follows, and the other badge is left alone. -/
theorem touches_of_reaches_badges : ∃ x c g w' vals, badges.inst? ⟨0⟩ = some x ∧
    Run.setProperty (Callbacks.ofDepth 2) ⟨0⟩ "first" (.text "Percy") badges = (.ok (), w') ∧
    badges.Touches w' ⟨0⟩ x c g "first" vals ∧ x.values.map Value.outputText = ["Mary", "Shelley", "Mary Shelley"] ∧
    vals.map Value.outputText = ["Percy", "Shelley", "Percy Shelley"] ∧ w'.inst? ⟨1⟩ = badges.inst? ⟨1⟩ := by
  obtain ⟨x, c, p, q, hx, hc, hlisteners, hp, -, hname, -, ⟨hkind, -⟩, -⟩ := exists_badge
  obtain ⟨g, -, -, hends⟩ := touches_of_reaches unused_badgeWorld reaches_badges hx hc hlisteners hp hkind
    (.text "Percy") (Callbacks.ofDepth 2)
  rw [hname] at hends
  rcases hends with ⟨e, hrefused, -⟩ | ⟨-, w', vals, hrun, htouches⟩
  · cases hrefused
  · have hafter : ((Run.setProperty (Callbacks.ofDepth 2) ⟨0⟩ "first" (.text "Percy") badges).2.inst? ⟨0⟩).map
        (fun y => y.values.map Value.outputText) = some ["Percy", "Shelley", "Percy Shelley"] := by decide +kernel
    have hbefore : (badges.inst? ⟨0⟩).map (fun y => y.values.map Value.outputText) =
        some ["Mary", "Shelley", "Mary Shelley"] := by decide +kernel
    rw [hrun, htouches.self] at hafter
    rw [hx] at hbefore
    exact ⟨x, c, g ⟨0⟩, w', vals, hx, hrun, htouches, Option.some.inj hbefore, Option.some.inj hafter,
      htouches.others ⟨1⟩ (by decide)⟩

end World

end ReactiveView
