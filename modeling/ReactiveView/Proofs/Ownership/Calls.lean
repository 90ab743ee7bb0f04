import ReactiveView.Proofs.Ownership.Construct
import ReactiveView.Proofs.Ownership.Lists

/-!
# Calls of a program

A program knows the instances that it keeps hold of and the collections of instances in use. It constructs,
writes, edits, attaches and detaches these, takes hold of further instances that it comes across, and lets
go (`World.Permits`, `World.Acts`). Among plain classes, and as long as nobody listens, every such call
leaves a world at rest from a world at rest (`World.Acts.atRest`): the world is orderly, and everything in
use is held.
-/

set_option autoImplicit false

namespace ReactiveView

open Run

namespace World

variable {w w' : World} {T i : InstanceId} {H : List InstanceId}

/-- Between two calls: the world is orderly, and everything in use is held. -/
structure AtRest (w : World) : Prop where
  orderly : w.Orderly
  settled : w.Settled

theorem Calm.atRest (h : w.Calm w') (hw : w.AtRest) : w'.AtRest :=
  ⟨h.orderly hw.orderly, h.settled hw.settled⟩

/-- In a world at rest every instance in use can be tended. -/
theorem AtRest.ready (hw : w.AtRest) (hT : w.isAlive T = true) : ∃ c, w.Ready T c w.handles := by
  obtain ⟨x, hx⟩ : ∃ x, w.inst? T = some x := by
    unfold isAlive at hT
    cases hx : w.inst? T with
    | none => rw [hx] at hT; cases hT
    | some x => exact ⟨x, rfl⟩
  obtain ⟨c, view, hf⟩ := hw.orderly.inst T x hx
  refine ⟨c, hw.orderly, List.Subset.refl _, hw.settled.safe hT, ?_⟩
  unfold classOf?
  rw [hx, Option.bind_some, hf.cls]

/-- Letting go of one thing. -/
theorem AtRest.unpin (hw : w.AtRest) (h : Held) : (Run.unpin h w).2.AtRest := by
  have hw' : ({ w with pins := w.pins.erase h } : World).Orderly := by
    refine hw.orderly.rehold (g := w.registry) fun j hj => hw.orderly.handled j ?_
    rcases List.mem_append.1 hj with hj | hj
    · obtain ⟨p, hp, hpj⟩ := List.mem_filterMap.1 hj
      exact List.mem_append_left _ (List.mem_filterMap.2 ⟨p, List.mem_of_mem_erase hp, hpj⟩)
    · exact List.mem_append_right _ hj
  exact ⟨hw'.settle.1, hw'.anchored_settle⟩

/-- Taking hold of something in use is harmless. -/
theorem Orderly.hold (hw : w.Orderly) {h : Held} (halive : ∀ j, h = .inst j → w.isAlive j = true) :
    ({ w with pins := h :: w.pins } : World).Orderly := by
  refine hw.rehold (g := w.registry) fun j hj => ?_
  rcases List.mem_append.1 hj with hj | hj
  · obtain ⟨p, hp, hpj⟩ := List.mem_filterMap.1 hj
    rcases List.mem_cons.1 hp with rfl | hp
    · refine halive j ?_
      cases p with
      | inst i => exact congrArg Held.inst (Option.some.inj hpj)
      | _ => cases hpj
    · exact hw.handled j (List.mem_append_left _ (List.mem_filterMap.2 ⟨p, hp, hpj⟩))
  · exact hw.handled j (List.mem_append_right _ hj)

theorem AtRest.hold (hw : w.AtRest) {h : Held} (halive : ∀ j, h = .inst j → w.isAlive j = true) :
    ({ w with pins := h :: w.pins } : World).AtRest := by
  have hr := respects_rehold hw.settled (List.subset_cons_self h w.pins)
  exact ⟨hw.orderly.hold halive, hr.anchored hw.settled⟩

end World

namespace Run

open World

variable {α : Type} {cb : Callbacks} {w : World} {T i : InstanceId} {c : Class} {H : List InstanceId}
  {k : CollectionId} {x : Collection}

theorem Closing.atRest {m : Run α} (h : Closing T c H m w) (hw : w.Ready T c H) (hs : w.Settled) :
    (m w).2.AtRest :=
  ⟨(h.tends hw).1, h.settled hw hs⟩

/-! ## Attaching and detaching -/

theorem closing_push (hw : w.Ready T c H) (hx : w.coll? k = some x) (howner : x.owner = T) {v : Value}
    (hcoerce : Coerces cb x.element [v] w) : Closing T c H (push cb k v) w := by
  refine .bind_same (sizeOf_apply k w) ?_
  refine (closing_splice hw hx howner hcoerce _ 0).bind fun _ w' _ _ => ?_
  exact .of_same rfl (unranged_ok _)

theorem closing_attach (hcb : cb.Mild) (hi : i ∈ H) (name : String) :
    Closing T c H (attach cb i T name) w := by
  have hinst : (Value.inst i).instances ⊆ H := fun j hj => List.mem_singleton.1 hj ▸ hi
  refine .of_ready fun hw => .property fun n p hp hname => ?_
  subst hname
  rw [hp]
  refine .bind_same (ofOption_some _ w) ?_
  cases hk : p.kind with
  | primitive types => exact .of_same rfl (unranged_failed fun h => by cases h)
  | slot element =>
    refine .bind_same (get_apply w) ?_
    dsimp only
    split
    · exact .of_same rfl (unranged_failed fun h => by cases h)
    · exact closing_setProperty hcb p.name hinst
  | sequence element =>
    obtain ⟨y, view, k, x, hy, -, -, hval, hx, howner, -⟩ := exists_collection hw hp hk
    obtain ⟨z, -, hz, hc, -⟩ := hw.exists_record
    obtain rfl := Option.some.inj (hy.symm.trans hz)
    have hget : getProperty T p.name w = (.ok (.coll k), w) := by
      have hindex : propertyIndex T p.name w = (.ok n, w) := by
        unfold propertyIndex
        rw [bind_of_ok (theClassOf_of hy hc), hw.valid.descriptor.propertyIndex?_name hp]
        rfl
      unfold getProperty
      rw [bind_of_ok hindex, bind_of_ok (theInstance_of hy), hval, ofOption_some]
    refine .bind_same hget ?_
    have hitems : Value.instancesOfItems [.inst i] ⊆ w.handles := fun j hj => by
      obtain rfl := List.mem_singleton.1 hj
      exact hw.handles hi
    refine (closing_push hw hx howner (coerces_of_handles hcb hw.orderly hitems)).bind fun _ w' _ _ => ?_
    exact .of_same rfl (unranged_ok ())

/-- Taking hold of something in use tends every instance. -/
theorem tending_pin {h : Held} (halive : ∀ j, h = .inst j → w.isAlive j = true) :
    Tending T c H (pin h) w := by
  refine ⟨Harmless.tends fun hw _ => ?_, fun _ => unranged_ok ()⟩
  exact ⟨hw.hold halive, fun K hK => respects_rehold hK (List.subset_cons_self h w.pins)⟩

/-- A scope whose body yields something comes to rest. -/
theorem Yields.atRest_inScope {m : Run α} {P : α → World → Prop} (h : Yields m w P) :
    (inScope m w).2.AtRest :=
  ⟨(h.keeping (Q := fun _ _ => True) (fun _ _ _ _ i hi => by cases hi) fun _ _ _ _ _ _ => trivial).orderly,
    settled_keeping h fun _ _ _ i hi => by cases hi⟩

theorem atRest_detach (hcb : cb.Mild) (hw : w.AtRest) (i : InstanceId) : (detach cb i w).2.AtRest := by
  unfold detach
  cases hatt : w.attachment? i with
  | none =>
    refine Yields.atRest_inScope (P := fun _ _ => True)
      (.of_error (e := .failed (.notInUse (w.className i))) hw.orderly ?_ (unranged_failed ?_))
    · rw [bind_of_ok (get_apply w), hatt]
      rfl
    · exact fun h => by cases h
  | some a =>
    have hplace : w.placeOf? i = some a.place := by
      unfold placeOf?
      rw [hatt]
      rfl
    obtain ⟨P, m, hspot, hP⟩ := Layout.Linked.live_owner hw.orderly.linked i a.place
      ((Layout.Linked.place_iff hw.orderly.linked i a.place).1 hplace)
    obtain ⟨c, hready⟩ := hw.ready hP
    refine (Closing.inScope (T := P) (c := c) (H := w.handles) ?_).atRest hready hw.settled
    refine .bind_same (get_apply w) ?_
    rw [hatt]
    dsimp only
    cases hpl : a.place with
    | sequence k =>
      rw [hpl] at hspot
      obtain ⟨x, hx, hxP⟩ := Option.map_eq_some_iff.1 hspot
      obtain rfl : x.owner = P := congrArg Prod.fst hxP
      have halive : w.isAliveColl k = true := by
        unfold isAliveColl
        rw [hx]
        exact hw.orderly.collAlive k x hx hP
      refine .bind_same (get_apply w) ?_
      rw [halive]
      refine (tending_pin fun j hj => by cases hj).bind fun _ w' hpin hw' => ?_
      obtain ⟨-, rfl⟩ := Prod.mk.inj hpin
      refine .bind_same (get_apply _) ?_
      split
      · exact .fail fun h => by cases h
      · exact (closing_splice hw' hx rfl (coerces_nil hw'.orderly) _ 1).toTending.bind fun _ _ _ _ => .pure ()
    | slot owner property =>
      rw [hpl] at hspot
      obtain ⟨marker, -, hmarker⟩ := Option.map_eq_some_iff.1 hspot
      obtain rfl : owner = P := congrArg Prod.fst hmarker
      refine .bind_same (get_apply w) ?_
      rw [hP]
      refine (tending_pin fun j hj => by cases hj; exact hP).bind fun _ w' _ _ => ?_
      exact (closing_setProperty hcb property (List.nil_subset _)).toTending

theorem atRest_constructInstance (hcb : cb.Mild) (hw : w.AtRest) {id : ClassId} {init : Option Value}
    (hinit : ∀ v ∈ init, v.instances ⊆ w.handles) : (constructInstance cb id init w).2.AtRest :=
  ⟨(yields_constructInstance hcb hw.orderly hinit).orderly,
    settled_constructInstance hcb hw.orderly hinit⟩

/-- Attributes belong neither to places nor to uses. -/
theorem keeps_calm_setAttributes (i : InstanceId) (values : Dict String Value) :
    Keeps World.Calm (setAttributes i values) := by
  refine Keeps.bind (Keeps.forM (fun e => ?_) _) fun _ => Keeps.forM (fun e => ?_) _
  · exact (keeps_attributeIndex i e.1).bind fun _ => keeps_pure _
  · exact keeps_calm_setAttribute i e.1 e.2

end Run

namespace World

variable {w w' w₀ : World} {op : Operation}

/-! ## What a program may do -/

/-- The operations that a program may carry out: it writes and edits what is in use, and the values that it
passes refer to instances that it holds. -/
inductive Permits (w : World) : Operation → Prop where
  | construct {id : ClassId} {init : Option Value} :
      (∀ v ∈ init, v.instances ⊆ w.handles) → Permits w (.construct id init)
  | set {i : InstanceId} {name : String} {v : Value} :
      w.isAlive i = true → v.instances ⊆ w.handles → Permits w (.set i name v)
  | assign {i : InstanceId} {v : Value} :
      w.isAlive i = true → v.instances ⊆ w.handles → Permits w (.assign i v)
  | setAttribute (i : InstanceId) (name : String) (v : Value) : Permits w (.setAttribute i name v)
  | setAttributes (i : InstanceId) (values : Dict String Value) : Permits w (.setAttributes i values)
  | recompute {i : InstanceId} {name : String} : w.isAlive i = true → Permits w (.recompute i name)
  | edit {k : CollectionId} {x : Collection} {e : ListEdit} : w.coll? k = some x →
      w.isAlive x.owner = true → Value.instancesOfItems e.values ⊆ w.handles → Permits w (e.operation k)
  | attach {i parent : InstanceId} {name : String} :
      i ∈ w.handles → w.isAlive parent = true → Permits w (.attach i parent name)
  | detach (i : InstanceId) : Permits w (.detach i)
  | flush (q : QueueId) : Permits w (.flush q)
  | poll (q : QueueId) (delta : Int) : Permits w (.poll q delta)
  | drop (h : Held) : Permits w (.drop h)

/-- A permitted operation leaves a world at rest. -/
theorem Permits.atRest {cb : Callbacks} (hcb : cb.Mild) (h : w.Permits op) (hw : w.AtRest) :
    (op.run cb w).2.AtRest := by
  cases h with
  | construct hinit =>
    unfold Operation.run
    rw [discard_apply]
    exact atRest_constructInstance hcb hw hinit
  | @set i name v hi hv =>
    obtain ⟨c, hready⟩ := hw.ready hi
    exact (closing_setProperty hcb name hv).atRest hready hw.settled
  | assign hi hv =>
    obtain ⟨c, hready⟩ := hw.ready hi
    exact (closing_assign hcb hv).atRest hready hw.settled
  | setAttribute i name v => exact (keeps_calm_setAttribute i name v w).atRest hw
  | setAttributes i values => exact (keeps_calm_setAttributes i values w).atRest hw
  | @recompute i name hi =>
    obtain ⟨c, hready⟩ := hw.ready hi
    exact (closing_recomputeBinding name).atRest hready hw.settled
  | @edit k x e hx hP hv =>
    obtain ⟨c, hready⟩ := hw.ready hP
    obtain ⟨hready', hsettled⟩ := ListEdit.closes hready hx hcb e hv hw.settled
    exact ⟨hready'.orderly, hsettled⟩
  | @attach i parent name hi hP =>
    obtain ⟨c, hready⟩ := hw.ready hP
    exact (closing_attach hcb hi name).atRest hready hw.settled
  | detach i => exact atRest_detach hcb hw i
  | flush q =>
    unfold Operation.run
    rw [discard_apply]
    exact (keeps_calm_flushQueue q w).atRest hw
  | poll q delta =>
    unfold Operation.run
    rw [discard_apply, change_apply]
    rcases w.screen.pollAfterDeadline_eq q delta with h | h
    · rw [h]
      exact hw
    · rw [h]
      exact (keeps_calm_flushQueue q w).atRest hw
  | drop h => exact hw.unpin h

/-- One act of a program: a permitted operation, with calls nested as deeply as they may be, or taking hold
of something in use. -/
inductive Acts (w : World) : World → Prop where
  | does (depth : Nat) {op : Operation} :
      w.Permits op → Acts w (op.run (Callbacks.ofDepth depth) w).2
  | holds {h : Held} : (∀ j, h = .inst j → w.isAlive j = true) → Acts w { w with pins := h :: w.pins }

theorem Acts.atRest (h : w.Acts w') (hw : w.AtRest) : w'.AtRest := by
  cases h with
  | does depth hop => exact hop.atRest (Callbacks.mild_ofDepth depth) hw
  | holds halive => exact hw.hold halive

/-- Acts are elementary changes, one after the other. -/
theorem Acts.proceedsBy {S : World → World → Prop} [IsStepping S] (h : w.Acts w') : ProceedsBy S w w' := by
  cases h with
  | does depth _ => exact Operation.proceeds_run (Callbacks.steadyBy_ofDepth depth) _ w
  | holds _ => exact Step.proceedsBy (S := S) (.quiet rfl rfl rfl rfl rfl) (fastens_of_instances rfl)

/-- Plain classes have been compiled, and nothing has been made from them yet. -/
structure Idle (w : World) : Prop extends Fresh w where
  plain : PlainClasses w.classes
  tidy : w.forest.Tidy
  unheld : w.handles = []
  noObjects : ∀ n ns, w.space? n = some ns → ns.objects = []

namespace Idle

variable (h : w.Idle)

include h

theorem inst? (i : InstanceId) : w.inst? i = none := by
  unfold World.inst?
  rw [h.instances]
  rfl

theorem coll? (k : CollectionId) : w.coll? k = none := by
  unfold World.coll?
  rw [h.collections]
  rfl

theorem isAlive (i : InstanceId) : w.isAlive i = false := by
  unfold World.isAlive
  rw [h.inst? i]

theorem root (i : InstanceId) : w.layout.root i = none := by
  change w.rootOf? i = none
  unfold rootOf?
  rw [h.inst? i]
  rfl

theorem spot (pl : Place) : w.layout.spot pl = none := by
  cases pl with
  | sequence k =>
    change (w.coll? k).map _ = none
    rw [h.coll? k]
    rfl
  | slot P name =>
    change (w.slotMarker? P name).map _ = none
    unfold slotMarker?
    rw [h.inst? P]
    rfl

theorem occupants (pl : Place) : w.occupants pl = [] := by
  cases pl with
  | sequence k =>
    change w.itemsOf k = []
    unfold itemsOf
    rw [h.coll? k]
  | slot P name =>
    change (if w.isAlive P then _ else []) = []
    rw [h.isAlive P]
    rfl

theorem placeOf? (i : InstanceId) : w.placeOf? i = none := by
  unfold World.placeOf? attachment?
  rw [h.inst? i]
  rfl

theorem built : w.Built where
  compiled := h.compiled
  plain := h.plain
  inst P _ hx := nomatch (h.inst? P).symm.trans hx
  coll k _ hx := nomatch (h.coll? k).symm.trans hx
  collAlive k _ hx := nomatch (h.coll? k).symm.trans hx
  accepted k _ _ hx := nomatch (h.coll? k).symm.trans hx
  noObjects := h.noObjects

theorem linked : w.Linked w.occupants where
  tidy := h.tidy
  sound := {
    root_lt := fun i _ hr => nomatch (h.root i).symm.trans hr
    marker_lt := fun pl _ _ hspot => nomatch (h.spot pl).symm.trans hspot
    root_inj := fun i _ _ hr => nomatch (h.root i).symm.trans hr
    marker_inj := fun pl _ _ _ _ hspot => nomatch (h.spot pl).symm.trans hspot
    marker_not_root := fun pl _ _ hspot => nomatch (h.spot pl).symm.trans hspot }
  rooted i hi := nomatch (h.isAlive i).symm.trans hi
  place_iff i pl := by
    rw [h.placeOf? i, h.occupants pl]
    exact ⟨nofun, nofun⟩
  nodup pl := by
    rw [h.occupants pl]
    exact List.nodup_nil
  live_item i pl hi := by
    rw [h.occupants pl] at hi
    cases hi
  live_owner i pl hi := by
    rw [h.occupants pl] at hi
    cases hi
  within pl _ _ _ hspot := nomatch (h.spot pl).symm.trans hspot
  row pl _ _ _ hspot := nomatch (h.spot pl).symm.trans hspot
  listed i _ _ hr := nomatch (h.root i).symm.trans hr

theorem atRest : w.AtRest where
  orderly := {
    toBuilt := h.built
    linked := h.linked
    handled := fun i hi => by rw [h.unheld] at hi; cases hi }
  settled i hi := nomatch (h.isAlive i).symm.trans hi

end Idle

/-- Whatever a program does after a fresh start, it leaves a world at rest. -/
theorem Idle.atRest_of_acts (h : w₀.Idle) (hacts : Relation.ReflTransGen Acts w₀ w) : w.AtRest := by
  induction hacts with
  | refl => exact h.atRest
  | tail _ hact ih => exact hact.atRest ih

theorem Idle.stepsBy_of_acts {S : World → World → Prop} [IsStepping S] (h : w₀.Idle)
    (hacts : Relation.ReflTransGen Acts w₀ w) : StepsBy S w₀ w := by
  have hsound := h.toFresh.sound
  induction hacts with
  | refl => exact .refl
  | tail _ hact ih => exact ih.trans (hact.proceedsBy (StepsBy.sound ih hsound))

theorem Idle.steps_of_acts (h : w₀.Idle) (hacts : Relation.ReflTransGen Acts w₀ w) : w₀.Steps w :=
  h.stepsBy_of_acts hacts

end World

end ReactiveView
