import ReactiveView.Proofs.Typing.Sound

/-!
# Kinds of elementary changes

A place is moored with the sink that its owner has kept for it since it was made (`World.Mooring`). A change *fastens*
if whoever it attaches is attached to such a sink (`World.Fastens`). An elementary change of a record need not do so, but
the changes that operations make all do. So elementary changes come in kinds, from all of them down to the ones that
fasten (`IsStepping`), and an operation proceeds by changes of whatever kind the code that it calls back proceeds by
(`World.ProceedsBy`).
-/

set_option autoImplicit false

namespace ReactiveView

open Relation

namespace World

variable {w w' w'' : World} {i : InstanceId} {a : Attachment}

/-! ## The moorings of places -/

/-- The marker and the sink that are kept for a place. -/
inductive Mooring (w : World) : Place → NodeId → Sink → Prop where
  | sequence {k : CollectionId} {y : Collection} : w.coll? k = some y → Mooring w (.sequence k) y.anchor y.sink
  | slot {P : InstanceId} {x : Instance} {c : Class} {name : String} {n : Nat} {view : View} {anchor : NodeId}
      {sink : Sink} : w.inst? P = some x → w.class? x.classId = some c →
      c.descriptor.propertyIndex? name = some n → x.view = some view → view.sites[n]? = some (.slot anchor sink) →
      Mooring w (.slot P name) anchor sink

theorem Mooring.grows {pl : Place} {anchor : NodeId} {sink : Sink} (h : w.Mooring pl anchor sink) (hg : w.Grows w') :
    w'.Mooring pl anchor sink := by
  cases h with
  | @sequence k y hy =>
    obtain ⟨y', hy', -, -, -, hanchor, hsink⟩ := hg.coll k y hy
    rw [← hanchor, ← hsink]
    exact .sequence hy'
  | slot hx hc hn hview hsite =>
    obtain ⟨x', hx', hid, hview'⟩ := hg.inst _ _ hx
    exact .slot hx' (hid ▸ hg.cls _ _ hc) hn (hview'.trans hview) hsite

/-- The sink of the attachment is the one that is kept for its place. -/
def Moors (w : World) (a : Attachment) : Prop := ∃ anchor, w.Mooring a.place anchor a.sink

theorem Moors.grows (h : w.Moors a) (hg : w.Grows w') : w'.Moors a := by
  obtain ⟨anchor, h⟩ := h
  exact ⟨anchor, h.grows hg⟩

/-! ## Changes that fasten -/

/-- What is not attached as before is attached to the sink that is kept for its place. -/
def Fastens (w w' : World) : Prop :=
  ∀ i a, w'.attachment? i = some a → w.attachment? i = some a ∨ w.Moors a

theorem attachment?_eq_some : w.attachment? i = some a ↔ ∃ x, w.inst? i = some x ∧ x.attachment = some a :=
  Option.bind_eq_some_iff

theorem fastens_of_instances (h : w'.instances = w.instances) : w.Fastens w' := fun i a ha => by
  unfold attachment? inst? at ha ⊢
  exact Or.inl (h ▸ ha)

theorem fastens_modifyInstance (hi : w'.instances = w.instances) (i : InstanceId) {f : Instance → Instance}
    (hf : ∀ x a, (f x).attachment = some a → x.attachment = some a ∨ w.Moors a) :
    w.Fastens (w'.modifyInstance i f) := fun j a ha => by
  have hinst (j : InstanceId) : w'.inst? j = w.inst? j := by
    unfold inst?
    rw [hi]
  obtain ⟨y, hy, ha⟩ := attachment?_eq_some.1 ha
  by_cases hij : i = j
  · subst hij
    rw [inst?_modifyInstance_self, hinst] at hy
    obtain ⟨x, hx, rfl⟩ := Option.map_eq_some_iff.1 hy
    exact (hf x a ha).imp_left fun ha => attachment?_eq_some.2 ⟨x, hx, ha⟩
  · rw [inst?_modifyInstance_of_ne _ _ hij, hinst] at hy
    exact Or.inl (attachment?_eq_some.2 ⟨y, hy, ha⟩)

/-- A new instance stands nowhere. -/
theorem fastens_createInstance {id : ClassId} {c : Class} (h : w.createInstance id c.descriptor = .ok (i, w')) :
    w.Fastens w' := fun j a ha => by
  obtain ⟨-, view, b, b', hjoins⟩ := createInstance_joins h
  obtain ⟨attrs, hself⟩ := hjoins.self
  obtain ⟨x, hx, ha⟩ := attachment?_eq_some.1 ha
  by_cases hj : j = i
  · subst hj
    obtain rfl := Option.some.inj (hx.symm.trans hself)
    cases ha
  · exact Or.inl (attachment?_eq_some.2 ⟨x, (hjoins.other j hj).symm.trans hx, ha⟩)

theorem fastens_storeValue (hi : w'.instances = w.instances) (i : InstanceId) (n : Nat) (v : Value) :
    w.Fastens (w'.storeValue i n v) :=
  fastens_modifyInstance hi i fun _ _ h => Or.inl h

theorem fastens_storeAttr (hi : w'.instances = w.instances) (i : InstanceId) (n : Nat) (v : Value) :
    w.Fastens (w'.storeAttr i n v) :=
  fastens_modifyInstance hi i fun _ _ h => Or.inl h

theorem instances_rendered (w : World) (c : Class) (site : Option Site) (source : Source) (text : String) :
    (w.rendered c site source text).instances = w.instances := by
  unfold rendered
  split <;> rfl

/-! ## Kinds -/

end World

/-- Elementary changes of a kind that takes in all that fasten. -/
class IsStepping (S : World → World → Prop) : Prop where
  step : ∀ {w w' : World}, S w w' → w.Step w'
  of_fastens : ∀ {w w' : World}, w.Step w' → w.Fastens w' → S w w'

instance : IsStepping World.Step where
  step h := h
  of_fastens h _ := h

namespace World

variable {w w' w'' : World} {S : World → World → Prop}

/-- An elementary change that fastens. -/
structure FastStep (w w' : World) : Prop where
  step : w.Step w'
  fastens : w.Fastens w'

instance : IsStepping FastStep where
  step h := h.step
  of_fastens h hf := ⟨h, hf⟩

/-- Any number of elementary changes of a kind. -/
abbrev StepsBy (S : World → World → Prop) : World → World → Prop := ReflTransGen S

/-- A sound world leads to another by elementary changes of a kind. -/
def ProceedsBy (S : World → World → Prop) (w w' : World) : Prop := w.Sound → StepsBy S w w'

section Stepping

variable [IsStepping S]

theorem StepsBy.steps (h : StepsBy S w w') : w.Steps w' := ReflTransGen.mono (fun _ _ => IsStepping.step) _ _ h

theorem StepsBy.grows (h : StepsBy S w w') : w.Grows w' := Steps.grows h.steps

theorem StepsBy.sound (h : StepsBy S w w') (hw : w.Sound) : w'.Sound := Steps.sound h.steps hw

instance : IsPreorder World (ProceedsBy S) where
  refl _ _ := .refl
  trans _ _ _ h h' hw := (h hw).trans (h' ((h hw).sound hw))

theorem Step.proceedsBy (h : w.Step w') (hf : w.Fastens w') : ProceedsBy S w w' := fun _ =>
  .single (IsStepping.of_fastens h hf)

/-- A change that leaves all instances belongs to every kind. -/
theorem Step.by_instances (h : w.Step w') (hi : w'.instances = w.instances) : S w w' :=
  IsStepping.of_fastens h (fastens_of_instances hi)

/-- A place is recorded with the sink that is kept for it. -/
theorem proceedsBy_setAttachment {a : Attachment} (h : w.Moors a) (i : InstanceId) :
    ProceedsBy S w (w.setAttachment i (some a)) := by
  refine (Step.record i (fun x => { x with attachment := some a }) fun _ => ⟨rfl, rfl, rfl, rfl, rfl⟩).proceedsBy ?_
  refine fastens_modifyInstance rfl i fun x b hb => Or.inr ?_
  obtain rfl := Option.some.inj hb
  exact h

/-- Where a place is moored with a sink, a world leads to another by elementary changes of a kind. -/
def ProceedsFrom (S : World → World → Prop) (a : Attachment) (w w' : World) : Prop := w.Moors a → ProceedsBy S w w'

instance {a : Attachment} : IsPreorder World (ProceedsFrom S a) where
  refl _ _ _ := .refl
  trans _ _ _ h h' ha hw := by
    have hfirst := h ha hw
    exact hfirst.trans (h' (ha.grows hfirst.grows) (hfirst.sound hw))

end Stepping

end World

end ReactiveView
