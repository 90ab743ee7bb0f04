import ReactiveView.Proofs.Closed.Acts
import ReactiveView.Proofs.Ownership.Detach
import ReactiveView.Proofs.Projection.Refilling
import ReactiveView.Proofs.Recovery.Failure

/-!
# Writes that are refused

A write of one property that fails in a world at rest changes nothing: every record is as it was and every place
holds what it held (`World.AtRest.untouched_of_refused`). A primitive value is refused before anything is written.
Data for a slot or an array property makes instances first, which may take in others; when one of them fails, or
when the place does not take them, they are let go, and what they have taken in is free again. So a failed write
has only lent, and at the end of the scope nothing is lent any more (`World.Resting.untouched_settle`).
-/

set_option autoImplicit false

namespace ReactiveView

open Run

namespace World

variable {w w' w₀ : World}

/-! ## The end of a scope that has only lent -/

/-- Letting go of all but what was kept hold of before keeps the loan. -/
theorem Underway.letGo (hw₀ : w₀.Resting) (hu : w₀.Underway World.slack w) :
    w₀.Underway World.slack ({ w with pins := w₀.pins } : World).settle := by
  refine Underway.settle hw₀ (hu.congr ?_ (.of_same rfl rfl rfl rfl) (fun _ => rfl) (fun _ => rfl) fun _ => rfl)
  exact hu.toRetains.of_same rfl rfl rfl rfl rfl (List.Subset.refl _) rfl

/-- Behind it everything is as it was. -/
theorem Resting.untouched_settle (hw₀ : w₀.Resting) (hu : w₀.Underway slack w) :
    w₀.Untouched ({ w with pins := w₀.pins } : World).settle := by
  refine (hu.letGo hw₀).untouched hw₀ ?_ (idle_settle _).1
  rw [pins_settle]

theorem Resting.untouched_rfl (hw : w.Resting) : w.Untouched w := by
  have hu : w.Underway tight w := .start
  exact hu.untouched hw rfl hw.idleInstances

end World

namespace Run

open World

variable {α β : Type} {w w' w₀ : World} {loose : Place → InstanceId → Prop} {cb : Callbacks} {T : InstanceId}
  {y : Instance} {c : Class} {n : Nat} {p : PropertyDescriptor} {element : ElementType} {v : Value} {e : Halt}

/-- A run that lends, followed by one that changes nothing when it fails, has only lent when it fails. -/
theorem Lends.underway_of_error {m : Run α} {f : α → Run β} {Q : α → World → Prop} (hm : Lends w₀ loose m w Q)
    (hf : ∀ a w₁ e w', m w = (.ok a, w₁) → f a w₁ = (.error e, w') → w' = w₁)
    (hrun : (m >>= f) w = (.error e, w')) : w₀.Underway slack w' := by
  rcases hfirst : m w with ⟨e₁ | a, w₁⟩
  · rw [bind_of_error hfirst] at hrun
    have hu := hm.error e₁ (by rw [hfirst])
    rw [hfirst] at hu
    exact (Prod.mk.inj hrun).2 ▸ hu
  · rw [bind_of_ok hfirst] at hrun
    obtain ⟨hu, -⟩ := hm.ok a (by rw [hfirst])
    rw [hfirst] at hu
    rw [hf a w₁ e w' hfirst hrun]
    exact hu.slack

/-- The exchange of a child, when the instance that has the slot has been respected since its record was read. -/
theorem replaceChild_behind {w₁ : World} (hw₁ : w₁.Orderly) (hr : w.Respects w.Safe w₁) (hT : w.Safe T)
    (hy : w.inst? T = some y) (hc : w.class? y.classId = some c) (hp : c.descriptor.properties[n]? = some p)
    (hk : p.kind = .slot element) {child : Option InstanceId} (hchild : ∀ j ∈ child, w₁.isAlive j = true) :
    ∃ m, w₁.layout.spot (.slot T p.name) = some (T, m) ∧
      ((∀ j ∈ child, w₁.Admits (.slot T p.name) m j) ∧ (∃ w', replaceChild T n p.name child w₁ = (.ok (), w') ∧
          w₁.Refills (.slot T p.name) T m child.toList w') ∨
        ¬ (∀ j ∈ child, w₁.Admits (.slot T p.name) m j) ∧
          ∃ e, e.kind = .referenceKind ∧ replaceChild T n p.name child w₁ = (.error (.failed e), w₁)) := by
  obtain ⟨z, hz, hshape⟩ := hr.inst T y hy
  have hc₁ : w₁.class? z.classId = some c := by
    rw [show z.classId = y.classId from congrArg Prod.fst hshape, hr.toExtends.class?]
    exact hc
  exact replaceChild_spec hw₁ hz hc₁ hp hk (hr.alive T hT) hchild

section Element

variable (hlending : cb.Lending w w.Unaided) (hw : w.AtRest) (hrest : w.Resting) (hT : w.isAlive T = true)

include hlending hw hrest hT

/-- A splice that fails has only lent: the items have been made, and then the collection does not take them. -/
theorem underway_splice {k : CollectionId} {x : Collection} (hx : w.coll? k = some x) (howner : x.owner = T)
    {vs : List Value} (hcoerces : Coerces cb x.element vs w) (hfit : ∀ v ∈ vs, w.Fit w v) (start count : Nat)
    (hrun : splice cb k start count vs w = (.error e, w')) : w.Underway slack w' := by
  obtain ⟨w₂, hbody, rfl⟩ := keeping_eq_error hrun
  refine Underway.letGo hrest ?_
  change spliceBody cb k start count vs w = (.error e, w₂) at hbody
  have hlends : Lends w tight (coerceAll cb x.element vs) w _ :=
    lends_coerceAll hlending (fun ref _ => hw.orderly.plain.unaided ref.id) .start hfit
  rcases spliceBody_cases hx (hw.settled.safe (howner.symm ▸ hT)) hcoerces start count with
    ⟨e₁, w₁, hcoerced, hrun⟩ | ⟨is, w₁, e₁, hcoerced, -, -, hrun⟩ | ⟨is, w₁, w₃, -, -, hrun, -⟩
  · have hu := hlends.error e₁ (by rw [hcoerced])
    rw [hcoerced] at hu
    rw [hrun] at hbody
    exact (Prod.mk.inj hbody).2 ▸ hu
  · -- the items have been made, and then the collection does not take them
    have hu := (hlends.ok is (by rw [hcoerced])).1.slack
    rw [hcoerced] at hu
    rw [hrun] at hbody
    exact (Prod.mk.inj hbody).2 ▸ hu
  · rw [hrun] at hbody
    cases hbody

variable (hcb : cb.Mild) (hy : w.inst? T = some y) (hc : w.class? y.classId = some c)
  (hp : c.descriptor.properties[n]? = some p) (hv : v.instances ⊆ w.handles)

include hcb hy hc hp hv

/-- A write of a slot that fails changes nothing. -/
theorem untouched_setSlot (hk : p.kind = .slot element)
    (hfail : setSlot cb T n p.name element v w = (.error e, w')) : w.Untouched w' := by
  obtain ⟨w₁, hbody, rfl⟩ := keeping_eq_error hfail
  refine hrest.untouched_settle ?_
  have hfit : w.Fit w v := fun j hj => Or.inl (knows_of_isAlive (hw.orderly.handled j (hv hj)))
  have hlends : Lends w tight (slotChild cb element v) w _ :=
    lends_slotChild hlending (fun ref _ => hw.orderly.plain.unaided ref.id) .start hfit
  refine hlends.underway_of_error (fun child w₂ e w' hchild hreplaced => ?_) hbody
  -- when the child has been made, the slot takes it or nothing changes
  have hyields : Yields (slotChild cb element v) w _ := yields_slotChild hcb hw.orderly hv
  have hw₂ := hyields.orderly
  have hhandles := hyields.result child (by rw [hchild])
  have hsafe := hyields.respects w.Safe w.anchored_safe
  rw [hchild] at hw₂ hhandles hsafe
  dsimp only at hw₂ hhandles hsafe
  obtain ⟨m, -, ⟨-, w₃, hok, -⟩ | ⟨-, e₃, -, herror⟩⟩ := replaceChild_behind hw₂ hsafe (hw.settled.safe hT) hy hc hp hk
    fun j hj => hw₂.handled j (hhandles j hj)
  · rw [hok] at hreplaced
    cases hreplaced
  · rw [herror] at hreplaced
    exact (Prod.mk.inj hreplaced).2.symm

/-- A write of an array property that fails changes nothing. -/
theorem untouched_setSequence (hk : p.kind = .sequence element)
    (hfail : setSequence cb T n v w = (.error e, w')) : w.Untouched w' := by
  obtain ⟨view, hf⟩ := hw.orderly.toBuilt.formed hy hc
  obtain ⟨k, x, hsite, -, hx, howner, rfl⟩ := hf.exists_sequence hp hk
  obtain ⟨w₁, hbody, rfl⟩ := keeping_eq_error hfail
  refine hrest.untouched_settle ?_
  rw [bind_of_ok (theView_of hy hf.view), hsite] at hbody
  have hreplace {vs : List Value} (hcoerces : Coerces cb x.element vs w) (hfit : ∀ v ∈ vs, w.Fit w v)
      (hrun : (replaceAll cb k vs >>= fun _ => pure ()) w = ((.error e : Except Halt Unit), w₁)) :
      w.Underway slack w₁ := by
    rcases hall : replaceAll cb k vs w with ⟨e₁ | removed, w₂⟩
    · rw [bind_of_error hall] at hrun
      obtain ⟨-, rfl⟩ := Prod.mk.inj hrun
      exact underway_splice hlending hw hrest hT hx howner hcoerces hfit 0 _ hall
    · rw [bind_of_ok hall] at hrun
      cases hrun
  cases v with
  | array items =>
    refine hreplace (coerces_of_handles hcb hw.orderly hv) (fun v hv' j hj => Or.inl ?_) hbody
    exact knows_of_isAlive (hw.orderly.handled j (hv (Value.instances_subset_items hv' hj)))
  | coll other =>
    dsimp only at hbody
    split at hbody
    · -- the items of the other collection are in use, though no handle need refer to them
      rw [bind_of_ok (ask_apply _ w)] at hbody
      have halive : ∀ i ∈ w.itemsOf other, w.isAlive i = true := fun i hi =>
        Layout.Linked.live_item hw.orderly.linked i (.sequence other) hi
      refine hreplace (coerces_of_alive halive hw.orderly) (fun v hv' j hj => ?_) hbody
      obtain ⟨i, hi, rfl⟩ := List.mem_map.1 hv'
      rw [List.mem_singleton.1 hj]
      exact Or.inl (knows_of_isAlive (halive i hi))
    · cases hbody
  | _ =>
    obtain ⟨-, rfl⟩ := Prod.mk.inj hbody
    exact .start

/-- A write of a property that fails changes nothing. -/
theorem untouched_setProperty (hfail : setProperty cb T p.name v w = (.error e, w')) : w.Untouched w' := by
  rw [setProperty_apply cb hw.orderly hy hc hp v] at hfail
  cases hk : p.kind with
  | slot element =>
    rw [hk] at hfail
    exact untouched_setSlot hlending hw hrest hT hcb hy hc hp hv hk hfail
  | sequence element =>
    rw [hk] at hfail
    exact untouched_setSequence hlending hw hrest hT hcb hy hc hp hv hk hfail
  | primitive types =>
    rw [hk] at hfail
    dsimp only at hfail
    obtain ⟨view, hf⟩ := hw.orderly.toBuilt.formed hy hc
    have hvalid := hw.orderly.compiled.valid hc
    cases hcheck : checkPrimitive p.name types v with
    | error err =>
      rw [setPrimitive_of_error cb hcheck] at hfail
      obtain ⟨-, rfl⟩ := Prod.mk.inj hfail
      exact hrest.untouched_rfl
    | ok u =>
      -- nobody listens, so a value that is taken is written
      obtain ⟨w₁, hok, -⟩ := setPrimitive_of_ok hvalid cb (hvalid.descriptor.propertyIndex?_name hp) hcheck w y.values
        ⟨hc, y, view, hy, rfl, hf.view, rfl, hf.unheard⟩ hf.values
      rw [hok] at hfail
      cases hfail

end Element

end Run

namespace World

variable {w w' : World} {T : InstanceId}

/-- In a world at rest in which nothing is idle, a write of a property that fails changes nothing. -/
theorem AtRest.untouched_of_refused (hw : w.AtRest) (hrest : w.Resting) (hT : w.isAlive T = true) {name : String}
    {v : Value} (hv : v.instances ⊆ w.handles) {depth : Nat} {e : Halt}
    (hfail : setProperty (Callbacks.ofDepth depth) T name v w = (.error e, w')) : w.Untouched w' := by
  obtain ⟨y, hy⟩ := exists_inst?_of_isAlive hT
  obtain ⟨c, view, hf⟩ := hw.orderly.inst T y hy
  cases hn : c.descriptor.propertyIndex? name with
  | none =>
    have hunknown : propertyIndex T name w = (.error (.failed (.unknownProperty name c.name)), w) := by
      unfold propertyIndex
      rw [bind_of_ok (theClassOf_of hy hf.cls), hn]
      rfl
    unfold setProperty at hfail
    rw [bind_of_error hunknown] at hfail
    obtain ⟨-, rfl⟩ := Prod.mk.inj hfail
    exact hrest.untouched_rfl
  | some n =>
    obtain ⟨p, hp, rfl⟩ := Descriptor.propertyIndex?_some hn
    exact untouched_setProperty (Callbacks.lending_ofDepth hrest depth).1 hw hrest hT (Callbacks.mild_ofDepth depth)
      hy hf.cls hp hv hfail

end World

end ReactiveView
