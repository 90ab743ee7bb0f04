import ReactiveView.Proofs.Interrupted.Splices
import ReactiveView.Proofs.Recovery.Unnamed

/-!
# What is offered to a slot

A value that is written to a slot stands for a child or for none: null for none, an instance for itself, and an
object for the instance that is constructed from it (`Run.StandsFor`). The write is refused for one of three reasons:
the value stands for nothing, or its child stands somewhere else, or the slot stands below the root of its child
(`Run.SlotRefused`, `Run.setSlot_eq_error_iff`).

When the child is offered to the slot, what was there before is as it was, but for free instances that the object
names: these may stand in places of new instances (`World.Offers`, `Run.offers_slotChild`).
-/

set_option autoImplicit false

namespace ReactiveView

open Relation

namespace Layout.Linked

variable {L : Layout} {f : Forest} {att : InstanceId → Option Place} {live : InstanceId → Prop}
  {occ : Place → List InstanceId} {pl : Place} {P i : InstanceId} {m r : NodeId}

/-- The root of an occupant does not stand above the marker, which it stands behind. -/
theorem not_above_of_occupant (h : L.Linked f att live occ) (hi : i ∈ occ pl) (hspot : L.spot pl = some (P, m))
    (hr : L.root i = some r) : ¬ ReflTransGen f.Up m r := by
  obtain ⟨Q, m', hspot', hQ⟩ := h.live_owner i pl hi
  obtain ⟨rfl, rfl⟩ := Prod.mk.inj (Option.some.inj (hspot.symm.trans hspot'))
  obtain ⟨e, he⟩ := h.row pl P m hQ hspot
  have hm : f.Up m e := h.tidy.parent_of_mem m e (he.subset List.mem_cons_self)
  have hroot : f.Up r e :=
    h.tidy.parent_of_mem r e (he.subset (List.mem_cons_of_mem m (List.mem_filterMap.2 ⟨i, hi, hr⟩)))
  intro hup
  rcases ReflTransGen.cases_head hup with rfl | ⟨e', he', hup⟩
  · exact h.sound.marker_not_root pl P m hspot ⟨i, hr⟩
  · obtain rfl := Forest.Up.unique hm he'
    exact h.tidy.acyclic r (.head' hroot hup)

end Layout.Linked

namespace Run

open World

variable {w w' w₁ : World} {cb : Callbacks} {element : ElementType} {v : Value} {child : Option InstanceId}
  {T : InstanceId} {y : Instance} {c : Class} {n : Nat} {p : PropertyDescriptor}

/-! ## What a value stands for -/

/-- The child that a value stands for when it is written to a slot. -/
inductive StandsFor (cb : Callbacks) (element : ElementType) (w : World) : Value → Option InstanceId → Prop where
  | none : StandsFor cb element w .null none
  | given {i : InstanceId} : w.accepts element i = true → StandsFor cb element w (.inst i) (some i)
  /-- The instance is constructed from an object. It was not there before. -/
  | made {fields : List (String × Value)} {ref : ClassRef} {i : InstanceId} {w' : World} : element = .ofClass ref →
      cb.construct ref.id (some (.object fields)) w = (.ok i, w') → w.inst? i = none →
      StandsFor cb element w (.object fields) (some i)

theorem slotChild_of_ne_null (hv : v ≠ .null) : slotChild cb element v w = (some <$> coerce cb element v) w := by
  cases v with
  | null => exact absurd rfl hv
  | _ => rfl

theorem slotChild_eq_ok (hrun : slotChild cb element v w = (.ok child, w₁)) :
    (v = .null ∧ child = none ∧ w₁ = w) ∨
      v ≠ .null ∧ ∃ i, child = some i ∧ coerce cb element v w = (.ok i, w₁) := by
  by_cases hv : v = .null
  · subst hv
    obtain ⟨hchild, rfl⟩ := Prod.mk.inj hrun
    exact Or.inl ⟨rfl, (Except.ok.inj hchild).symm, rfl⟩
  · rw [slotChild_of_ne_null hv, map_eq_pure_bind] at hrun
    obtain ⟨i, w₂, hcoerce, hpure⟩ := bind_eq_ok_iff.1 hrun
    obtain ⟨hchild, rfl⟩ := Prod.mk.inj hpure
    exact Or.inr ⟨hv, i, (Except.ok.inj hchild).symm, hcoerce⟩

theorem slotChild_eq_error_iff :
    (∃ e w', slotChild cb element v w = (.error e, w')) ↔ v ≠ .null ∧ ¬ Coercible cb element v w := by
  rw [← coerce_eq_ok_iff]
  by_cases hv : v = .null
  · subst hv
    refine ⟨?_, fun h => absurd rfl h.1⟩
    rintro ⟨e, w', hrun⟩
    cases hrun
  · rw [slotChild_of_ne_null hv, map_eq_pure_bind]
    rcases hcoerce : coerce cb element v w with ⟨e | i, w₁⟩
    · refine ⟨fun _ => ⟨hv, ?_⟩, fun _ => ⟨e, w₁, bind_of_error hcoerce⟩⟩
      rintro ⟨i, w', hrun⟩
      cases hrun
    · refine ⟨?_, fun h => absurd ⟨i, w₁, rfl⟩ h.2⟩
      rintro ⟨e, w', hrun⟩
      rw [bind_of_ok hcoerce] at hrun
      cases hrun

theorem standsFor_of_slotChild (hcb : cb.Mild) (hw : w.Orderly) (hv : v.instances ⊆ w.handles)
    (hrun : slotChild cb element v w = (.ok child, w₁)) : StandsFor cb element w v child := by
  rcases slotChild_eq_ok hrun with ⟨rfl, rfl, -⟩ | ⟨-, i, rfl, hcoerce⟩
  · exact .none
  · obtain ⟨hdenotes, -⟩ := (yields_coerce hcb v hw hv).result i (congrArg Prod.fst hcoerce)
    rcases (coerce_eq_ok_iff v).1 ⟨i, w₁, hcoerce⟩ with ⟨j, rfl, hacc⟩ | ⟨fields, ref, -, -, rfl, rfl, -⟩
    · rw [coerce_inst hacc] at hcoerce
      obtain rfl := Except.ok.inj (Prod.mk.inj hcoerce).1
      exact .given hacc
    · refine .made rfl hcoerce ?_
      exact hdenotes.elim nofun And.right

/-! ## Reasons to refuse a write -/

/-- Why a value is not taken by a slot. -/
inductive SlotRefused (cb : Callbacks) (w : World) (T : InstanceId) (name : String) (element : ElementType)
    (v : Value) : Prop where
  /-- It is no instance of the class and no object that the class can be constructed from. -/
  | uncoerced : v ≠ .null → ¬ Coercible cb element v w → SlotRefused cb w T name element v
  /-- Its child stands somewhere, and not in this slot. -/
  | inUse {i : InstanceId} {w₁ : World} : slotChild cb element v w = (.ok (some i), w₁) →
      w₁.isAttached i = true → w₁.placeOf? i ≠ some (.slot T name) → SlotRefused cb w T name element v
  /-- The marker of the slot stands below the root of its child. -/
  | inside {i : InstanceId} {w₁ : World} {m r : NodeId} : slotChild cb element v w = (.ok (some i), w₁) →
      w₁.slotMarker? T name = some m → w₁.rootOf? i = some r → ReflTransGen w₁.forest.Up m r →
      SlotRefused cb w T name element v

section Slot

variable (hcb : cb.Mild) (hw : w.AtRest) (hT : w.isAlive T = true) (hy : w.inst? T = some y)
  (hc : w.class? y.classId = some c) (hp : c.descriptor.properties[n]? = some p) (hk : p.kind = .slot element)
  (hv : v.instances ⊆ w.handles)

include hcb hw hT hy hc hp hk hv

/-- When the child has been made it becomes the only occupant of the slot, or the write is refused. -/
theorem replaceChild_of_slotChild (hrun : slotChild cb element v w = (.ok child, w₁)) :
    (¬ SlotRefused cb w T p.name element v ∧ ∃ m w', w₁.layout.spot (.slot T p.name) = some (T, m) ∧
        replaceChild T n p.name child w₁ = (.ok (), w') ∧ w₁.Refills (.slot T p.name) T m child.toList w') ∨
      SlotRefused cb w T p.name element v ∧ ∃ e, replaceChild T n p.name child w₁ = (.error e, w₁) := by
  have hyields : Yields (slotChild cb element v) w _ := yields_slotChild hcb hw.orderly hv
  have hw₁ := hyields.orderly
  have hhandles := hyields.result child (congrArg Prod.fst hrun)
  have hsafe := hyields.respects w.Safe w.anchored_safe
  rw [hrun] at hw₁ hhandles hsafe
  dsimp only at hw₁ hhandles hsafe
  obtain ⟨m, hspot, hcases⟩ := replaceChild_behind hw₁ hsafe (hw.settled.safe hT) hy hc hp hk fun j hj =>
    hw₁.handled j (hhandles j hj)
  obtain ⟨m', hm, heq⟩ := Option.map_eq_some_iff.1
    (show (w₁.slotMarker? T p.name).map (fun m => (T, m)) = some (T, m) from hspot)
  obtain rfl : m' = m := (Prod.mk.inj heq).2
  rcases hcases with ⟨hall, w', hok, hrefills⟩ | ⟨hnot, e, -, herror⟩
  · refine Or.inl ⟨fun hrefused => ?_, m', w', hspot, hok, hrefills⟩
    cases hrefused with
    | uncoerced hnull hnot =>
      obtain ⟨e, w₂, herror⟩ := slotChild_eq_error_iff.2 ⟨hnull, hnot⟩
      rw [hrun] at herror
      cases herror
    | inUse hrun' hatt hother =>
      obtain ⟨hchild, rfl⟩ := Prod.mk.inj (hrun.symm.trans hrun')
      obtain rfl := Except.ok.inj hchild
      rcases hall _ rfl with hthere | ⟨hfree, -⟩
      · exact hother hthere
      · exact isAttached_iff.1 hatt hfree
    | inside hrun' hm' hr hup =>
      obtain ⟨hchild, rfl⟩ := Prod.mk.inj (hrun.symm.trans hrun')
      obtain rfl := Except.ok.inj hchild
      obtain rfl := Option.some.inj (hm.symm.trans hm')
      rcases hall _ rfl with hthere | ⟨-, hout⟩
      · exact hw₁.linked.not_above_of_occupant ((hw₁.linked.place_iff _ _).1 hthere) hspot hr hup
      · exact hout _ hr hup
  · refine Or.inr ⟨?_, _, herror⟩
    -- somebody is not admitted, and there are two reasons for it
    obtain ⟨i, rfl, hturned⟩ : ∃ i, child = some i ∧ ¬ w₁.Admits (.slot T p.name) m' i := by
      by_contra hno
      exact hnot fun i hi => by_contra fun hi' => hno ⟨i, hi, hi'⟩
    have hother : w₁.placeOf? i ≠ some (.slot T p.name) := fun hthere => hturned (Or.inl hthere)
    by_cases hfree : w₁.placeOf? i = none
    · obtain ⟨r, hr⟩ := hw₁.linked.rooted i (hw₁.handled i (hhandles i rfl))
      refine .inside hrun hm hr (by_contra fun hout => hturned (Or.inr ⟨hfree, fun r' hr' => ?_⟩))
      exact Option.some.inj (hr.symm.trans hr') ▸ hout
    · exact .inUse hrun (isAttached_iff.2 hfree) hother

/-- A write of a slot fails for one of the reasons, and whenever there is one. -/
theorem setSlot_eq_error_iff :
    (∃ e w', setSlot cb T n p.name element v w = (.error e, w')) ↔ SlotRefused cb w T p.name element v := by
  unfold setSlot
  rw [inScope_eq_error_iff]
  rcases hchild : slotChild cb element v w with ⟨e | child, w₁⟩
  · obtain ⟨hnull, hnot⟩ := slotChild_eq_error_iff.1 ⟨e, w₁, hchild⟩
    exact ⟨fun _ => .uncoerced hnull hnot, fun _ => ⟨e, w₁, bind_of_error hchild⟩⟩
  · rw [bind_of_ok hchild]
    rcases replaceChild_of_slotChild hcb hw hT hy hc hp hk hv hchild with
      ⟨hnot, -, w₂, -, hok, -⟩ | ⟨hrefused, e, herror⟩
    · refine ⟨?_, fun hrefused => absurd hrefused hnot⟩
      rintro ⟨e, w', hrun⟩
      rw [hok] at hrun
      cases hrun
    · exact ⟨fun _ => hrefused, fun _ => ⟨e, w₁, herror⟩⟩

end Slot

end Run

namespace World

variable {w w₁ : World} {v : Value} {j : InstanceId}

/-! ## On loan -/

/-- The instance was free, the value names it, and it stands in a place that was not there before. -/
def TakenIn (w : World) (v : Value) (j : InstanceId) (w' : World) : Prop :=
  w.attachment? j = none ∧ j ∈ v.instances ∧ ∃ a, w'.attachment? j = some a ∧ ¬ w.KnowsPlace a.place

/-- What a value stands for has been made. What was there is as it was, but for free instances that the value names:
they may have been taken in. -/
structure Offers (w : World) (v : Value) (w₁ : World) : Prop extends Underway w tight w₁ where
  orderly : w₁.Orderly
  respects : w.Respects (fun _ => False) w₁
  named : ∀ j x, w.inst? j = some x → w₁.attachment? j = w.attachment? j ∨ w.TakenIn v j w₁

end World

namespace Run

open World

variable {w w₁ : World} {element : ElementType} {v : Value} {child : Option InstanceId} {depth : Nat}

theorem offers_slotChild (hw : w.AtRest) (hrest : w.Resting) (hv : v.instances ⊆ w.handles)
    (hrun : slotChild (Callbacks.ofDepth depth) element v w = (.ok child, w₁)) : w.Offers v w₁ := by
  have hyields : Yields (slotChild (Callbacks.ofDepth depth) element v) w _ :=
    yields_slotChild (Callbacks.mild_ofDepth depth) hw.orderly hv
  have hfit : w.Fit w v := fun j hj => Or.inl (knows_of_isAlive (hw.orderly.handled j (hv hj)))
  have hlends : Lends w tight (slotChild (Callbacks.ofDepth depth) element v) w _ :=
    lends_slotChild (Callbacks.lending_ofDepth hrest depth).1 (fun ref _ => hw.orderly.plain.unaided ref.id) .start hfit
  have hw₁ := hyields.orderly
  have hrespects := hyields.respects _ w.anchored_empty
  obtain ⟨hunderway, -⟩ := hlends.ok child (congrArg Prod.fst hrun)
  rw [hrun] at hw₁ hrespects hunderway
  refine ⟨hunderway, hw₁, hrespects, fun j x hx => ?_⟩
  rcases hunderway.ledger.lent j with hsame | ⟨hfree, a, ha, hnew, -⟩
  · exact Or.inl hsame
  · -- whom the value does not name has stayed apart
    have hnamed : j ∈ v.instances := by
      by_contra hnot
      have hapart := (shuns_slotChild (Callbacks.shuns_ofDepth depth j) element hnot w (hw.orderly.apart hx hfree)).1
      rw [hrun] at hapart
      rw [hapart.free] at ha
      cases ha
    exact Or.inr ⟨hfree, hnamed, a, ha, hnew⟩

end Run

end ReactiveView
