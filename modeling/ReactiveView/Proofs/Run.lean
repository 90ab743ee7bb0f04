import ReactiveView.World.Construction
import Mathlib.Order.Defs.Unbundled

/-!
# Runs as functions on worlds

A run is a function that takes a world to a result and the world it leaves behind. The first part of
this module gives the value of each building block at a world: a run made of two parts is the first
part followed by the second, unless the first halts (`bind_of_ok`, `bind_of_error`), and a look-up
that finds something leaves the world as it is.

The second part is about relations between the world before a run and the world after it. A run
*keeps* a relation when the two worlds are always related, whether the run ends well or halts
(`Keeps`). For a reflexive and transitive relation this is inherited by everything that is put
together from runs that keep it: sequences, branches, recoveries and loops.
-/

set_option autoImplicit false

namespace ReactiveView.Run

variable {α β : Type}

/-! ## The value of a run at a world -/

theorem bind_apply (x : Run α) (f : α → Run β) (w : World) :
    (x >>= f) w =
      match x w with
      | (.ok a, w') => f a w'
      | (.error h, w') => (.error h, w') := by
  have h : (x >>= f) w = (ExceptT.bindCont f (x w).1 : StateM World _) (x w).2 := rfl
  rw [h]
  obtain ⟨r, w'⟩ := x w
  cases r <;> rfl

/-- A part that ends well is followed by the rest. -/
theorem bind_of_ok {x : Run α} {f : α → Run β} {w w' : World} {a : α} (h : x w = (.ok a, w')) :
    (x >>= f) w = f a w' := by
  rw [bind_apply, h]

/-- A part that halts is followed by nothing. -/
theorem bind_of_error {x : Run α} {f : α → Run β} {w w' : World} {e : Halt}
    (h : x w = (.error e, w')) : (x >>= f) w = (.error e, w') := by
  rw [bind_apply, h]

/-- A sequence that ends well has parts that end well. -/
theorem bind_eq_ok_iff {x : Run α} {f : α → Run β} {w w'' : World} {b : β} :
    (x >>= f) w = (.ok b, w'') ↔ ∃ a w', x w = (.ok a, w') ∧ f a w' = (.ok b, w'') := by
  constructor
  · intro h
    rw [bind_apply] at h
    rcases hx : x w with ⟨r, w'⟩
    rw [hx] at h
    cases r with
    | ok a => exact ⟨a, w', rfl, h⟩
    | error e => cases h
  · rintro ⟨a, w', hx, hf⟩
    rw [bind_of_ok hx, hf]

/-- A loop is its first round and the loop over the rest. -/
theorem forM_cons (f : β → Run Unit) (b : β) (bs : List β) :
    (b :: bs).forM f = (f b >>= fun _ => bs.forM f) := rfl

/-- A loop over a list is one over a first part, and then one over the rest. -/
theorem forM_append (f : β → Run Unit) (as bs : List β) :
    (as ++ bs).forM f = (as.forM f >>= fun _ => bs.forM f) := List.forM_append

theorem forM_append_eq_ok_iff {f : β → Run Unit} {as bs : List β} {w w'' : World} :
    (as ++ bs).forM f w = (.ok (), w'') ↔ ∃ w', as.forM f w = (.ok (), w') ∧ bs.forM f w' = (.ok (), w'') := by
  rw [forM_append, bind_eq_ok_iff]
  exact ⟨fun ⟨_, w', h⟩ => ⟨w', h⟩, fun ⟨w', h⟩ => ⟨(), w', h⟩⟩

/-- A loop that halts has ended some rounds well and halted in the next one; the others have not run. -/
theorem forM_eq_error_iff {f : β → Run Unit} {bs : List β} {w w' : World} {e : Halt} :
    bs.forM f w = (.error e, w') ↔ ∃ done b rest w₁, bs = done ++ b :: rest ∧
      done.forM f w = (.ok (), w₁) ∧ f b w₁ = (.error e, w') := by
  induction bs generalizing w with
  | nil =>
    constructor
    · intro h
      cases h
    · rintro ⟨done, b, rest, w₁, h, -⟩
      cases done <;> cases h
  | cons b bs ih =>
    rw [forM_cons]
    rcases hb : f b w with ⟨e' | u, w₁⟩
    · rw [bind_of_error hb]
      constructor
      · intro h
        exact ⟨[], b, bs, w, rfl, rfl, hb.trans h⟩
      · rintro ⟨done, a, rest, w₂, hsplit, hdone, ha⟩
        cases done with
        | nil =>
          cases hsplit
          cases hdone
          exact hb.symm.trans ha
        | cons d done =>
          cases hsplit
          rw [forM_cons, bind_of_error hb] at hdone
          cases hdone
    · rw [bind_of_ok hb, ih]
      constructor
      · rintro ⟨done, a, rest, w₂, rfl, hdone, ha⟩
        refine ⟨b :: done, a, rest, w₂, rfl, ?_, ha⟩
        rw [forM_cons, bind_of_ok hb, hdone]
      · rintro ⟨done, a, rest, w₂, hsplit, hdone, ha⟩
        cases done with
        | nil =>
          cases hsplit
          cases hdone
          cases hb.symm.trans ha
        | cons d done =>
          cases hsplit
          rw [forM_cons, bind_of_ok hb] at hdone
          exact ⟨done, a, rest, w₂, rfl, hdone, ha⟩

theorem tryCatch_apply (x : Run α) (f : Halt → Run α) (w : World) :
    (tryCatch x f) w =
      match x w with
      | (.ok a, w') => (.ok a, w')
      | (.error h, w') => f h w' := by
  change (ExceptT.tryCatch x f) w = _
  unfold ExceptT.tryCatch ExceptT.mk
  change (StateT.bind x _) w = _
  unfold StateT.bind
  change (match x w with | (a, s) => _) = _
  obtain ⟨r, w'⟩ := x w
  cases r <;> rfl

@[simp] theorem pure_apply (a : α) (w : World) : (pure a : Run α) w = (.ok a, w) := rfl

@[simp] theorem throw_apply (h : Halt) (w : World) : (throw h : Run α) w = (.error h, w) := rfl

@[simp] theorem get_apply (w : World) : (get : Run World) w = (.ok w, w) := rfl

@[simp] theorem fail_apply (e : Error) (w : World) :
    (fail e : Run α) w = (.error (.failed e), w) := rfl

@[simp] theorem update_apply (f : World → World) (w : World) : update f w = (.ok (), f w) := rfl

theorem pin_apply (h : Held) (w : World) : pin h w = (.ok (), { w with pins := h :: w.pins }) := rfl

@[simp] theorem ask_apply (f : World → α) (w : World) : ask f w = (.ok (f w), w) := rfl

@[simp] theorem change_apply (f : World → α × World) (w : World) :
    change f w = (.ok (f w).1, (f w).2) := rfl

@[simp] theorem ofOption_some (a : α) (w : World) : ofOption (some a) w = (.ok a, w) := rfl

@[simp] theorem ofOption_none (w : World) : (ofOption none : Run α) w = (.error .lost, w) := rfl

@[simp] theorem ofExcept_ok (a : α) (w : World) : ofExcept (.ok a) w = (.ok a, w) := rfl

@[simp] theorem ofExcept_error (e : Error) (w : World) :
    (ofExcept (.error e) : Run α) w = (.error (.failed e), w) := rfl

theorem edit_apply (f : Forest → Except Error Unit × Forest) (w : World) :
    edit f w = (ofExcept (f w.forest).1) (w.mapForest fun _ => (f w.forest).2) := rfl

theorem keeping_apply (keep : α → List Held) (body : Run α) (w : World) : keeping keep body w =
    ((body w).1, ({ (body w).2 with pins := keptBy keep (body w).1 ++ w.pins } : World).settle) :=
  rfl

theorem inScope_apply (body : Run α) (w : World) :
    inScope body w = ((body w).1, ({ (body w).2 with pins := w.pins } : World).settle) := by
  unfold inScope
  rw [keeping_apply]
  cases (body w).1 <;> rfl

/-- A scope fails when its body does. -/
theorem inScope_eq_error_iff {body : Run α} {w : World} :
    (∃ e w', inScope body w = (.error e, w')) ↔ ∃ e w', body w = (.error e, w') := by
  have hscope := inScope_apply body w
  rcases hbody : body w with ⟨e | a, w₁⟩
  · rw [hbody] at hscope
    exact ⟨fun _ => ⟨e, w₁, rfl⟩, fun _ => ⟨e, _, hscope⟩⟩
  · rw [hbody] at hscope
    refine ⟨?_, ?_⟩
    · rintro ⟨e, w', hrun⟩
      cases hscope.symm.trans hrun
    · rintro ⟨e, w', hrun⟩
      cases hrun

/-- A scope that halts lets go of all that its body kept hold of. -/
theorem keeping_eq_error {keep : α → List Held} {body : Run α} {w w' : World} {e : Halt}
    (h : keeping keep body w = (.error e, w')) :
    ∃ w₁, body w = (.error e, w₁) ∧ w' = ({ w₁ with pins := w.pins } : World).settle := by
  rw [keeping_apply] at h
  obtain ⟨hresult, rfl⟩ := Prod.mk.inj h
  rcases hbody : body w with ⟨e₁ | a, w₁⟩
  · rw [hbody] at hresult
    cases hresult
    exact ⟨w₁, rfl, rfl⟩
  · rw [hbody] at hresult
    cases hresult

theorem theInstance_of {w : World} {i : InstanceId} {x : Instance} (h : w.inst? i = some x) :
    theInstance i w = (.ok x, w) := by
  change (ofOption (w.inst? i)) w = _
  rw [h, ofOption_some]

theorem theClass_of {w : World} {id : ClassId} {c : Class} (h : w.class? id = some c) :
    theClass id w = (.ok c, w) := by
  change (ofOption (w.class? id)) w = _
  rw [h, ofOption_some]

theorem theClass_of_none {w : World} {id : ClassId} (h : w.class? id = none) :
    theClass id w = (.error .lost, w) := by
  change (ofOption (w.class? id)) w = _
  rw [h, ofOption_none]

theorem theCollection_of {w : World} {c : CollectionId} {x : Collection} (h : w.coll? c = some x) :
    theCollection c w = (.ok x, w) := by
  change (ofOption (w.coll? c)) w = _
  rw [h, ofOption_some]

theorem theClassOf_of {w : World} {i : InstanceId} {x : Instance} {c : Class}
    (hx : w.inst? i = some x) (hc : w.class? x.classId = some c) : theClassOf i w = (.ok c, w) := by
  unfold theClassOf
  rw [bind_of_ok (theInstance_of hx), theClass_of hc]

theorem theView_of {w : World} {i : InstanceId} {x : Instance} {v : View}
    (hx : w.inst? i = some x) (hv : x.view = some v) : theView i w = (.ok v, w) := by
  unfold theView
  rw [bind_of_ok (theInstance_of hx), hv]
  rfl

theorem theRoot_of {w : World} {i : InstanceId} {x : Instance} {v : View}
    (hx : w.inst? i = some x) (hv : x.view = some v) : theRoot i w = (.ok v.root, w) := by
  unfold theRoot
  rw [bind_of_ok (theView_of hx hv)]
  rfl

/-! ## What a look-up has found -/

theorem ofOption_eq_ok {o : Option α} {a : α} {w w' : World} (h : ofOption o w = (.ok a, w')) :
    o = some a ∧ w' = w := by
  cases o with
  | none => cases h
  | some b =>
    cases h
    exact ⟨rfl, rfl⟩

theorem ofExcept_eq_ok {r : Except Error α} {a : α} {w w' : World} (h : ofExcept r w = (.ok a, w')) :
    r = .ok a ∧ w' = w := by
  cases r with
  | error e => cases h
  | ok b =>
    cases h
    exact ⟨rfl, rfl⟩

theorem theInstance_eq_ok {i : InstanceId} {x : Instance} {w w' : World}
    (h : theInstance i w = (.ok x, w')) : w.inst? i = some x ∧ w' = w := by
  unfold theInstance at h
  rw [bind_of_ok (get_apply w)] at h
  exact ofOption_eq_ok h

theorem theClass_eq_ok {id : ClassId} {c : Class} {w w' : World} (h : theClass id w = (.ok c, w')) :
    w.class? id = some c ∧ w' = w := by
  unfold theClass at h
  rw [bind_of_ok (get_apply w)] at h
  exact ofOption_eq_ok h

theorem theCollection_eq_ok {k : CollectionId} {y : Collection} {w w' : World}
    (h : theCollection k w = (.ok y, w')) : w.coll? k = some y ∧ w' = w := by
  unfold theCollection at h
  rw [bind_of_ok (get_apply w)] at h
  exact ofOption_eq_ok h

theorem theSpace_eq_ok {n : NamespaceId} {ns : Namespace} {w w' : World}
    (h : theSpace n w = (.ok ns, w')) : w.space? n = some ns ∧ w' = w := by
  unfold theSpace at h
  rw [bind_of_ok (get_apply w)] at h
  exact ofOption_eq_ok h

theorem theClassOf_eq_ok {i : InstanceId} {c : Class} {w w' : World}
    (h : theClassOf i w = (.ok c, w')) :
    (∃ x, w.inst? i = some x ∧ w.class? x.classId = some c) ∧ w' = w := by
  unfold theClassOf at h
  obtain ⟨x, _, hx, hrest⟩ := bind_eq_ok_iff.1 h
  obtain ⟨hx, rfl⟩ := theInstance_eq_ok hx
  obtain ⟨hc, rfl⟩ := theClass_eq_ok hrest
  exact ⟨⟨x, hx, hc⟩, rfl⟩

theorem theView_eq_ok {i : InstanceId} {view : View} {w w' : World} (h : theView i w = (.ok view, w')) :
    (∃ x, w.inst? i = some x ∧ x.view = some view) ∧ w' = w := by
  unfold theView at h
  obtain ⟨x, _, hx, hrest⟩ := bind_eq_ok_iff.1 h
  obtain ⟨hx, rfl⟩ := theInstance_eq_ok hx
  cases hv : x.view with
  | none =>
    rw [hv] at hrest
    cases hrest
  | some v =>
    rw [hv] at hrest
    cases hrest
    exact ⟨⟨x, hx, hv⟩, rfl⟩

theorem theRoot_eq_ok {i : InstanceId} {r : NodeId} {w w' : World} (h : theRoot i w = (.ok r, w')) :
    w.rootOf? i = some r ∧ w' = w := by
  obtain ⟨view, w₁, hview, hroot⟩ := bind_eq_ok_iff.1 h
  obtain ⟨⟨x, hx, hxview⟩, rfl⟩ := theView_eq_ok hview
  obtain ⟨hr, rfl⟩ := Prod.mk.inj hroot
  obtain rfl := Except.ok.inj hr
  refine ⟨?_, rfl⟩
  unfold World.rootOf?
  rw [hx, Option.bind_some, hxview, Option.map_some]

theorem propertyIndex_eq_ok {i : InstanceId} {name : String} {n : Nat} {w w' : World}
    (h : propertyIndex i name w = (.ok n, w')) :
    (∃ x c, w.inst? i = some x ∧ w.class? x.classId = some c ∧
      c.descriptor.propertyIndex? name = some n) ∧ w' = w := by
  unfold propertyIndex at h
  obtain ⟨c, _, hc, hrest⟩ := bind_eq_ok_iff.1 h
  obtain ⟨⟨x, hx, hc⟩, rfl⟩ := theClassOf_eq_ok hc
  cases hn : c.descriptor.propertyIndex? name with
  | none =>
    rw [hn] at hrest
    cases hrest
  | some m =>
    rw [hn] at hrest
    cases hrest
    exact ⟨⟨x, c, hx, hc, hn⟩, rfl⟩

theorem attributeIndex_eq_ok {i : InstanceId} {name : String} {n : Nat} {w w' : World}
    (h : attributeIndex i name w = (.ok n, w')) :
    (∃ x c, w.inst? i = some x ∧ w.class? x.classId = some c ∧
      c.descriptor.attributeIndex? name = some n) ∧ w' = w := by
  unfold attributeIndex at h
  obtain ⟨c, _, hc, hrest⟩ := bind_eq_ok_iff.1 h
  obtain ⟨⟨x, hx, hc⟩, rfl⟩ := theClassOf_eq_ok hc
  cases hn : c.descriptor.attributeIndex? name with
  | none =>
    rw [hn] at hrest
    cases hrest
  | some m =>
    rw [hn] at hrest
    cases hrest
    exact ⟨⟨x, c, hx, hc, hn⟩, rfl⟩

/-! ## Relations that runs keep -/

/-- The world after a run is always related to the world before it. -/
def Keeps (R : World → World → Prop) (r : Run α) : Prop := ∀ w, R w (r w).2

section Keeps

variable {R : World → World → Prop} [IsPreorder World R]

/-- A part that ends in a related world, followed by a rest that keeps the relation. -/
theorem keeps_bind_at {x : Run α} {f : α → Run β} {w : World} (hx : R w (x w).2) (hf : ∀ a, Keeps R (f a)) :
    R w ((x >>= f) w).2 := by
  rcases hr : x w with ⟨r, w'⟩
  rw [hr] at hx
  cases r with
  | ok a =>
    rw [bind_of_ok hr]
    exact IsTrans.trans _ _ _ hx (hf a w')
  | error e =>
    rw [bind_of_error hr]
    exact hx

theorem Keeps.bind {x : Run α} {f : α → Run β} (hx : Keeps R x) (hf : ∀ a, Keeps R (f a)) :
    Keeps R (x >>= f) := fun w => keeps_bind_at (hx w) hf

theorem Keeps.map {x : Run α} (hx : Keeps R x) (g : α → β) : Keeps R (g <$> x) := by
  rw [← bind_pure_comp]
  exact hx.bind fun a w => refl w

theorem Keeps.tryCatch {x : Run α} {f : Halt → Run α} (hx : Keeps R x) (hf : ∀ h, Keeps R (f h)) :
    Keeps R (tryCatch x f) := by
  intro w
  have h := hx w
  rw [tryCatch_apply]
  rcases hr : x w with ⟨r, w'⟩
  rw [hr] at h
  cases r with
  | ok a => exact h
  | error e => exact IsTrans.trans _ _ _ h (hf e w')

theorem keeps_pure (a : α) : Keeps R (pure a : Run α) := fun w => refl w

theorem keeps_throw (h : Halt) : Keeps R (throw h : Run α) := fun w => refl w

theorem keeps_fail (e : Error) : Keeps R (fail e : Run α) := fun w => refl w

theorem keeps_get : Keeps R (get : Run World) := fun w => refl w

theorem keeps_ask (f : World → α) : Keeps R (ask f) := fun w => refl w

theorem keeps_ofOption (o : Option α) : Keeps R (ofOption o) := by
  cases o with
  | none => exact keeps_throw _
  | some a => exact keeps_pure a

theorem keeps_ofExcept (r : Except Error α) : Keeps R (ofExcept r) := by
  cases r with
  | ok a => exact keeps_pure a
  | error e => exact keeps_fail e

theorem Keeps.forM_of_mem {f : α → Run Unit} {as : List α} (hf : ∀ a ∈ as, Keeps R (f a)) : Keeps R (as.forM f) := by
  induction as with
  | nil => exact keeps_pure _
  | cons a as ih => exact (hf a List.mem_cons_self).bind fun _ => ih fun b hb => hf b (List.mem_cons_of_mem a hb)

theorem Keeps.forM {f : α → Run Unit} (hf : ∀ a, Keeps R (f a)) (as : List α) : Keeps R (as.forM f) :=
  .forM_of_mem fun a _ => hf a

theorem Keeps.forM_option {f : α → Run Unit} (hf : ∀ a, Keeps R (f a)) (o : Option α) :
    Keeps R (o.forM f) := by
  cases o with
  | none => exact keeps_pure _
  | some a => exact hf a

theorem keeps_theInstance (i : InstanceId) : Keeps R (theInstance i) :=
  keeps_get.bind fun _ => keeps_ofOption _

theorem keeps_theClass (c : ClassId) : Keeps R (theClass c) :=
  keeps_get.bind fun _ => keeps_ofOption _

theorem keeps_theCollection (c : CollectionId) : Keeps R (theCollection c) :=
  keeps_get.bind fun _ => keeps_ofOption _

theorem keeps_theSpace (n : NamespaceId) : Keeps R (theSpace n) :=
  keeps_get.bind fun _ => keeps_ofOption _

theorem keeps_theClassOf (i : InstanceId) : Keeps R (theClassOf i) :=
  (keeps_theInstance i).bind fun _ => keeps_theClass _

theorem keeps_theView (i : InstanceId) : Keeps R (theView i) := by
  refine (keeps_theInstance i).bind fun x => ?_
  cases x.view with
  | none => exact keeps_fail _
  | some v => exact keeps_pure v

theorem keeps_theRoot (i : InstanceId) : Keeps R (theRoot i) :=
  (keeps_theView i).bind fun _ => keeps_pure _

theorem keeps_propertyIndex (i : InstanceId) (name : String) : Keeps R (propertyIndex i name) := by
  refine (keeps_theClassOf i).bind fun c => ?_
  cases c.descriptor.propertyIndex? name with
  | none => exact keeps_fail _
  | some n => exact keeps_pure n

theorem keeps_attributeIndex (i : InstanceId) (name : String) :
    Keeps R (attributeIndex i name) := by
  refine (keeps_theClassOf i).bind fun c => ?_
  cases c.descriptor.attributeIndex? name with
  | none => exact keeps_fail _
  | some n => exact keeps_pure n

/-- A scope keeps what its body keeps and letting go keeps. -/
theorem Keeps.keeping {keep : α → List Held} {body : Run α} (hb : Keeps R body)
    (hpins : ∀ (w : World) (ps : List Held), R w { w with pins := ps })
    (hsettle : ∀ w : World, R w w.settle) : Keeps R (keeping keep body) := fun w =>
  IsTrans.trans _ _ _ (IsTrans.trans _ _ _ (hb w) (hpins _ _)) (hsettle _)

end Keeps

end ReactiveView.Run
