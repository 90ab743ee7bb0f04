import ReactiveView.Proofs.Ownership.Create
import ReactiveView.Proofs.Ownership.Write

/-!
# Tending an instance

An instance is *safe* when it belongs to an anchored set, so that letting go does not take it out of use
(`World.Safe`). Then it is held by an anchored set that it does not belong to, because no instance stands
below itself (`World.Safe.exists_holders`). Operations on an instance put other instances into its places
and take them out (`World.Edits`), which does not concern its holders. With the constructions and the
letting go in between, an operation *tends* the instance (`World.Tends`): it respects every anchored set
without the instance, and the instance stays in use if such a set holds it. `Run.tends_keeping` is the rule
for scopes.
-/

set_option autoImplicit false

namespace ReactiveView

open Relation

namespace World

variable {w w' w'' : World} {T i : InstanceId} {c : Class} {K : InstanceId → Prop} {H : List InstanceId}

/-! ## Safety -/

/-- The instance belongs to an anchored set. -/
def Safe (w : World) (i : InstanceId) : Prop := ∃ K, w.Anchored K ∧ K i

/-- The safe instances are the largest anchored set. -/
theorem anchored_safe (w : World) : w.Anchored w.Safe := by
  rintro i ⟨K, hK, hi⟩
  obtain ⟨halive, hheld⟩ := hK i hi
  refine ⟨halive, ?_⟩
  rcases hheld with hmem | ⟨pl, P, m, hmem, hspot, hP⟩
  · exact Or.inl hmem
  · exact Or.inr ⟨pl, P, m, hmem, hspot, K, hK, hP⟩

theorem Safe.isAlive (h : w.Safe i) : w.isAlive i = true := (w.anchored_safe i h).1

theorem Orderly.safe_of_handle (hw : w.Orderly) (hi : i ∈ w.handles) : w.Safe i := by
  refine ⟨fun j => j = i, anchored_of_handles hw ?_, rfl⟩
  rintro j rfl
  exact hi

/-- The instance is in use and held, by a handle or by a place of an instance of the set. -/
def HeldBy (w : World) (K : InstanceId → Prop) (i : InstanceId) : Prop :=
  w.isAlive i = true ∧ (i ∈ w.handles ∨
    ∃ pl P m, i ∈ w.occupants pl ∧ w.layout.spot pl = some (P, m) ∧ K P)

theorem HeldBy.anchored (h : w.HeldBy K i) (hK : w.Anchored K) : w.Anchored fun j => K j ∨ j = i := by
  intro j hj
  obtain ⟨halive, hheld⟩ : w.HeldBy K j := by
    rcases hj with hj | rfl
    · exact hK j hj
    · exact h
  refine ⟨halive, ?_⟩
  rcases hheld with hmem | ⟨pl, P, m, hmem, hspot, hP⟩
  · exact Or.inl hmem
  · exact Or.inr ⟨pl, P, m, hmem, hspot, Or.inl hP⟩

theorem HeldBy.safe (h : w.HeldBy K i) (hK : w.Anchored K) : w.Safe i :=
  ⟨_, h.anchored hK, Or.inr rfl⟩

theorem HeldBy.of_respects (h : w.HeldBy K i) (hr : w.Respects K w') (halive : w'.isAlive i = true) :
    w'.HeldBy K i := by
  refine ⟨halive, ?_⟩
  rcases h.2 with hmem | ⟨pl, P, m, hmem, hspot, hP⟩
  · exact Or.inl (hr.handles hmem)
  · refine Or.inr ⟨pl, P, m, ?_, hr.spot hspot, hP⟩
    rw [hr.occ pl P m hP hspot]
    exact hmem

/-- What a safe instance depends on is an anchored set that it does not belong to. -/
theorem Safe.exists_holders (hi : w.Safe i) (hw : w.Orderly) :
    ∃ K, w.Anchored K ∧ ¬ K i ∧ w.HeldBy K i := by
  let above (j : InstanceId) : Prop := w.Safe j ∧ TransGen (w.layout.Under w.occupants) i j
  have hstep (j : InstanceId) (hj : w.Safe j) (hij : ReflTransGen (w.layout.Under w.occupants) i j) :
      w.HeldBy above j := by
    obtain ⟨halive, hheld⟩ := w.anchored_safe j hj
    refine ⟨halive, ?_⟩
    rcases hheld with hmem | ⟨pl, P, m, hmem, hspot, hP⟩
    · exact Or.inl hmem
    · exact Or.inr ⟨pl, P, m, hmem, hspot, hP, TransGen.tail' hij ⟨pl, m, hmem, hspot⟩⟩
  refine ⟨above, fun j hj => hstep j hj.1 hj.2.to_reflTransGen, fun h => ?_, hstep i hi .refl⟩
  exact Layout.Linked.not_under_self hw.linked i h.2

/-! ## Edits -/

/-- Nothing happens but that the places of `T` get other occupants. -/
structure Edits (T : InstanceId) (w w' : World) : Prop where
  shape : w.SameShape w'
  alive : ∀ i, w'.isAlive i = w.isAlive i
  handles : w.SameHandles w'
  occ : ∀ pl P m, w.layout.spot pl = some (P, m) → P ≠ T → w'.occupants pl = w.occupants pl
  view : ∀ P, P ≠ T → w.layout.SameView w.forest w'.layout w'.forest P

namespace Edits

theorem rfl : w.Edits T w :=
  ⟨.rfl, fun _ => .refl _, .rfl, fun _ _ _ _ _ => .refl _, fun P _ => .refl _ _ P⟩

theorem trans (h : w.Edits T w') (h' : w'.Edits T w'') : w.Edits T w'' where
  shape := h.shape.trans h'.shape
  alive i := (h'.alive i).trans (h.alive i)
  handles := h.handles.trans h'.handles
  occ pl P m hspot hP := by
    have hspot' : w'.layout.spot pl = some (P, m) := by
      rw [h.shape.layout]
      exact hspot
    exact (h'.occ pl P m hspot' hP).trans (h.occ pl P m hspot hP)
  view P hP := by
    refine (h.view P hP).trans (fun r hr => ?_) (h'.view P hP)
    rw [h.shape.layout]
    exact hr

variable (h : w.Edits T w')

include h

theorem respects (hK : w.Anchored K) (hT : ¬ K T) : w.Respects K w' where
  toExtends := .of_sameShape h.shape
  pins := by
    rw [h.handles.pins]
    exact List.Subset.refl _
  registry := h.handles.registry
  alive P hP := by
    rw [h.alive]
    exact (hK P hP).1
  occ pl P m hP hspot := h.occ pl P m hspot fun hPT => hT (hPT ▸ hP)
  view P hP := h.view P fun hPT => hT (hPT ▸ hP)

end Edits

theorem Calm.edits (h : w.Calm w') : w.Edits T w' where
  shape := h.shape
  alive := h.alive
  handles := h.handles
  occ pl P m _ _ := by rw [h.occupants]
  view P _ := by
    rw [h.shape.layout]
    exact fun r n _ hn => ⟨hn.sameLinks h.links, h.links.children n⟩

/-! ## Tending -/

/-- The instances `H` are held by handles, and `T` is safe and of the class `c`. -/
structure Ready (T : InstanceId) (c : Class) (H : List InstanceId) (w : World) : Prop where
  orderly : w.Orderly
  handles : H ⊆ w.handles
  safe : w.Safe T
  cls : w.classOf? T = some c

theorem Ready.mono {H' : List InstanceId} (h : w.Ready T c H') (hH : H ⊆ H') : w.Ready T c H :=
  ⟨h.orderly, List.Subset.trans hH h.handles, h.safe, h.cls⟩

/-- From a world that is ready for it, the change keeps worlds orderly, respects every anchored set without
`T`, and leaves `T` in use if such a set holds it. -/
def Tends (T : InstanceId) (c : Class) (H : List InstanceId) (w w' : World) : Prop :=
  w.Ready T c H → w'.Orderly ∧ ∀ K, w.Anchored K → ¬ K T →
    w.Respects K w' ∧ (w.HeldBy K T → w'.isAlive T = true)

section

variable (h : w.Tends T c H w') (hw : w.Ready T c H)

include h hw

theorem Tends.extends : w.Extends w' := ((h hw).2 _ w.anchored_empty id).1.toExtends

/-- What tends `T` loses no handle, and `T` stays safe. -/
theorem Tends.ready : w'.Ready T c H where
  orderly := (h hw).1
  handles := List.Subset.trans hw.handles ((h hw).2 _ w.anchored_empty id).1.handles
  safe := by
    obtain ⟨K, hK, hKT, hheld⟩ := hw.safe.exists_holders hw.orderly
    obtain ⟨hr, halive⟩ := (h hw).2 K hK hKT
    exact (hheld.of_respects hr (halive hheld)).safe (hr.anchored hK)
  cls := (h.extends hw).classOf? hw.cls

end

instance : IsPreorder World (Tends T c H) where
  refl w hw := ⟨hw.orderly, fun _ hK _ => ⟨.refl hK, fun h => h.1⟩⟩
  trans a b d hab hbd ha := by
    obtain ⟨hd, hr'⟩ := hbd (hab.ready ha)
    refine ⟨hd, fun K hK hKT => ?_⟩
    obtain ⟨hKb, halive⟩ := (hab ha).2 K hK hKT
    obtain ⟨hKd, halive'⟩ := hr' K (hKb.anchored hK) hKT
    exact ⟨hKb.trans hKd, fun hheld => halive' (hheld.of_respects hKb (halive hheld))⟩

theorem Harmless.tends (h : w.Harmless H w') : w.Tends T c H w' := by
  intro hw
  obtain ⟨hw', hr⟩ := h hw.orderly hw.handles
  refine ⟨hw', fun K hK _ => ⟨hr K hK, fun hheld => ?_⟩⟩
  exact (hr _ (hheld.anchored hK)).alive T (Or.inr rfl)

theorem Edits.tends (h : w.Edits T w') (hw' : w'.Orderly) : w.Tends T c H w' :=
  fun _ => ⟨hw', fun _ hK hKT => ⟨h.respects hK hKT, fun hheld => (h.alive T).trans hheld.1⟩⟩

theorem Calm.tends (h : w.Calm w') : w.Tends T c H w' :=
  fun hw => h.edits.tends (h.orderly hw.orderly) hw

theorem CalmAt.tends (h : w.CalmAt T c w') : w.Tends T c H w' :=
  fun hw => (h hw.orderly.toBuilt hw.cls hw.safe.isAlive).tends hw

theorem Tends.mono {H' : List InstanceId} (h : w.Tends T c H w') (hH : H ⊆ H') : w.Tends T c H' w' :=
  fun hw => h (hw.mono hH)

/-! ## Handles -/

/-- Changing what is kept hold of keeps a world orderly if all of it is in use. -/
theorem Orderly.rehold (hw : w.Orderly) {ps : List Held} {g : Registry}
    (halive : ∀ j ∈ ({ w with pins := ps, registry := g } : World).handles, w.isAlive j = true) :
    ({ w with pins := ps, registry := g } : World).Orderly where
  toBuilt := hw.toBuilt.congr ⟨rfl, fun _ => rfl, fun _ => rfl, fun _ => rfl⟩ (fun _ => rfl) hw.collAlive
    fun _ => List.Subset.refl _
  linked := hw.linked
  handled := halive

/-- Keeping hold of more is harmless. -/
theorem respects_rehold (hK : w.Anchored K) {ps : List Held} (hps : w.pins ⊆ ps) :
    w.Respects K { w with pins := ps } where
  toExtends := ⟨rfl, fun _ x hx => ⟨x, hx, rfl⟩, fun _ x hx => ⟨x, hx, rfl⟩⟩
  pins := hps
  registry := rfl
  alive P hP := (hK P hP).1
  occ _ _ _ _ _ := rfl
  view P _ := .refl _ _ P

/-! ## Scopes -/

/-- At the end of a scope the handles of the surrounding code come back, with what the result refers to;
whatever respects a set so far still does. -/
theorem orderly_letGo (hw' : w'.Orderly) (hr : w.Respects (fun _ => False) w') {ps : List Held}
    (hps : ∀ i ∈ ps.filterMap Held.inst?, w'.isAlive i = true) :
    ({ w' with pins := ps ++ w.pins } : World).Orderly ∧
      ∀ K, w.Respects K w' → w.Respects K { w' with pins := ps ++ w.pins } := by
  refine ⟨hw'.rehold (g := w'.registry) fun j hj => ?_, fun K hK => ?_⟩
  · rcases List.mem_append.1 hj with hj | hj
    · rw [List.filterMap_append] at hj
      rcases List.mem_append.1 hj with hj | hj
      · exact hps j hj
      · refine hw'.handled j (hr.handles ?_)
        exact List.mem_append_left _ hj
    · exact hw'.handled j (List.mem_append_right _ hj)
  · exact ⟨⟨hK.classes, hK.inst, hK.coll⟩, List.subset_append_right _ _, hK.registry, hK.alive, hK.occ,
      hK.view⟩

/-- An instance that has been tended is safe when the code in progress lets go. -/
theorem Tends.letGo (h : w.Tends T c H w') (hw : w.Ready T c H) {ps : List Held}
    (hps : ∀ i ∈ ps.filterMap Held.inst?, w'.isAlive i = true) :
    ({ w' with pins := ps ++ w.pins } : World).Orderly ∧
      ({ w' with pins := ps ++ w.pins } : World).Safe T := by
  obtain ⟨hw₁, hr₁⟩ := h hw
  obtain ⟨hw₂, hr₂⟩ := orderly_letGo hw₁ (hr₁ _ w.anchored_empty id).1 hps
  obtain ⟨K, hK, hKT, hheld⟩ := hw.safe.exists_holders hw.orderly
  obtain ⟨hr, halive⟩ := hr₁ K hK hKT
  have hr := hr₂ K hr
  exact ⟨hw₂, (hheld.of_respects hr (halive hheld)).safe (hr.anchored hK)⟩

end World

namespace Run

open World

variable {α : Type} {T : InstanceId} {c : Class} {H : List InstanceId} {w : World} {body : Run α}
  {keep : α → List Held}

/-- A scope tends an instance if its body does and what the result refers to is in use. -/
theorem tends_keeping (hbody : w.Tends T c H (body w).2)
    (hkept : w.Ready T c H →
      ∀ i ∈ (keptBy keep (body w).1).filterMap Held.inst?, (body w).2.isAlive i = true) :
    w.Tends T c H (keeping keep body w).2 := by
  intro hw
  obtain ⟨hw₁, hr₁⟩ := hbody hw
  obtain ⟨hw₂, hr₂⟩ := orderly_letGo hw₁ (hr₁ _ w.anchored_empty id).1 (hkept hw)
  obtain ⟨hw₃, hr₃, -⟩ := hw₂.settle
  refine ⟨hw₃, fun K hK hKT => ?_⟩
  obtain ⟨hrespects, halive⟩ := hr₁ K hK hKT
  have hrespects₂ := hr₂ K hrespects
  have hK₂ := hrespects₂.anchored hK
  refine ⟨hrespects₂.trans (hr₃ K hK₂), fun hheld => ?_⟩
  -- in the scope the instance is held by what held it before, which comes back at its end
  have hheld₂ := hheld.of_respects hrespects₂ (halive hheld)
  exact (hr₃ _ (hheld₂.anchored hK₂)).alive T (Or.inr rfl)

end Run

end ReactiveView
