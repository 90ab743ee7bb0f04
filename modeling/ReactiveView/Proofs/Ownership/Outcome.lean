import ReactiveView.Proofs.Ownership.Scope

/-!
# What runs end with

Two kinds of runs are told apart. A run that *yields* something does no harm to what is anchored, and its
result has a property (`Run.Yields`): finding the instance that a value stands for is of this kind. A run
that works on an instance *tends* it (`Run.Tending`): writing a property is of this kind. Neither raises a
range error; those are raised only by the edits of collections that name a position (`Run.Unranged`).

Both are inherited by what is put together from parts, in sequence (`Run.Yields.bind`, `Run.Tending.bind`)
and by scopes, where what the result refers to must be in use (`Run.Yields.keeping`,
`Run.Tending.keeping`).
-/

set_option autoImplicit false

namespace ReactiveView.Run

open World

variable {α β : Type} {T : InstanceId} {c : Class} {H : List InstanceId} {w : World}

/-! ## Range errors -/

/-- The result is not a range error. -/
def Unranged (r : Except Halt α) : Prop := ∀ e, r = .error (.failed e) → e.kind ≠ .rangeKind

theorem unranged_ok (a : α) : Unranged (.ok a : Except Halt α) := fun _ h => by cases h

theorem unranged_lost : Unranged (.error .lost : Except Halt α) := fun _ h => by cases h

theorem unranged_exhausted : Unranged (.error .exhausted : Except Halt α) := fun _ h => by cases h

theorem unranged_failed {e : Error} (h : e.kind ≠ .rangeKind) :
    Unranged (.error (.failed e) : Except Halt α) := fun e' he => by
  obtain rfl := Halt.failed.inj (Except.error.inj he)
  exact h

/-- An error passes on to a result of another type. -/
theorem Unranged.error {e : Halt} (h : Unranged (.error e : Except Halt α)) :
    Unranged (.error e : Except Halt β) := fun e' he => h e' (by rw [Except.error.inj he])

theorem unranged_ofOption (o : Option α) (w : World) : Unranged (ofOption o w).1 := by
  cases o with
  | none => exact unranged_lost
  | some a => exact unranged_ok a

theorem Unranged.bind {x : Run α} {f : α → Run β} (hx : Unranged (x w).1)
    (hf : ∀ a w', x w = (.ok a, w') → Unranged (f a w').1) : Unranged ((x >>= f) w).1 := by
  rcases hrun : x w with ⟨e | a, w'⟩
  · rw [hrun] at hx
    rw [bind_of_error hrun]
    exact hx.error
  · rw [bind_of_ok hrun]
    exact hf a w' hrun

/-! ## Runs that yield something -/

/-- The run does no harm and raises no range error; a result has the property `P` with the world that is
left behind. -/
structure Yields (m : Run α) (w : World) (P : α → World → Prop) : Prop where
  orderly : (m w).2.Orderly
  respects : ∀ K, w.Anchored K → w.Respects K (m w).2
  unranged : Unranged (m w).1
  result : ∀ a, (m w).1 = .ok a → P a (m w).2

namespace Yields

variable {m : Run α} {P : α → World → Prop}

theorem of_ok {a : α} (hw : w.Orderly) (hrun : m w = (.ok a, w)) (ha : P a w) : Yields m w P := by
  refine ⟨by rw [hrun]; exact hw, fun K hK => by rw [hrun]; exact .refl hK, ?_, ?_⟩
  · rw [hrun]
    exact unranged_ok a
  · intro b hb
    rw [hrun] at hb ⊢
    obtain rfl := Except.ok.inj hb
    exact ha

theorem of_error {e : Halt} (hw : w.Orderly) (hrun : m w = (.error e, w))
    (he : Unranged (.error e : Except Halt α)) : Yields m w P := by
  refine ⟨by rw [hrun]; exact hw, fun K hK => by rw [hrun]; exact .refl hK, by rw [hrun]; exact he, ?_⟩
  intro b hb
  rw [hrun] at hb
  cases hb

theorem bind {f : α → Run β} {Q : β → World → Prop} (hm : Yields m w P)
    (hf : ∀ a w', P a w' → w'.Orderly → w.Respects (fun _ => False) w' → Yields (f a) w' Q) :
    Yields (m >>= f) w Q := by
  obtain ⟨horderly, hrespects, hunranged, hresult⟩ := hm
  rcases hrun : m w with ⟨e | a, w'⟩
  · rw [hrun] at horderly hrespects hunranged
    refine ⟨?_, ?_, ?_, ?_⟩
    · rw [bind_of_error hrun]
      exact horderly
    · rw [bind_of_error hrun]
      exact hrespects
    · rw [bind_of_error hrun]
      exact hunranged.error
    · intro b hb
      rw [bind_of_error hrun] at hb
      cases hb
  · rw [hrun] at horderly hrespects hresult
    have hrest := hf a w' (hresult a rfl) horderly (hrespects _ w.anchored_empty)
    have hbind : (m >>= f) w = f a w' := bind_of_ok hrun
    refine ⟨?_, fun K hK => ?_, ?_, ?_⟩
    · rw [hbind]
      exact hrest.orderly
    · rw [hbind]
      exact (hrespects K hK).trans (hrest.respects K ((hrespects K hK).anchored hK))
    · rw [hbind]
      exact hrest.unranged
    · rw [hbind]
      exact hrest.result

theorem imp {Q : α → World → Prop} (h : Yields m w P) (hPQ : ∀ a, P a (m w).2 → Q a (m w).2) :
    Yields m w Q :=
  ⟨h.orderly, h.respects, h.unranged, fun a ha => hPQ a (h.result a ha)⟩

theorem and_respects (h : Yields m w P) :
    Yields m w fun a w' => P a w' ∧ w.Respects (fun _ => False) w' :=
  h.imp fun _ ha => ⟨ha, h.respects _ w.anchored_empty⟩

theorem harmless (h : Yields m w P) : w.Harmless H (m w).2 := fun _ _ => ⟨h.orderly, h.respects⟩

/-- A scope yields what its body does, if what the result refers to is in use. -/
theorem keeping {keep : α → List Held} {Q : α → World → Prop} (h : Yields m w P)
    (hkept : ∀ a w', P a w' → w'.Orderly → ∀ i ∈ (keep a).filterMap Held.inst?, w'.isAlive i = true)
    (hQ : ∀ a w' w'', P a w' → w'.Extends w'' → keep a ⊆ w''.pins → Q a w'') :
    Yields (keeping keep m) w Q := by
  obtain ⟨hw₁, hr₁, hunranged, hresult⟩ := h
  have hps : ∀ i ∈ (keptBy keep (m w).1).filterMap Held.inst?, (m w).2.isAlive i = true := by
    cases hrun : (m w).1 with
    | error e => exact fun i hi => by cases hi
    | ok a => exact hkept a _ (hresult a hrun) hw₁
  obtain ⟨hw₂, hr₂⟩ := orderly_letGo hw₁ (hr₁ _ w.anchored_empty) hps
  obtain ⟨hw₃, hr₃, -⟩ := hw₂.settle
  refine ⟨?_, fun K hK => ?_, ?_, fun a ha => ?_⟩
  · rw [keeping_apply]
    exact hw₃
  · rw [keeping_apply]
    have hrespects := hr₂ K (hr₁ K hK)
    exact hrespects.trans (hr₃ K (hrespects.anchored hK))
  · rw [keeping_apply]
    exact hunranged
  · rw [keeping_apply] at ha ⊢
    have hext : (m w).2.Extends { (m w).2 with pins := keptBy keep (m w).1 ++ w.pins } :=
      ⟨rfl, fun _ x hx => ⟨x, hx, rfl⟩, fun _ x hx => ⟨x, hx, rfl⟩⟩
    refine hQ a (m w).2 _ (hresult a ha) (hext.trans (hr₃ _ (anchored_empty _)).toExtends) ?_
    rw [pins_settle]
    dsimp only at ha ⊢
    rw [ha]
    exact List.subset_append_left _ _

end Yields

/-! ## Runs that tend an instance -/

/-- The run tends `T` and raises no range error. -/
structure Tending (T : InstanceId) (c : Class) (H : List InstanceId) (m : Run α) (w : World) : Prop where
  tends : w.Tends T c H (m w).2
  unranged : w.Ready T c H → Unranged (m w).1

namespace Tending

variable {m : Run α}

theorem of_same (hrun : (m w).2 = w) (hm : Unranged (m w).1) : Tending T c H m w :=
  ⟨by rw [hrun]; exact refl w, fun _ => hm⟩

theorem pure (a : α) : Tending T c H (Pure.pure a : Run α) w := of_same rfl (unranged_ok a)

theorem fail {e : Error} (he : e.kind ≠ .rangeKind) : Tending T c H (Run.fail e : Run α) w :=
  of_same rfl (unranged_failed he)

theorem bind {f : α → Run β} (hm : Tending T c H m w)
    (hf : ∀ a w', m w = (.ok a, w') → w'.Ready T c H → Tending T c H (f a) w') :
    Tending T c H (m >>= f) w := by
  by_cases hw : w.Ready T c H
  · have htends := hm.tends
    have hunranged := hm.unranged hw
    rcases hrun : m w with ⟨e | a, w'⟩
    · rw [hrun] at htends hunranged
      refine ⟨?_, fun _ => ?_⟩
      · rw [bind_of_error hrun]
        exact htends
      · rw [bind_of_error hrun]
        exact hunranged.error
    · rw [hrun] at htends
      have hrest := hf a w' hrun (htends.ready hw)
      refine ⟨?_, fun _ => ?_⟩
      · rw [bind_of_ok hrun]
        exact IsTrans.trans _ _ _ htends hrest.tends
      · rw [bind_of_ok hrun]
        exact hrest.unranged (htends.ready hw)
  · exact ⟨fun h => absurd h hw, fun h => absurd h hw⟩

/-- A part that leaves the world as it is. -/
theorem bind_same {f : α → Run β} {a : α} (hrun : m w = (.ok a, w)) (hf : Tending T c H (f a) w) :
    Tending T c H (m >>= f) w := by
  refine ⟨?_, ?_⟩
  · rw [bind_of_ok hrun]
    exact hf.tends
  · rw [bind_of_ok hrun]
    exact hf.unranged

theorem forM {f : β → Run Unit} {as : List β} (hf : ∀ a ∈ as, ∀ w, Tending T c H (f a) w) (w : World) :
    Tending T c H (as.forM f) w := by
  induction as generalizing w with
  | nil => exact pure ()
  | cons a as ih =>
    refine bind (hf a List.mem_cons_self w) fun _ w' _ _ => ?_
    exact ih (fun b hb => hf b (List.mem_cons_of_mem a hb)) w'

theorem tryCatch {f : Halt → Run α} (hm : Tending T c H m w)
    (hf : ∀ e w', m w = (.error e, w') → w'.Ready T c H → Tending T c H (f e) w') :
    Tending T c H (MonadExcept.tryCatch m f) w := by
  by_cases hw : w.Ready T c H
  · have htends := hm.tends
    have hunranged := hm.unranged hw
    rcases hrun : m w with ⟨e | a, w'⟩
    · rw [hrun] at htends
      have hrest := hf e w' hrun (htends.ready hw)
      have hcatch : (MonadExcept.tryCatch m f : Run α) w = f e w' := by
        refine (tryCatch_apply m f w).trans ?_
        rw [hrun]
      refine ⟨?_, fun _ => ?_⟩
      · rw [hcatch]
        exact IsTrans.trans _ _ _ htends hrest.tends
      · rw [hcatch]
        exact hrest.unranged (htends.ready hw)
    · have hcatch : (MonadExcept.tryCatch m f : Run α) w = m w := by
        refine (tryCatch_apply m f w).trans ?_
        rw [hrun]
      refine ⟨?_, fun _ => ?_⟩
      · rw [hcatch]
        exact htends
      · rw [hcatch]
        exact hunranged
  · exact ⟨fun h => absurd h hw, fun h => absurd h hw⟩

theorem tolerate {m : Run Unit} (hm : Tending T c H m w) : Tending T c H (Run.tolerate m) w := by
  refine hm.tryCatch fun e w' hrun hw' => ?_
  cases e with
  | failed e => exact pure ()
  | exhausted => exact of_same rfl unranged_exhausted
  | lost => exact of_same rfl unranged_lost

theorem keeping {keep : α → List Held} (hm : Tending T c H m w)
    (hkept : ∀ a w', m w = (.ok a, w') → w'.Ready T c H →
      ∀ i ∈ (keep a).filterMap Held.inst?, w'.isAlive i = true) :
    Tending T c H (keeping keep m) w := by
  have hunranged (hw : w.Ready T c H) : Unranged (Run.keeping keep m w).1 := by
    rw [keeping_apply]
    exact hm.unranged hw
  refine ⟨tends_keeping hm.tends fun hw i hi => ?_, hunranged⟩
  have hready := hm.tends.ready hw
  rcases hrun : m w with ⟨e | a, w'⟩
  · rw [hrun] at hi
    cases hi
  · rw [hrun] at hi hready
    exact hkept a w' hrun hready i hi

theorem inScope (hm : Tending T c H m w) : Tending T c H (inScope m) w :=
  hm.keeping fun _ _ _ _ i hi => by cases hi

/-- Calm writes. -/
theorem of_calmAt (hm : Keeps (CalmAt T c) m) (hu : w.Ready T c H → Unranged (m w).1) :
    Tending T c H m w :=
  ⟨(hm w).tends, hu⟩

theorem mono {H' : List InstanceId} (h : Tending T c H m w) (hH : H ⊆ H') : Tending T c H' m w :=
  ⟨h.tends.mono hH, fun hw => h.unranged (hw.mono hH)⟩

end Tending

/-- Finding something first. -/
theorem Yields.tending {m : Run α} {P : α → World → Prop} (h : w.Ready T c H → Yields m w P) :
    Tending T c H m w :=
  ⟨fun hw => (h hw).harmless.tends hw, fun hw => (h hw).unranged⟩

end ReactiveView.Run
