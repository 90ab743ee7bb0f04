import ReactiveView.Proofs.Closed.Operations
import ReactiveView.Proofs.Recovery.Settling

/-!
# Runs on loan

While instances are under construction, code runs in worlds on loan. A run *lends* (`Run.Lends`) when it ends
well in a world on loan, with the loose ends that are stated and a result as stated, or fails in a world on loan
with whatever loose ends. Either way what is finished stays so, and what is under construction stays under
construction (`World.Passes`).

Attaching and releasing only move instances (`World.Moved`): an occupant of a new place that is recorded there
is released without fail (`Loan.release`), and a loose end that is attached is loose no longer
(`Loan.attachAfter`).
-/

set_option autoImplicit false

namespace ReactiveView

namespace World

variable {w₀ w w' w'' : World} {loose loose' : Place → InstanceId → Prop} {occ : Place → List InstanceId}
  {i j P T : InstanceId} {pl : Place}

/-- There are no loose ends. -/
def tight : Place → InstanceId → Prop := fun _ _ => False

/-- There may be loose ends anywhere. -/
def slack : Place → InstanceId → Prop := fun _ _ => True

/-- There may be loose ends in one place. -/
def looseAt (pl : Place) (is : List InstanceId) : Place → InstanceId → Prop := fun p i => p = pl ∧ i ∈ is

theorem Underway.slack (h : w₀.Underway loose w) : w₀.Underway slack w := h.mono fun _ _ _ => trivial

/-! ## What passes -/

/-- The instance is under construction: new, kept hold of, in use and not finished. -/
structure Working (w₀ w : World) (T : InstanceId) : Prop where
  new : ¬ w₀.Knows T
  pinned : Held.inst T ∈ w.pins
  alive : w.isAlive T = true
  unbuilt : ¬ w.HasBuilt T

theorem Working.not_whole (h : w₀.Working w T) : ¬ w₀.Whole w T := fun hw => hw.elim h.new h.unbuilt

/-- What there is stays, and what is finished stays so. -/
structure Lasts (w w' : World) : Prop extends Extends w w' where
  built : ∀ i, w.HasBuilt i → w'.HasBuilt i

/-- What is under construction stays so, too. -/
structure Passes (w₀ w w' : World) : Prop extends Lasts w w' where
  working : ∀ T, w₀.Working w T → w₀.Working w' T

theorem Lasts.rfl : w.Lasts w := ⟨.rfl, fun _ h => h⟩

theorem Lasts.trans (h : w.Lasts w') (h' : w'.Lasts w'') : w.Lasts w'' :=
  ⟨h.toExtends.trans h'.toExtends, fun i hi => h'.built i (h.built i hi)⟩

theorem Passes.rfl : w₀.Passes w w := ⟨.rfl, fun _ h => h⟩

theorem Passes.trans (h : w₀.Passes w w') (h' : w₀.Passes w' w'') : w₀.Passes w w'' :=
  ⟨h.toLasts.trans h'.toLasts, fun T hT => h'.working T (h.working T hT)⟩

theorem SameRecords.lasts (h : w.SameRecords w') : w.Lasts w' :=
  ⟨.of_sameShape h.shape, fun i hi => (h.hasBuilt_iff i).2 hi⟩

theorem SameRecords.passes (h : w.SameRecords w') (hpins : w.pins ⊆ w'.pins)
    (halive : ∀ T, Held.inst T ∈ w.pins → w.isAlive T = true → w'.isAlive T = true) : w₀.Passes w w' :=
  ⟨h.lasts, fun T hT => ⟨hT.new, hpins hT.pinned, halive T hT.pinned hT.alive,
    fun hb => hT.unbuilt ((h.hasBuilt_iff T).1 hb)⟩⟩

theorem Whole.lasts (h : w₀.Whole w i) (hl : w.Lasts w') : w₀.Whole w' i := h.imp_right (hl.built i)

/-- The instances in a value were there or are finished. -/
def Fit (w₀ w : World) (v : Value) : Prop := ∀ j ∈ v.instances, w₀.Whole w j

theorem Fit.lasts {v : Value} (h : w₀.Fit w v) (hl : w.Lasts w') : w₀.Fit w' v :=
  fun j hj => (h j hj).lasts hl

theorem Lasts.classOf? (h : w.Lasts w') {c : Class} (hc : w.classOf? T = some c) : w'.classOf? T = some c :=
  h.toExtends.classOf? hc

/-- The record of an instance under construction. -/
theorem Loan.exists_record (h : w₀.Loan loose occ w) (hT : w₀.Working w T) {c : Class}
    (hc : w.classOf? T = some c) :
    ∃ x view, w.inst? T = some x ∧ w.class? x.classId = some c ∧ w.Formed T x c view := by
  obtain ⟨x, hx, hcx⟩ := exists_of_classOf? hc
  obtain ⟨c', view, hf⟩ := h.drafts.formed T x hT.new hx
  obtain rfl := Option.some.inj (hcx.symm.trans hf.cls)
  exact ⟨x, view, hx, hcx, hf⟩

/-! ## Changes that a loan does not see -/

/-- Nothing changes but pins, the log, the screen and attributes. -/
structure Still (w₀ w w' : World) : Prop where
  retains : w₀.Retains w → w₀.Retains w'
  records : w.SameRecords w'
  inst : ∀ i, (w'.inst? i).map (fun x => (x.alive, x.attachment)) =
    (w.inst? i).map fun x => (x.alive, x.attachment)
  items : ∀ c, (w'.coll? c).map (·.items) = (w.coll? c).map (·.items)
  pins : w.pins ⊆ w'.pins
  links : ∀ n, w'.forest.recorded? n = w.forest.recorded? n

instance : IsPreorder World (Still w₀) where
  refl _ := ⟨fun h => h, .rfl, fun _ => rfl, fun _ => rfl, List.Subset.refl _, fun _ => rfl⟩
  trans _ _ _ h h' := ⟨fun hr => h'.retains (h.retains hr), h.records.trans h'.records,
    fun i => (h'.inst i).trans (h.inst i), fun c => (h'.items c).trans (h.items c),
    fun _ hp => h'.pins (h.pins hp), fun n => (h'.links n).trans (h.links n)⟩

namespace Still

theorem isAlive (h : w₀.Still w w') (i : InstanceId) : w'.isAlive i = w.isAlive i := by
  have hi := congrArg (Option.map Prod.fst) (h.inst i)
  rw [Option.map_map, Option.map_map] at hi
  exact isAlive_congr hi

theorem underway (h : w₀.Still w w') (hu : w₀.Underway loose w) : w₀.Underway loose w' :=
  hu.congr (h.retains hu.toRetains) h.records h.inst h.items h.links

theorem passes (h : w₀.Still w w') : w₀.Passes w w' :=
  h.records.passes h.pins fun T _ hT => (h.isAlive T).trans hT

/-- Pins are added, or the log is written. -/
theorem of_same (hs : w'.screen = w.screen) (hc : w'.classes = w.classes) (hi : w'.instances = w.instances)
    (hk : w'.collections = w.collections) (hn : w'.spaces = w.spaces) (hr : w'.registry = w.registry)
    (hpins : w.pins ⊆ w'.pins) : w₀.Still w w' := by
  have hforest : w'.forest = w.forest := congrArg Screen.forest hs
  refine ⟨fun h => ?_, .of_same hc hi hk hn, fun i => ?_, fun c => ?_, hpins, fun n => ?_⟩
  · exact h.of_same hc hn hr hi hk (fun _ hp => hpins (h.pins hp)) (congrArg Forest.size hforest)
  · unfold inst?
    rw [hi]
  · unfold coll?
    rw [hk]
  · rw [hforest]

theorem mapScreen {f : Screen → Screen} (hf : w.screen.forest.SameLinks (f w.screen).forest) :
    w₀.Still w (w.mapScreen f) :=
  ⟨fun h => h.of_same rfl rfl rfl rfl rfl h.pins hf.size, .of_same rfl rfl rfl rfl, fun _ => rfl, fun _ => rfl,
    List.Subset.refl _, hf.recorded?⟩

/-- An attribute of a new instance is stored. -/
theorem storeAttr (hT : ¬ w₀.Knows T) (n : Nat) (v : Value) : w₀.Still w (w.storeAttr T n v) :=
  ⟨fun h => h.modifyInstance T fun hk => absurd hk hT, .modifyInstance w T fun _ => ⟨rfl, rfl, rfl⟩,
    map_inst?_modifyInstance _ (by exact fun _ => rfl) w T, fun _ => rfl, List.Subset.refl _, fun _ => rfl⟩

end Still

/-! ## Instances that are moved -/

/-- Nothing changes but attachments and the forest. -/
structure Moved (w w' : World) : Prop where
  records : w.SameRecords w'
  alive : ∀ i, (w'.inst? i).map (·.alive) = (w.inst? i).map (·.alive)
  collections : w'.collections = w.collections
  pins : w'.pins = w.pins

namespace Moved

theorem rfl : w.Moved w := ⟨.rfl, fun _ => .refl _, .refl _, .refl _⟩

theorem trans (h : w.Moved w') (h' : w'.Moved w'') : w.Moved w'' :=
  ⟨h.records.trans h'.records, fun i => (h'.alive i).trans (h.alive i), h'.collections.trans h.collections,
    h'.pins.trans h.pins⟩

theorem reattach (w : World) (i : InstanceId) (a : Option Attachment) (g : Forest → Forest) :
    w.Moved ((w.setAttachment i a).mapForest g) := by
  have hrecords : w.SameRecords (w.setAttachment i a) := .modifyInstance w i fun _ => ⟨.refl _, .refl _, .refl _⟩
  refine ⟨hrecords.trans (.of_same (.refl _) (.refl _) (.refl _) (.refl _)), fun j => ?_, .refl _, .refl _⟩
  exact map_inst?_setAttachment _ (fun _ _ => .refl _) w i a j

theorem mapForest (w : World) (g : Forest → Forest) : w.Moved (w.mapForest g) :=
  ⟨.of_same (.refl _) (.refl _) (.refl _) (.refl _), fun _ => .refl _, .refl _, .refl _⟩

variable (h : w.Moved w')

include h

theorem isAlive (i : InstanceId) : w'.isAlive i = w.isAlive i := isAlive_congr (h.alive i)

theorem passes : w₀.Passes w w' :=
  h.records.passes (h.pins ▸ List.Subset.refl _) fun T _ hT => (h.isAlive T).trans hT

theorem coll? (c : CollectionId) : w'.coll? c = w.coll? c := by
  unfold World.coll?
  rw [h.collections]

theorem occupants : w'.occupants = w.occupants :=
  occupants_congr h.records.shape h.alive h.records.values fun c => by rw [h.coll?]

theorem tended (ht : w₀.Tended w) : w₀.Tended w' := by
  intro c x hc hx hne
  rw [h.isAlive]
  rw [h.coll?] at hx
  exact ht c x hc hx hne

/-- A loan with the stored occupants stays one of this kind. -/
theorem underway (hu : w₀.Underway loose w) (hl : w₀.Loan loose' w.occupants w') : w₀.Underway loose' w' :=
  ⟨by rw [h.occupants]; exact hl, h.tended hu.tended⟩

end Moved

end World

namespace Run

open World

variable {α β : Type} {w₀ w w' : World} {loose loose' : Place → InstanceId → Prop}
  {occ : Place → List InstanceId} {i T : InstanceId} {pl : Place}

/-! ## The judgement -/

/-- How a run ends on a loan. -/
structure Lends (w₀ : World) (loose : Place → InstanceId → Prop) (m : Run α) (w : World)
    (Q : α → World → Prop) : Prop where
  passes : w₀.Passes w (m w).2
  ok : ∀ a, (m w).1 = .ok a → w₀.Underway loose (m w).2 ∧ Q a (m w).2
  error : ∀ e, (m w).1 = .error e → w₀.Underway slack (m w).2

namespace Lends

variable {m : Run α} {Q : α → World → Prop}

theorem of_ok {a : α} (hrun : m w = (.ok a, w')) (hp : w₀.Passes w w') (hu : w₀.Underway loose w')
    (hQ : Q a w') : Lends w₀ loose m w Q := by
  refine ⟨?_, fun b hb => ?_, fun e he => ?_⟩
  · rw [hrun]
    exact hp
  · rw [hrun] at hb ⊢
    obtain rfl := Except.ok.inj hb
    exact ⟨hu, hQ⟩
  · rw [hrun] at he
    cases he

theorem of_error {e : Halt} (hrun : m w = (.error e, w')) (hp : w₀.Passes w w') (hu : w₀.Underway loose' w') :
    Lends w₀ loose m w Q := by
  refine ⟨?_, fun b hb => ?_, fun _ _ => ?_⟩
  · rw [hrun]
    exact hp
  · rw [hrun] at hb
    cases hb
  · rw [hrun]
    exact hu.slack

theorem pure {a : α} (hu : w₀.Underway loose w) (hQ : Q a w) : Lends w₀ loose (Pure.pure a : Run α) w Q :=
  of_ok (pure_apply a w) .rfl hu hQ

theorem fail (e : Error) (hu : w₀.Underway loose' w) : Lends w₀ loose (Run.fail e : Run α) w Q :=
  of_error (fail_apply e w) .rfl hu

/-- A run that only reads. -/
theorem of_same (hrun : (m w).2 = w) (hu : w₀.Underway loose w) (hQ : ∀ a, m w = (.ok a, w) → Q a w) :
    Lends w₀ loose m w Q := by
  rcases hm : m w with ⟨e | a, w'⟩ <;> obtain rfl : w' = w := by rw [hm] at hrun; exact hrun
  · exact of_error hm .rfl hu
  · exact of_ok hm .rfl hu (hQ a hm)

/-- A run that changes nothing that a loan sees. -/
theorem of_still (hm : Keeps (Still w₀) m) (hu : w₀.Underway loose w) : Lends w₀ loose m w fun _ _ => True :=
  ⟨(hm w).passes, fun _ _ => ⟨(hm w).underway hu, trivial⟩, fun _ _ => ((hm w).underway hu).slack⟩

theorem imp {Q' : α → World → Prop} (h : Lends w₀ loose m w Q) (hQ : ∀ a, Q a (m w).2 → Q' a (m w).2) :
    Lends w₀ loose m w Q' :=
  ⟨h.passes, fun a ha => ⟨(h.ok a ha).1, hQ a (h.ok a ha).2⟩, h.error⟩

theorem bind {f : α → Run β} {R : β → World → Prop} (hm : Lends w₀ loose m w Q)
    (hf : ∀ a w', w₀.Underway loose w' → w₀.Passes w w' → Q a w' → Lends w₀ loose' (f a) w' R) :
    Lends w₀ loose' (m >>= f) w R := by
  rcases hrun : m w with ⟨e | a, w'⟩
  · have hp := hm.passes
    have hu := hm.error e (by rw [hrun])
    rw [hrun] at hp hu
    exact of_error (bind_of_error hrun) hp hu
  · have hp := hm.passes
    have hok := hm.ok a (by rw [hrun])
    rw [hrun] at hp hok
    have hrest := hf a w' hok.1 hp hok.2
    refine ⟨?_, fun b hb => ?_, fun e he => ?_⟩
    · rw [bind_of_ok hrun]
      exact hp.trans hrest.passes
    · rw [bind_of_ok hrun] at hb ⊢
      exact hrest.ok b hb
    · rw [bind_of_ok hrun] at he ⊢
      exact hrest.error e he

theorem map {R : β → World → Prop} (hm : Lends w₀ loose m w Q) (g : α → β)
    (hR : ∀ a w', Q a w' → R (g a) w') : Lends w₀ loose (g <$> m) w R := by
  rw [← bind_pure_comp]
  exact hm.bind fun a w' hu _ hQ => .pure hu (hR a w' hQ)

/-- What comes after a run that is known to end well. -/
theorem after {f : α → Run β} {R : β → World → Prop} {a : α} (hrun : m w = (.ok a, w')) (hp : w₀.Passes w w')
    (hf : Lends w₀ loose (f a) w' R) : Lends w₀ loose (m >>= f) w R := by
  refine ⟨?_, fun b hb => ?_, fun e he => ?_⟩
  · rw [bind_of_ok hrun]
    exact hp.trans hf.passes
  · rw [bind_of_ok hrun] at hb ⊢
    exact hf.ok b hb
  · rw [bind_of_ok hrun] at he ⊢
    exact hf.error e he

/-- Reading something that is there. -/
theorem bind_same {f : α → Run β} {R : β → World → Prop} {a : α} (hrun : m w = (.ok a, w))
    (hf : Lends w₀ loose (f a) w R) : Lends w₀ loose (m >>= f) w R :=
  .after hrun .rfl hf

/-- Reading something, if it is there. -/
theorem bind_read {f : α → Run β} {R : β → World → Prop} (hread : (m w).2 = w) (hu : w₀.Underway loose' w)
    (hf : ∀ a, m w = (.ok a, w) → Lends w₀ loose (f a) w R) : Lends w₀ loose (m >>= f) w R := by
  rcases hm : m w with ⟨e | a, w'⟩ <;> obtain rfl : w' = w := by rw [hm] at hread; exact hread
  · exact of_error (bind_of_error hm) .rfl hu
  · exact .bind_same hm (hf a hm)

theorem forM {f : β → Run Unit} {I : World → Prop} {as : List β} (hu : w₀.Underway loose w) (hI : I w)
    (hf : ∀ a ∈ as, ∀ w, w₀.Underway loose w → I w → Lends w₀ loose (f a) w fun _ w' => I w') :
    Lends w₀ loose (as.forM f) w fun _ w' => I w' := by
  induction as generalizing w with
  | nil => exact .pure hu hI
  | cons a as ih =>
    rw [forM_cons]
    refine (hf a List.mem_cons_self w hu hI).bind fun _ w' hu' _ hI' => ?_
    exact ih hu' hI' fun b hb => hf b (List.mem_cons_of_mem _ hb)

/-- A scope lets go of what its body kept hold of. -/
theorem keeping (hw₀ : w₀.Resting) {keep : α → List Held} {R : α → World → Prop} (h : Lends w₀ loose m w Q)
    (hpins : w₀.pins ⊆ w.pins) (hR : ∀ a w' w'', Q a w' → w'.Lasts w'' → R a w'') :
    Lends w₀ loose (Run.keeping keep m) w R := by
  have hlet (ps : List Held) (l : Place → InstanceId → Prop) (w' : World) (hu : w₀.Underway l w') :
      w₀.Underway l ({ w' with pins := ps ++ w.pins } : World).settle := by
    refine Underway.settle hw₀ (hu.congr ?_ (.of_same rfl rfl rfl rfl) (fun _ => rfl) (fun _ => rfl) fun _ => rfl)
    exact hu.toRetains.of_same rfl rfl rfl rfl rfl (fun _ hp => List.mem_append_right _ (hpins hp)) rfl
  have hlasts (ps : List Held) (w' : World) : w'.SameRecords ({ w' with pins := ps } : World).settle := by
    have hsame : w'.SameRecords { w' with pins := ps } := .of_same rfl rfl rfl rfl
    exact hsame.trans (upkeep_settle (R := SameRecords) _)
  refine ⟨?_, fun a ha => ?_, fun e he => ?_⟩
  · rw [keeping_apply]
    refine ⟨h.passes.toLasts.trans (hlasts _ _).lasts, fun T hT => ?_⟩
    have hT' := h.passes.working T hT
    have hpin : Held.inst T ∈ keptBy keep (m w).1 ++ w.pins := List.mem_append_right _ hT.pinned
    refine ⟨hT.new, ?_, isAlive_settle hpin hT'.alive, fun hb => hT'.unbuilt (((hlasts _ _).hasBuilt_iff T).1 hb)⟩
    rw [pins_settle]
    exact hpin
  · rw [keeping_apply] at ha ⊢
    obtain ⟨hu, hQ⟩ := h.ok a ha
    exact ⟨hlet _ _ _ hu, hR a _ _ hQ (hlasts _ _).lasts⟩
  · rw [keeping_apply] at he ⊢
    exact hlet _ _ _ (h.error e he)

theorem inScope (hw₀ : w₀.Resting) (h : Lends w₀ loose m w Q) (hpins : w₀.pins ⊆ w.pins)
    (hQ : ∀ a w' w'', Q a w' → w'.Lasts w'' → Q a w'') : Lends w₀ loose (Run.inScope m) w Q :=
  h.keeping hw₀ hpins hQ

end Lends

/-! ## Attaching and releasing -/

/-- Releasing an instance clears its record and takes its root out, as far as there are any. -/
theorem release_cases (i : InstanceId) (w : World) :
    (w.attachment? i = none ∧ ∃ e, release i w = (.error e, w)) ∨
      (∃ a, w.attachment? i = some a) ∧ ((∃ r, w.rootOf? i = some r ∧ release i w = (.ok (), w.taken i r)) ∨
        w.rootOf? i = none ∧ ∃ e, release i w = (.error e, w.setAttachment i none)) := by
  unfold release
  rw [bind_of_ok (get_apply w)]
  cases ha : w.attachment? i with
  | none =>
    refine Or.inl ⟨rfl, .failed (.releasedFree (w.className i)), ?_⟩
    have hnot : w.isAttached i = false := by
      unfold isAttached
      rw [ha]
      rfl
    rw [hnot, Bool.not_false, if_pos rfl, bind_of_ok (get_apply w), bind_of_error (fail_apply _ w)]
  | some a =>
    refine Or.inr ⟨⟨a, rfl⟩, ?_⟩
    have hatt : w.isAttached i = true := by
      unfold isAttached
      rw [ha]
      rfl
    have hroot := (sameShape_setAttachment w i none).rootOf? i
    rw [hatt, Bool.not_true, if_neg (by exact Bool.false_ne_true)]
    dsimp only
    rw [bind_of_ok (update_apply _ _)]
    cases hr : w.rootOf? i with
    | some r =>
      refine Or.inl ⟨r, rfl, ?_⟩
      rw [bind_of_ok (theRoot_of_root (hroot.trans hr)), update_apply]
      rfl
    | none =>
      refine Or.inr ⟨rfl, ?_⟩
      rcases theRoot_cases i (w.setAttachment i none) with ⟨r, hsome, -⟩ | ⟨e, he⟩
      · rw [hroot, hr] at hsome
        cases hsome
      · exact ⟨e, bind_of_error he⟩

/-- Attaching an instance fails and leaves it free, or records it in its place. -/
theorem attachAfter_outcome (i : InstanceId) (anchor : NodeId) (a : Attachment) (w : World) :
    (∃ r, w.attachment? i = none ∧ w.rootOf? i = some r ∧ attachAfter i anchor a w =
        (.ok (), (w.setAttachment i (some a)).mapForest fun f => (f.insertAfter anchor r).2)) ∨
      ∃ e g, attachAfter i anchor a w = (.error e, w.mapForest fun _ => g) ∧ g.size = w.forest.size ∧
        ∀ n, g.recorded? n = w.forest.recorded? n ∨ w.RootsFree n ∧ g.recorded? n = none := by
  have hsame {e : Halt} (h : attachAfter i anchor a w = (.error e, w)) :
      ∃ e g, attachAfter i anchor a w = (.error e, w.mapForest fun _ => g) ∧ g.size = w.forest.size ∧
        ∀ n, g.recorded? n = w.forest.recorded? n ∨ w.RootsFree n ∧ g.recorded? n = none :=
    ⟨e, w.forest, h, rfl, fun _ => Or.inl rfl⟩
  cases ha : w.attachment? i with
  | some b =>
    have hatt : w.isAttached i = true := by
      unfold isAttached
      rw [ha]
      rfl
    refine Or.inr (hsame (e := .failed (.inUse (w.className i))) ?_)
    unfold attachAfter
    rw [bind_of_ok (get_apply w), hatt, if_pos rfl, bind_of_ok (get_apply w), bind_of_error (fail_apply _ w)]
  | none =>
    have hatt : w.isAttached i = false := by
      unfold isAttached
      rw [ha]
      rfl
    rcases theRoot_cases i w with ⟨r, hr, hroot⟩ | ⟨e, hroot⟩
    · by_cases hout : w.forest.isInclusiveAncestor r anchor = true
      · refine Or.inr (hsame (e := .failed (.insideItself (w.className i))) ?_)
        unfold attachAfter checkOutside
        rw [bind_of_ok (get_apply w), hatt, if_neg (by exact Bool.false_ne_true)]
        dsimp only
        rw [bind_apply, bind_of_ok hroot, bind_of_ok (get_apply w), if_pos hout, bind_of_ok (get_apply w)]
        rfl
      · have hrun : attachAfter i anchor a w = (do
            edit fun f => f.insertAfter anchor r
            update fun w => w.setAttachment i (some a) : Run Unit) w := by
          unfold attachAfter checkOutside
          rw [bind_of_ok (get_apply w), hatt, if_neg (by exact Bool.false_ne_true)]
          dsimp only
          rw [bind_apply, bind_of_ok hroot, bind_of_ok (get_apply w), if_neg hout]
          dsimp only [pure_apply]
          rw [bind_of_ok hroot]
        rw [hrun]
        cases hedit : (w.forest.insertAfter anchor r).1 with
        | ok u =>
          refine Or.inl ⟨r, rfl, hr, ?_⟩
          have hok : edit (fun f => f.insertAfter anchor r) w =
              (.ok (), w.mapForest fun _ => (w.forest.insertAfter anchor r).2) := by
            rw [edit_apply, hedit]
            rfl
          rw [bind_of_ok hok]
          rfl
        | error e =>
          refine Or.inr ⟨.failed e, (w.forest.insertAfter anchor r).2, ?_, Forest.size_insertAfter _ _ _,
            fun n => ?_⟩
          have hfail : edit (fun f => f.insertAfter anchor r) w =
              (.error (.failed e), w.mapForest fun _ => (w.forest.insertAfter anchor r).2) := by
            rw [edit_apply, hedit]
            rfl
          · rw [bind_of_error hfail]
          · by_cases hnr : n = r
            · subst hnr
              exact (Forest.recorded?_insertAfter_of_error hedit).imp_right fun hnone => ⟨⟨i, ha, hr⟩, hnone⟩
            · exact Or.inl (Forest.recorded?_insertAfter_of_ne _ hnr)
    · refine Or.inr (hsame (e := e) ?_)
      unfold attachAfter checkOutside
      rw [bind_of_ok (get_apply w), hatt, if_neg (by exact Bool.false_ne_true)]
      dsimp only
      rw [bind_apply, bind_of_error hroot]

end Run

namespace World

open Run

variable {w₀ w : World} {occ : Place → List InstanceId} {is : List InstanceId} {i : InstanceId} {pl : Place}

/-- An occupant of a new place that is recorded there is released without fail. -/
theorem Loan.release (h : w₀.Loan (looseAt pl is) occ w) (hw₀ : w₀.Closed) (hpl : ¬ w₀.KnowsPlace pl)
    (hi : i ∈ occ pl) (hnot : i ∉ is) :
    ∃ w', Run.release i w = (.ok (), w') ∧ w.Moved w' ∧ w₀.Loan (looseAt pl (i :: is)) occ w' ∧
      w'.attachment? = Function.update w.attachment? i none := by
  have hstands : ∃ a, w.attachment? i = some a ∧ a.place = pl :=
    (h.ledger.stands pl i hpl hi).resolve_right fun hl => hnot hl.2.2
  obtain ⟨a, ha, rfl⟩ := hstands
  obtain ⟨r, hr⟩ := h.rooted _ i hpl hi
  have hplace (b : Attachment) (hb : w.attachment? i = some b) : b.place = a.place := by
    rw [Option.some.inj (ha.symm.trans hb)]
  rcases release_cases i w with ⟨hnone, -⟩ | ⟨-, ⟨r', hr', hrun⟩ | ⟨hnone, -⟩⟩
  · rw [hnone] at ha
    cases ha
  · obtain rfl := Option.some.inj (hr.symm.trans hr')
    refine ⟨w.taken i r, hrun, .reattach w i none _, h.taken hw₀ (fun b hb => hplace b hb ▸ hpl) ?_ ?_ hr,
      attachment?_setAttachment_none w i⟩
    · exact fun p j hl => ⟨hl.1, List.mem_cons_of_mem _ hl.2⟩
    · exact fun b hb => ⟨hplace b hb, List.mem_cons_self⟩
  · rw [hr] at hnone
    cases hnone

/-- So are several, and who was free or is released is free then. -/
theorem Loan.forM_release (hw₀ : w₀.Closed) (hpl : ¬ w₀.KnowsPlace pl) {js : List InstanceId}
    (hjs : ∀ j ∈ js, j ∈ occ pl ∧ j ∉ is) (hnodup : js.Nodup) (h : w₀.Loan (looseAt pl is) occ w) :
    ∃ w', js.forM Run.release w = (.ok (), w') ∧ w.Moved w' ∧ w₀.Loan (looseAt pl (js ++ is)) occ w' ∧
      ∀ j, w.attachment? j = none ∨ j ∈ js → w'.attachment? j = none := by
  induction js generalizing w is with
  | nil => exact ⟨w, rfl, .rfl, h, fun j hj => hj.resolve_right List.not_mem_nil⟩
  | cons j js ih =>
    obtain ⟨hj, hnot⟩ := hjs j List.mem_cons_self
    obtain ⟨w₁, hrun, hmoved, hloan, hatt⟩ := h.release hw₀ hpl hj hnot
    obtain ⟨hjnot, hnodup⟩ := List.nodup_cons.1 hnodup
    have hrest : ∀ k ∈ js, k ∈ occ pl ∧ k ∉ j :: is := by
      intro k hk
      obtain ⟨hocc, hnot'⟩ := hjs k (List.mem_cons_of_mem _ hk)
      refine ⟨hocc, fun hmem => ?_⟩
      rcases List.mem_cons.1 hmem with rfl | hmem
      · exact hjnot hk
      · exact hnot' hmem
    obtain ⟨w₂, hrun', hmoved', hloan', hfree⟩ := ih hrest hnodup hloan
    refine ⟨w₂, ?_, hmoved.trans hmoved', hloan'.mono fun p k hl => ⟨hl.1, ?_⟩, fun k hk => hfree k ?_⟩
    · rw [forM_cons, bind_of_ok hrun, hrun']
    · have hmem := hl.2
      simp only [List.mem_append, List.mem_cons] at hmem ⊢
      rcases hmem with hmem | rfl | hmem
      · exact Or.inl (Or.inr hmem)
      · exact Or.inl (Or.inl rfl)
      · exact Or.inr hmem
    · rw [hatt]
      by_cases hkj : k = j
      · subst hkj
        exact Or.inl (Function.update_self _ _ _)
      · rw [Function.update_of_ne hkj]
        exact hk.imp_right fun hmem => List.mem_of_ne_of_mem hkj hmem

/-- A loose end that is attached to its place is loose no longer, or nothing is recorded. -/
theorem Loan.attachAfter {a : Attachment} (h : w₀.Loan (looseAt a.place (i :: is)) occ w) (hw₀ : w₀.Closed)
    (hpl : ¬ w₀.KnowsPlace a.place) (hi : i ∈ occ a.place) (anchor : NodeId) :
    (∃ w', Run.attachAfter i anchor a w = (.ok (), w') ∧ w.Moved w' ∧ w₀.Loan (looseAt a.place is) occ w') ∨
      ∃ e w', Run.attachAfter i anchor a w = (.error e, w') ∧ w.Moved w' ∧
        ∀ loose occ, w₀.Loan loose occ w → w₀.Loan loose occ w' := by
  rcases attachAfter_outcome i anchor a w with ⟨r, hfree, hr, hrun⟩ | ⟨e, g, hrun, hsize, hlinks⟩
  · refine Or.inl ⟨_, hrun, .reattach w i (some a) _, h.taken_in hw₀ hfree hpl hi (fun p _ _ hl => hl.1) ?_ hr anchor⟩
    exact fun p j hne hl => ⟨hl.1, List.mem_of_ne_of_mem hne hl.2⟩
  · exact Or.inr ⟨e, _, hrun, .mapForest w _, fun loose occ hl => hl.uprooted hw₀ hsize hlinks⟩

end World

end ReactiveView
