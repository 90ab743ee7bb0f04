import ReactiveView.Proofs.Recovery.Scripts

/-!
# Constructions that fail

A construction that fails sets free what the new instance has taken, as far as that goes: in the places of the
new instance and of those made on the way there may be loose ends (`Run.lends_releaseChildren`). Then the
failure leaves the construction, nothing new is kept hold of, and settling does the rest.

By induction on the depth of calls constructions lend, when no factories are involved and constructors write
only the new instance (`World.Unaided`, `Callbacks.lending_ofDepth`). So after a construction that fails
everything is as it was, if nothing was idle before (`World.Resting.untouched_of_error`), which is so in every
session (`Session.Reached.untouched_of_failed`).
-/

set_option autoImplicit false

namespace ReactiveView

open Relation

variable {w₀ w w' : World} {loose : Place → InstanceId → Prop} {T i : InstanceId} {c : Class} {pl : Place}
  {k : CollectionId} {x : Collection} {n : Nat}

/-! ## Setting free where there are loose ends -/

namespace World

open Run

/-- An occupant of a new place is released, or cannot be; either way it is free then. -/
theorem Underway.release_occupant (hu : w₀.Underway World.slack w) (hw₀ : w₀.Closed) (hpl : ¬ w₀.KnowsPlace pl)
    (hi : i ∈ w.occupants pl) : w.Moved (Run.release i w).2 ∧ w₀.Underway World.slack (Run.release i w).2 ∧
      (Run.release i w).2.attachment? = Function.update w.attachment? i none := by
  have hnew (a : Attachment) (ha : w.attachment? i = some a) : ¬ w₀.KnowsPlace a.place := by
    rw [hu.ledger.place_of_occupant hpl hi ha]
    exact hpl
  rcases release_cases i w with ⟨hnone, e, hrun⟩ | ⟨-, ⟨r, hr, hrun⟩ | ⟨hr, e, hrun⟩⟩
  · rw [hrun, ← hnone, Function.update_eq_self]
    exact ⟨.rfl, hu, rfl⟩
  · have hmoved : w.Moved (w.taken i r) := .reattach w i none _
    have hloan := hu.toLoan.taken hw₀ hnew (fun _ _ _ => trivial) (fun _ _ => trivial) hr
    rw [hrun]
    exact ⟨hmoved, hmoved.underway hu hloan, attachment?_setAttachment_none w i⟩
  · have hmoved : w.Moved (w.setAttachment i none) := .reattach w i none id
    have hloan := hu.toLoan.taken_rootless hw₀ hnew (fun _ _ _ => trivial) (fun _ _ => trivial) hr
    rw [hrun]
    exact ⟨hmoved, hmoved.underway hu hloan, attachment?_setAttachment_none w i⟩

/-- A new place is emptied when its occupants are free. -/
theorem Underway.put_none (hu : w₀.Underway World.slack w) (hT : w₀.Busy w T c) (howner : w.ownerOf? pl = some T)
    (hfree : ∀ j ∈ w.occupants pl, w.attachment? j = none) :
    w₀.Loan World.slack (Function.update w.occupants pl []) w := by
  refine hu.toLoan.put (hu.ledger.put List.nodup_nil (fun j a ha _ hj => ?_) (fun j hj => ?_) fun _ _ _ _ => trivial)
    hT.not_whole howner fun j hj => ?_
  · rw [hfree j hj] at ha
    cases ha
  · cases hj
  · cases hj

/-- A new instance is finished. -/
def finished (w : World) (i : InstanceId) : World := w.modifyInstance i fun x => { x with built := true }

theorem sameShape_finished (w : World) (i : InstanceId) : w.SameShape (w.finished i) :=
  sameShape_modifyInstance w i fun _ => rfl

theorem lasts_finished (w : World) (i : InstanceId) : w.Lasts (w.finished i) :=
  ⟨.of_sameShape (sameShape_finished w i), fun _ hb => hb.modifyInstance (by exact fun _ _ => rfl) i⟩

theorem hasBuilt_finished (hw : w.Extends w') (hi : w.isAlive i = true) : (w'.finished i).HasBuilt i := by
  obtain ⟨x, hx⟩ := Knows.exists_inst (lt_size_of_isAlive hi)
  obtain ⟨y, hy, -⟩ := hw.inst i x hx
  refine ⟨{ y with built := true }, ?_, rfl⟩
  unfold World.finished
  rw [inst?_modifyInstance_self, hy]
  rfl

theorem Passes.finished (h : w₀.Passes w w') (hi : w.inst? i = none) : w₀.Passes w (w'.finished i) := by
  refine ⟨h.toLasts.trans (lasts_finished w' i), fun T hT => ?_⟩
  have hne : i ≠ T := by
    rintro rfl
    have halive := hT.alive
    unfold isAlive at halive
    rw [hi] at halive
    cases halive
  have hT' := h.working T hT
  have hsame : (w'.finished i).inst? T = w'.inst? T := inst?_modifyInstance_of_ne w' _ hne
  refine ⟨hT'.new, hT'.pinned, ?_, fun ⟨x, hx, hb⟩ => hT'.unbuilt ⟨x, hsame ▸ hx, hb⟩⟩
  unfold isAlive
  rw [hsame]
  exact hT'.alive

theorem Underway.finished (hu : w₀.Underway loose w) (hi : ¬ w₀.Knows i) : w₀.Underway loose (w.finished i) := by
  have hs := sameShape_finished w i
  have hmap {α : Type} (g : Instance → α) (hg : ∀ x : Instance, g { x with built := true } = g x) (j : InstanceId) :
      ((w.finished i).inst? j).map g = (w.inst? j).map g := map_inst?_modifyInstance g hg w i j
  have hvalues := hmap (·.values) fun _ => rfl
  have hocc : (w.finished i).occupants = w.occupants :=
    occupants_congr hs (hmap (·.alive) fun _ => rfl) hvalues fun _ => rfl
  refine ⟨?_, fun d y hd hy hne => ?_⟩
  · rw [hocc]
    exact hu.toLoan.congr (hu.toRetains.modifyInstance i fun hk => absurd hk hi) hs (hu.drafts.congr hs hvalues)
      (funext fun j => attachment?_congr (hmap (·.attachment) (fun _ => rfl) j))
      (lasts_finished w i).built fun _ => rfl
  · rw [isAlive_congr (hmap (·.alive) (fun _ => rfl) y.owner)]
    exact hu.tended d y hd hy hne

/-- An instance is made. -/
theorem Underway.create (hu : w₀.Underway loose w) {id : ClassId} {view : View} {b b' : Building}
    (hj : w.Joins w' i id c view b b') (hc : w.class? id = some c) : w₀.Underway loose w' := by
  refine ⟨hu.toLoan.create hj hc, fun d x hd hx hne => ?_⟩
  rcases Nat.lt_or_ge d.index w.collections.size with hlt | hge
  · rw [hj.old d hlt] at hx
    exact (hj.isAlive_iff x.owner).2 (Or.inl (hu.tended d x hd hx hne))
  · exact absurd (hj.new_coll hge hx).2.1 hne

/-- A new instance that is kept hold of is under construction. -/
theorem Joins.busy {id : ClassId} {view : View} {b b' : Building} (hj : w.Joins w' i id c view b b')
    (hw : w₀.Retains w) (hc : w.class? id = some c) : w₀.Busy { w' with pins := .inst i :: w'.pins } i c := by
  obtain ⟨attrs, hself⟩ := hj.self
  refine ⟨⟨fun hknown => ?_, List.mem_cons_self, (hj.isAlive_iff i).2 (Or.inr rfl), fun ⟨x, hx, hb⟩ => ?_⟩, ?_⟩
  · obtain ⟨x, hx⟩ := hknown.exists_inst
    obtain ⟨a, ha⟩ := hw.inst i x hx
    rw [hj.fresh] at ha
    cases ha
  · obtain rfl := Option.some.inj (hself.symm.trans hx)
    cases hb
  · change (w'.inst? i).bind (fun x => w'.class? x.classId) = some c
    rw [hself, Option.bind_some, hj.class?, hc]

theorem Joins.passes {id : ClassId} {view : View} {b b' : Building} (hj : w.Joins w' i id c view b b') :
    w₀.Passes w w' := by
  have hold {T : InstanceId} {x : Instance} (hx : w.inst? T = some x) : w'.inst? T = w.inst? T := by
    refine hj.other T ?_
    rintro rfl
    rw [hj.fresh] at hx
    cases hx
  refine ⟨⟨hj.toExtends, fun T ⟨x, hx, hb⟩ => ⟨x, (hold hx).trans hx, hb⟩⟩, fun T hT => ?_⟩
  refine ⟨hT.new, hj.handles.pins ▸ hT.pinned, (hj.isAlive_iff T).2 (Or.inl hT.alive), fun ⟨x, hx, hb⟩ => ?_⟩
  obtain ⟨y, hy⟩ := Knows.exists_inst (lt_size_of_isAlive hT.alive)
  rw [hold hy] at hx
  exact hT.unbuilt ⟨x, hx, hb⟩

end World

namespace Run

open World Host

theorem Lends.catching {α : Type} {m : Run α} {f : Halt → Run α} {Q : α → World → Prop} (hm : Lends w₀ loose m w Q)
    (hf : ∀ e w', w₀.Underway slack w' → w₀.Passes w w' → Lends w₀ loose (f e) w' Q) :
    Lends w₀ loose (tryCatch m f) w Q := by
  have hrun := tryCatch_apply m f w
  rcases hcase : m w with ⟨e | a, w'⟩
  · rw [hcase] at hrun
    dsimp only at hrun
    have hp := hm.passes
    have hu := hm.error e (by rw [hcase])
    rw [hcase] at hp hu
    have hrest := hf e w' hu hp
    refine ⟨?_, fun a ha => ?_, fun e' he => ?_⟩
    · rw [hrun]
      exact hp.trans hrest.passes
    · rw [hrun] at ha ⊢
      exact hrest.ok a ha
    · rw [hrun] at he ⊢
      exact hrest.error e' he
  · rw [hcase] at hrun
    have hsame : tryCatch m f w = m w := by rw [hrun, hcase]
    refine ⟨?_, fun a ha => ?_, fun e' he => ?_⟩
    · rw [hsame]
      exact hm.passes
    · rw [hsame] at ha ⊢
      exact hm.ok a ha
    · rw [hsame] at he ⊢
      exact hm.error e' he

theorem Lends.tolerate {m : Run Unit} (hm : Lends w₀ slack m w fun _ _ => True) :
    Lends w₀ slack (Run.tolerate m) w fun _ _ => True := by
  refine hm.catching fun e w' hu _ => ?_
  cases e with
  | failed e => exact .pure hu trivial
  | exhausted => exact .of_error (throw_apply _ w') .rfl hu
  | lost => exact .of_error (throw_apply _ w') .rfl hu

/-- What is tolerated changes the world as it does otherwise. -/
theorem tolerate_cases (m : Run Unit) (w : World) :
    Run.tolerate m w = (.ok (), (m w).2) ∨ ∃ e, Run.tolerate m w = (.error e, (m w).2) := by
  unfold Run.tolerate
  rw [tryCatch_apply]
  rcases m w with ⟨(_ | _ | _) | u, w'⟩
  · exact Or.inl rfl
  · exact Or.inr ⟨_, rfl⟩
  · exact Or.inr ⟨_, rfl⟩
  · exact Or.inl rfl

/-- Occupants of a new place are released one after the other. -/
theorem lends_forM_release (hw₀ : w₀.Closed) (hpl : ¬ w₀.KnowsPlace pl) {is : List InstanceId}
    (his : ∀ j ∈ is, j ∈ w.occupants pl) (hu : w₀.Underway slack w) :
    Lends w₀ slack (is.forM release) w fun _ w' => w.Moved w' ∧
      ∀ j, w.attachment? j = none ∨ j ∈ is → w'.attachment? j = none := by
  induction is generalizing w with
  | nil => exact .pure hu ⟨.rfl, fun j hj => hj.resolve_right List.not_mem_nil⟩
  | cons i is ih =>
    rw [forM_cons]
    obtain ⟨hmoved, hu₁, hatt⟩ := hu.release_occupant hw₀ hpl (his i List.mem_cons_self)
    rcases hrun : release i w with ⟨e | u, w₁⟩ <;> rw [hrun] at hmoved hu₁ hatt
    · exact .of_error (bind_of_error hrun) hmoved.passes hu₁
    · have hrest := ih (fun j hj => by rw [hmoved.occupants]; exact his j (List.mem_cons_of_mem _ hj)) hu₁
      refine .after hrun hmoved.passes (hrest.imp fun _ ⟨hmoved', hfree⟩ => ⟨hmoved.trans hmoved', fun j hj => hfree j ?_⟩)
      dsimp only at hatt
      rw [hatt]
      by_cases hji : j = i
      · subst hji
        exact Or.inl (Function.update_self _ _ _)
      · rw [Function.update_of_ne hji]
        exact hj.imp_right (List.mem_of_ne_of_mem hji)

/-- A collection of an instance under construction is emptied. -/
theorem lends_replaceAll_nil (cb : Callbacks) (hw₀ : w₀.Resting) (hu : w₀.Underway slack w) (hT : w₀.Busy w T c)
    (hx : w.coll? k = some x) (howner : x.owner = T) :
    Lends w₀ slack (replaceAll cb k []) w fun _ _ => True := by
  have hk := hu.not_knowsColl_of_owner hw₀.toClosed hx (howner ▸ hT.new)
  have hpl : ¬ w₀.KnowsPlace (.sequence k) := hk
  have hownerOf : w.ownerOf? (.sequence k) = some T := by
    change (w.coll? k).map (·.owner) = _
    rw [hx, ← howner]
    rfl
  refine .bind_same (ask_apply _ w) ?_
  rw [splice_eq]
  refine Lends.keeping hw₀ (Q := fun _ _ => True) ?_ hu.pins fun _ _ _ _ _ => trivial
  unfold spliceBody
  refine .bind_same (get_apply w) (.bind_same (theCollection_of hx) (.bind_same (pure_apply _ w) ?_))
  unfold spliceItems
  refine .bind_same (ask_apply _ w) (.bind_same (pure_apply _ w) ?_)
  generalize hremoved : (w.itemsOf k).drop (min 0 (w.itemsOf k).length) = removed
  rw [Nat.zero_min, List.drop_zero] at hremoved
  subst hremoved
  generalize hcount : min (w.itemsOf k).length ((w.itemsOf k).length - min 0 (w.itemsOf k).length) = count
  rw [Nat.zero_min, Nat.sub_zero, Nat.min_self] at hcount
  subst hcount
  rw [List.take_length]
  have hitems : ∀ j ∈ w.itemsOf k, j ∈ w.occupants (.sequence k) := fun j hj => hj
  refine (lends_forM_release hw₀.toClosed hpl hitems hu).bind fun _ w₁ hu₁ hp₁ ⟨hmoved, hfree⟩ => ?_
  have hT₁ := hT.passes hp₁
  have hnil : spliced (w.itemsOf k) (min 0 (w.itemsOf k).length) (w.itemsOf k).length [] = [] := by
    unfold spliced
    simp
  have hnone : ∀ j ∈ w₁.occupants (.sequence k), w₁.attachment? j = none := fun j hj => by
    rw [hmoved.occupants] at hj
    exact hfree j (Or.inr hj)
  have hput := hu₁.put_none hT₁ ((ownerOf?_congr hmoved.records.shape _).trans hownerOf) hnone
  obtain ⟨hu₂, hp₂⟩ := hput.setItems hu₁.tended hk ((hmoved.coll? k).trans hx) (howner ▸ hT₁.alive)
  rw [hnil]
  refine .after (update_apply _ _) hp₂ ?_
  refine .bind_read (keeps_nodeBefore (R := Eq) _ _ _ _).symm hu₂ fun anchor _ => ?_
  exact .bind_same (pure_apply _ _) (.pure hu₂ trivial)

/-- What stands in a property of an instance under construction is set free. -/
theorem lends_releaseChild (cb : Callbacks) (hw₀ : w₀.Resting) (hu : w₀.Underway slack w) (hT : w₀.Busy w T c)
    {v : Value} (hv : w.valueAt? T n = some v) :
    Lends w₀ slack (releaseChild cb T n v) w fun _ _ => True := by
  obtain ⟨y, view, hy, -, hf⟩ := hu.exists_record hT.toWorking hT.cls
  have hval : y.values[n]? = some v := by
    unfold valueAt? at hv
    rw [hy] at hv
    exact hv
  obtain ⟨p, site, hp, -, hfits⟩ := hf.exists_fits hval
  generalize hk : p.kind = kind at hfits
  cases hfits with
  | primitive hprim => cases v <;> first | exact .pure hu trivial | cases hprim
  | empty => exact .pure hu trivial
  | @child _ _ _ child =>
    obtain ⟨m, sink, old, -, hold, hocc, -⟩ := hf.exists_slot hy hp (hu.valid hw₀ hT) hT.alive hk
    obtain rfl := Option.some.inj (hval.symm.trans hold)
    have hpl : ¬ w₀.KnowsPlace (.slot T p.name) := hT.new
    have hocc : w.occupants (.slot T p.name) = [child] := hocc
    have hchild : child ∈ w.occupants (.slot T p.name) := by
      rw [hocc]
      exact List.mem_singleton_self child
    obtain ⟨hmoved, hu₁, hatt⟩ := hu.release_occupant hw₀.toClosed hpl hchild
    have hT₁ := hT.passes hmoved.passes
    obtain ⟨y₁, view₁, hy₁, -, hf₁⟩ := hu₁.exists_record hT₁.toWorking hT₁.cls
    have hput := hu₁.put_none hT₁ rfl fun j hj => by
      rw [hmoved.occupants, hocc] at hj
      rw [List.mem_singleton.1 hj, hatt, Function.update_self]
    obtain ⟨hu₂, hp₂⟩ := Loan.storeValue (v := .null) hw₀ hput hu₁.tended hT₁ hy₁ hf₁ hp
      (fun element hs => by rw [hk] at hs; cases hs) fun s old hfits => by
        rw [hk] at hfits ⊢
        cases hfits <;> exact .empty
    rcases tolerate_cases (release child) w with hrun | ⟨e, hrun⟩
    · exact .after hrun hmoved.passes (.of_ok (update_apply _ _) hp₂ hu₂ trivial)
    · exact .of_error (bind_of_error hrun) hmoved.passes hu₁
  | sequence hx howner =>
    exact ((lends_replaceAll_nil cb hw₀ hu hT hx howner).bind fun _ _ hu' _ _ => .pure hu' trivial).tolerate

theorem lends_forM_releaseChild (cb : Callbacks) (hw₀ : w₀.Resting) {es : List (Value × Nat)}
    (hnodup : (es.map (·.2)).Nodup) (hes : ∀ e ∈ es, w.valueAt? T e.2 = some e.1) (hu : w₀.Underway slack w)
    (hT : w₀.Busy w T c) :
    Lends w₀ slack (es.forM fun e => releaseChild cb T e.2 e.1) w fun _ _ => True := by
  induction es generalizing w with
  | nil => exact .pure hu trivial
  | cons e es ih =>
    obtain ⟨hnot, hnodup⟩ := List.nodup_cons.1 hnodup
    have hchild : Lends w₀ slack (releaseChild cb T e.2 e.1) w fun _ => StaysBeside T e.2 w :=
      (lends_releaseChild cb hw₀ hu hT (hes e List.mem_cons_self)).imp
        fun _ _ => staysBeside_releaseChild cb T e.2 e.1 w
    refine hchild.bind fun _ w' hu' hp' hstays => ih hnodup (fun e' he' => ?_) hu' (hT.passes hp')
    have hne : e'.2 ≠ e.2 := fun heq => hnot (List.mem_map.2 ⟨e', he', heq⟩)
    rw [hstays e'.2 hne, hes e' (List.mem_cons_of_mem e he')]

/-- What an instance under construction has taken is set free one property after the other. -/
theorem lends_releaseChildren (cb : Callbacks) (hw₀ : w₀.Resting) (hu : w₀.Underway slack w) (hT : w₀.Busy w T c) :
    Lends w₀ slack (releaseChildren cb T) w fun _ _ => True := by
  obtain ⟨y, -, hy, -, -⟩ := hu.exists_record hT.toWorking hT.cls
  refine .bind_same (theInstance_of hy) (lends_forM_releaseChild cb hw₀ ?_ (fun e he => ?_) hu hT)
  · rw [List.zipIdx_map_snd]
    exact List.nodup_range'
  · unfold valueAt?
    rw [hy]
    exact List.mem_zipIdx_iff_getElem?.1 he

/-! ## The initial state -/

theorem keeps_still_flushQueue (q : QueueId) : Keeps (Still w₀) (flushQueue q) :=
  fun w => .mapScreen (f := fun s => (s.flush q).2) (w.screen.sameLinks_flush q)

section Populate

variable {cb : Callbacks} {able : ClassId → Prop} {methods : List String} (hw₀ : w₀.Resting)
  (hcb : cb.Lending w₀ able) (hc : c.Sparing able methods) {fields : Dict String Value}

include hw₀ hcb hc

theorem lends_initializeProperty (hu : w₀.Underway tight w) (hT : w₀.Busy w T c)
    (hfields : w₀.Fit w (.object fields)) {p : PropertyDescriptor} (hp : p.default.Plain) :
    Lends w₀ tight (initializeProperty cb T fields p) w fun _ _ => True := by
  unfold initializeProperty
  cases hget : fields.get? p.name with
  | none =>
    refine lends_setProperty hw₀ hcb hc.makes hu hT p.name fun j hj => ?_
    rw [hp.instances] at hj
    cases hj
  | some given =>
    dsimp only
    cases hinit : initialValue p given with
    | error e => exact .of_error rfl .rfl hu
    | ok v =>
      refine .bind_same (ofExcept_ok v w) (lends_setProperty hw₀ hcb hc.makes hu hT p.name fun j hj => ?_)
      exact hfields j (Value.instances_subset_fields (Dict.mem_of_get? hget) (instances_initialValue hp hinit hj))

/-- An instance under construction gets its initial state. -/
theorem lends_giveInitialState (hscripts : cb.LendingScripts w₀ able)
    (hconstructors : ∀ s ∈ c.constructors, ownScript methods s = true) (hu : w₀.Underway tight w)
    (hT : w₀.Busy w T c) (hfields : w₀.Fit w (.object fields)) :
    Lends w₀ tight (giveInitialState cb T c fields) w fun _ _ => True := by
  have hvalid := hu.valid hw₀ hT
  refine (Lends.of_still (Keeps.forM (fun a => ?_) _) hu).bind fun _ w₁ hu₁ hp₁ _ => ?_
  · exact still_setAttribute hT.new a.name a.default
  refine (Lends.forM (I := fun w => w₀.Busy w T c ∧ w₀.Fit w (.object fields)) hu₁
    ⟨hT.passes hp₁, hfields.lasts hp₁.toLasts⟩ fun p hp w hu ⟨hT, hfields⟩ => ?_).bind fun _ w₂ hu₂ _ ⟨hT₂, _⟩ => ?_
  · have hinit := lends_initializeProperty hw₀ hcb hc hu hT hfields (hvalid.descriptor.sound p hp).default
    exact hinit.imp fun _ _ => ⟨hT.passes hinit.passes, hfields.lasts hinit.passes.toLasts⟩
  refine (Lends.of_carries (Keeps.forM (fun name => ?_) _) hu₂ hT₂).bind fun _ w₃ hu₃ hp₃ _ => ?_
  · exact (bears_carries hw₀).keeps_recomputeBinding hvalid name
  exact lends_runConstructors hscripts hc hconstructors hu₃ (hT₂.passes hp₃)

/-- The initial state is given, or what has been taken is set free again. -/
theorem lends_initialState (hscripts : cb.LendingScripts w₀ able)
    (hconstructors : ∀ s ∈ c.constructors, ownScript methods s = true) (hu : w₀.Underway tight w)
    (hT : w₀.Busy w T c) (hfields : w₀.Fit w (.object fields)) :
    Lends w₀ tight (tryCatch (giveInitialState cb T c fields) fun h => do
      releaseChildren cb T
      let _ ← flushQueue c.queue
      throw h) w fun _ _ => True := by
  have hgive := lends_giveInitialState hw₀ hcb hc hscripts hconstructors hu hT hfields
  refine hgive.catching fun e w' hu' hp' => ?_
  refine (lends_releaseChildren cb hw₀ hu' (hT.passes hp')).bind fun _ w₂ hu₂ _ _ => ?_
  exact (Lends.of_still (keeps_still_flushQueue c.queue) hu₂).bind fun _ w₃ hu₃ _ _ =>
    .of_error (throw_apply e w₃) .rfl hu₃

/-- A new instance is made and gets its initial state. -/
theorem lends_create_populate (hscripts : cb.LendingScripts w₀ able)
    (hconstructors : ∀ s ∈ c.constructors, ownScript methods s = true) {id : ClassId} (hid : w.class? id = some c)
    (hu : w₀.Underway tight w) (hfields : w₀.Fit w (.object fields)) :
    Lends w₀ tight (create id c >>= fun i => populate cb i c fields) w fun i w' => w'.HasBuilt i := by
  cases hcreate : w.createInstance id c.descriptor with
  | error e =>
    refine .of_error (bind_of_error (e := .failed e) ?_) .rfl hu
    unfold create
    rw [bind_of_ok (get_apply w), hcreate]
    rfl
  | ok made =>
    obtain ⟨i, w₁⟩ := made
    obtain ⟨-, view, b, b', hj⟩ := createInstance_joins hcreate
    have hrun : create id c w = (.ok i, { w₁ with pins := .inst i :: w₁.pins }) := by
      unfold create
      rw [bind_of_ok (get_apply w), hcreate]
      rfl
    generalize hw₂ : ({ w₁ with pins := .inst i :: w₁.pins } : World) = w₂ at hrun
    have hpin : w₀.Still w₁ w₂ := hw₂ ▸ .of_same rfl rfl rfl rfl rfl rfl (List.subset_cons_self _ _)
    have hu₂ := hpin.underway (hu.create hj hid)
    have hp₂ : w₀.Passes w w₂ := hj.passes.trans hpin.passes
    have hT : w₀.Busy w₂ i c := hw₂ ▸ hj.busy hu.toRetains hid
    have hinit := lends_initialState hw₀ hcb hc hscripts hconstructors hu₂ hT (hfields.lasts hp₂.toLasts)
    unfold populate
    rcases hcase : (tryCatch (giveInitialState cb i c fields) fun h => do
      releaseChildren cb i
      let _ ← flushQueue c.queue
      throw h : Run Unit) w₂ with ⟨e | u, w₃⟩
    all_goals have hp₃ := hinit.passes
    · have hu₃ := hinit.error e (by rw [hcase])
      rw [hcase] at hp₃ hu₃
      refine .of_error (?_ : _ = (Except.error e, w₃)) (hp₂.trans hp₃) hu₃
      rw [bind_of_ok hrun, bind_of_error hcase]
    · obtain ⟨hu₃, -⟩ := hinit.ok u (by rw [hcase])
      rw [hcase] at hp₃ hu₃
      have hflush : w₀.Still w₃ (flushQueue c.queue w₃).2 := keeps_still_flushQueue c.queue w₃
      have hp₄ := (hp₂.trans hp₃).trans hflush.passes
      refine .of_ok (?_ : _ = (Except.ok i, ((flushQueue c.queue w₃).2).finished i)) (hp₄.finished hj.fresh)
        ((hflush.underway hu₃).finished hT.new) ?_
      · rw [bind_of_ok hrun, bind_of_ok hcase]
        rfl
      · exact hasBuilt_finished (hp₃.trans hflush.passes).toExtends hT.alive

theorem lends_constructConcrete (hscripts : cb.LendingScripts w₀ able)
    (hconstructors : ∀ s ∈ c.constructors, ownScript methods s = true) {id : ClassId} (hid : w.class? id = some c)
    (hu : w₀.Underway tight w) {init : Option Value} (hinit : ∀ v ∈ init, w₀.Fit w v) :
    Lends w₀ tight (constructConcrete cb id c init) w fun i w' => w'.HasBuilt i := by
  unfold constructConcrete
  cases hfields : initialFields c.name init with
  | error e => exact .of_error rfl .rfl hu
  | ok fields =>
    have hfit : w₀.Fit w (.object fields) := by
      rcases (initialFields_eq_ok_iff c.name init fields).1 hfields with ⟨rfl, -⟩ | rfl
      · exact fun j hj => by cases hj
      · exact hinit (.object fields) rfl
    refine .bind_same (ofExcept_ok fields w) ?_
    split
    · exact .fail _ hu
    · exact lends_create_populate hw₀ hcb hc hscripts hconstructors hid hu hfit

end Populate

end Run

/-! ## Classes that construct without help -/

/-- A class makes instances of another for one of its properties. -/
def World.Involves (w : World) (id id' : ClassId) : Prop :=
  ∃ c, w.class? id = some c ∧ ∃ p ∈ c.descriptor.properties, p.kind.Makes id'

/-- No factory is involved in constructing an instance of the class, and the constructors that run write only
the new instance. -/
def World.Unaided (w : World) (id : ClassId) : Prop :=
  ∀ id' c, ReflTransGen w.Involves id id' → w.class? id' = some c →
    (c.descriptor.isAbstract = true → c.factory = none) ∧ c.WritesOwn

namespace Run

open World Host

variable {cb : Callbacks} {able : ClassId → Prop} {id : ClassId} {init : Option Value}

theorem lends_construction (hw₀ : w₀.Resting) (hcb : cb.Lending w₀ w₀.Unaided) (hscripts : cb.LendingScripts w₀ w₀.Unaided)
    (hid : w₀.Unaided id) (hu : w₀.Underway tight w) (hinit : ∀ v ∈ init, w₀.Fit w v) :
    Lends w₀ tight (construction cb id init) w fun i w' => w'.HasBuilt i := by
  unfold construction
  cases hc : w.class? id with
  | none =>
    exact .of_error (bind_of_error (theClass_of_none hc)) .rfl hu
  | some c =>
    have hc₀ : w₀.class? id = some c := by
      unfold class? at hc ⊢
      rw [← hu.classes]
      exact hc
    obtain ⟨hfactory, methods, hconstructors, hmethods⟩ := hid id c .refl hc₀
    refine .bind_same (theClass_of hc) ?_
    split
    · next habstract =>
      rw [hfactory habstract]
      exact .fail _ hu
    · refine lends_constructConcrete hw₀ hcb ⟨fun p hp id' hmakes => ?_, hmethods⟩ hscripts hconstructors hc hu hinit
      exact fun id'' c' hreach => hid id'' c' (.head ⟨c, hc₀, p, hp, hmakes⟩ hreach)

end Run

/-- Constructions and scripts lend, however deeply they nest. -/
theorem Callbacks.lending_ofDepth (hw₀ : w₀.Resting) (depth : Nat) :
    (Callbacks.ofDepth depth).Lending w₀ w₀.Unaided ∧ (Callbacks.ofDepth depth).LendingScripts w₀ w₀.Unaided := by
  induction depth with
  | zero => exact ⟨fun id init w _ hu _ => .of_error rfl .rfl hu, fun frame script methods c w _ _ _ hu _ => .of_error rfl .rfl hu⟩
  | succ depth ih =>
    obtain ⟨hcb, hscripts⟩ := ih
    refine ⟨fun id init w hid hu hinit => ?_, fun frame script methods c w hc hown hchain hu hf => ?_⟩
    · exact (Run.lends_construction hw₀ hcb hscripts hid hu hinit).keeping hw₀ hu.pins fun i w' w'' hi hl => hl.built i hi
    · exact Run.lends_runScript hw₀ hcb hscripts hc hchain script hown hu hf

/-- At first nothing is lent. -/
theorem World.Underway.start : w.Underway loose w where
  toLoan := .start fun _ hpl => World.occupants_of_not_knows hpl
  tended _ _ hd hx _ := absurd (World.index_lt_of_coll? hx) hd

/-- A construction that fails ends on a loan, with nothing kept hold of that was not before, and nothing idle. -/
theorem World.Resting.underway_of_error (hw : w.Resting) {id : ClassId} (hid : w.Unaided id) {init : Option Value}
    (hinit : ∀ v ∈ init, w.KnowsValue v) {depth : Nat} {h : Halt}
    (hfail : Run.constructInstance (Callbacks.ofDepth depth) id init w = (.error h, w')) :
    w.Underway World.slack w' ∧ w'.pins = w.pins ∧ w'.idleInstances = [] := by
  obtain ⟨hcb, hscripts⟩ := Callbacks.lending_ofDepth hw depth
  have hfit : ∀ v ∈ init, w.Fit w v := fun v hv j hj => Or.inl (hinit v hv j hj)
  have hbody := Run.lends_construction hw hcb hscripts hid .start hfit
  have hscope : Run.Lends w World.tight (Run.constructInstance (Callbacks.ofDepth depth) id init) w fun _ _ => True :=
    hbody.keeping hw (List.Subset.refl _) fun _ _ _ _ _ => trivial
  have hu := hscope.error h (by rw [hfail])
  have hrun := Run.keeping_apply (fun i => [Held.inst i]) (Run.construction (Callbacks.ofDepth depth) id init) w
  rw [← Run.constructInstance_eq, hfail] at hrun
  rw [hfail] at hu
  obtain ⟨herror, hworld⟩ := Prod.mk.inj hrun
  rw [← herror] at hworld
  refine ⟨hu, ?_, ?_⟩
  · rw [hworld, pins_settle]
    rfl
  · rw [hworld]
    exact (idle_settle _).1

/-- After a construction that fails everything is as it was. -/
theorem World.Resting.untouched_of_error (hw : w.Resting) {id : ClassId} (hid : w.Unaided id) {init : Option Value}
    (hinit : ∀ v ∈ init, w.KnowsValue v) {depth : Nat} {h : Halt}
    (hfail : Run.constructInstance (Callbacks.ofDepth depth) id init w = (.error h, w')) : w.Untouched w' := by
  obtain ⟨hu, hpins, hidle⟩ := hw.underway_of_error hid hinit hfail
  exact hu.untouched hw hpins hidle

/-- When a construction fails in a session, everything that was there is as it was, every place holds what it
held, and no root of what was there stands below a node of the failed view. -/
theorem Session.Reached.untouched_of_failed {s : Session} (hs : s.Reached) {id : ClassId} (hid : s.world.Unaided id)
    {init : Option Value} (hinit : ∀ v ∈ init, s.world.KnowsValue v) {depth : Nat} {h : Halt}
    (hfail : Run.constructInstance (Callbacks.ofDepth depth) id init s.world = (.error h, w')) :
    s.world.Untouched w' :=
  hs.resting.untouched_of_error hid hinit hfail

/-! ### A board that takes a tile and fails -/

/-- Plain classes construct without help. -/
theorem PlainClasses.unaided (hw : PlainClasses w.classes) (id : ClassId) : w.Unaided id := by
  intro id' c _ hc
  obtain ⟨hconstructors, hfactory⟩ := hw _ c hc
  refine ⟨fun _ => hfactory, [], fun s hs => ?_, fun m hm => by cases hm⟩
  rw [hconstructors] at hs
  cases hs

/-- A session in which tiles and boards are known, and a tile is labelled. -/
def tileSession : Session :=
  let s : Session := {}
  let s := (s.step (.load "main" ("<template ooml-class='Tile'><div></div></template>" ++
    "<template ooml-class='Board'><p>\x7b Tile this.first \x7d\x7b for Tile of this.items \x7d</p></template>") [])).2
  (s.step (.namespaceOp "main" (.construct "Tile" none (some "tile")))).2

/-- The tile goes into the slot, and then a text is refused as an item. -/
def refusedBoard : Except Halt InstanceId × World :=
  Run.constructInstance (Callbacks.ofDepth 1) ⟨1⟩
    (some (.object [("first", .inst ⟨0⟩), ("items", .array [.text "x"])])) tileSession.world

theorem refusedBoard_spec : ((tileSession.world.classes.toList.all fun c => c.constructors.isEmpty && c.factory.isNone) &&
    tileSession.world.isAlive ⟨0⟩ && match refusedBoard.1 with
      | .error (.failed (.notElement _)) => true
      | _ => false) = true := by decide +kernel

theorem Session.Reached.untouched_of_failed_board : (∃ h, refusedBoard.1 = .error h) ∧
    tileSession.world.isAlive ⟨0⟩ = true ∧ tileSession.world.Untouched refusedBoard.2 := by
  have hspec := refusedBoard_spec
  rw [Bool.and_eq_true, Bool.and_eq_true] at hspec
  obtain ⟨⟨hplain, halive⟩, herror⟩ := hspec
  obtain ⟨h, hh⟩ : ∃ h, refusedBoard.1 = .error h := by
    cases hr : refusedBoard.1 with
    | error h => exact ⟨h, rfl⟩
    | ok i =>
      rw [hr] at herror
      cases herror
  refine ⟨⟨h, hh⟩, halive, ?_⟩
  refine Session.Reached.untouched_of_failed (.step (.step (.start []) _) _) ((plainClasses_of_all hplain).unaided _)
    (fun v hv j hj => ?_) (Prod.ext hh rfl)
  obtain rfl := Option.some.inj hv
  obtain rfl : j = ⟨0⟩ := by simpa [Value.instances, Value.instancesOfFields, Value.instancesOfItems] using hj
  exact World.knows_of_isAlive halive

end ReactiveView
