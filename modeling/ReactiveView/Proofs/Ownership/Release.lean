import ReactiveView.Proofs.Ownership.State

/-!
# Setting instances free

Taking the root of an instance out of its place and clearing the record of its attachment is one step
(`World.taken`), which runs and the settling of a world share. A change that consists of such steps, apart
from collections being emptied, *frees* (`World.Frees`): an instance stands where it stood or nowhere, the
world stays linked to the occupants that still stand, and the views that own none of the places concerned
stay as they are.
-/

set_option autoImplicit false

namespace ReactiveView

namespace World

variable {w w' : World} {x i : InstanceId} {r : NodeId} {pl : Place} {live : InstanceId → Prop}
  {occ : Place → List InstanceId}

/-! ## One instance -/

/-- The world with an instance taken out of its place. -/
def taken (w : World) (x : InstanceId) (r : NodeId) : World :=
  (w.setAttachment x none).mapForest fun f => f.unlink r

theorem sameShape_setAttachment (w : World) (x : InstanceId) (a : Option Attachment) :
    w.SameShape (w.setAttachment x a) :=
  sameShape_modifyInstance w x fun _ => rfl

theorem sameShape_taken (w : World) (x : InstanceId) (r : NodeId) : w.SameShape (w.taken x r) :=
  ⟨rfl, (sameShape_setAttachment w x none).inst, fun _ => rfl, fun _ => rfl⟩

theorem attachment?_modifyInstance_of_ne (w : World) {f : Instance → Instance} (h : i ≠ x) :
    (w.modifyInstance x f).attachment? i = w.attachment? i := by
  unfold attachment?
  rw [inst?_modifyInstance_of_ne w f (Ne.symm h)]

theorem attachment?_setAttachment_none (w : World) (x : InstanceId) :
    (w.setAttachment x none).attachment? = Function.update w.attachment? x none := by
  funext i
  by_cases hi : i = x
  · subst hi
    rw [Function.update_self]
    unfold attachment? setAttachment
    rw [inst?_modifyInstance_self]
    cases w.inst? i <;> rfl
  · rw [Function.update_of_ne hi]
    exact attachment?_modifyInstance_of_ne w hi

theorem placeOf?_setAttachment_of_ne (w : World) (a : Option Attachment) (h : i ≠ x) :
    (w.setAttachment x a).placeOf? i = w.placeOf? i :=
  congrArg (Option.map Attachment.place) (attachment?_modifyInstance_of_ne w h)

theorem placeOf?_setAttachment_self (hx : (w.inst? x).isSome = true) (a : Option Attachment) :
    (w.setAttachment x a).placeOf? x = a.map (·.place) := by
  obtain ⟨y, hy⟩ := Option.isSome_iff_exists.1 hx
  unfold placeOf? attachment? setAttachment
  rw [inst?_modifyInstance_self, hy]
  rfl

theorem placeOf?_setAttachment_none (w : World) (x : InstanceId) :
    (w.setAttachment x none).placeOf? = Function.update w.placeOf? x none := by
  funext i
  change ((w.setAttachment x none).attachment? i).map (·.place) = _
  rw [attachment?_setAttachment_none]
  by_cases hi : i = x
  · rw [hi, Function.update_self, Function.update_self]
    rfl
  · rw [Function.update_of_ne hi, Function.update_of_ne hi]
    rfl

theorem placeOf?_taken (w : World) (x : InstanceId) (r : NodeId) :
    (w.taken x r).placeOf? = Function.update w.placeOf? x none :=
  placeOf?_setAttachment_none w x

theorem map_inst?_setAttachment {β : Type} (g : Instance → β)
    (hg : ∀ (y : Instance) (a : Option Attachment), g { y with attachment := a } = g y)
    (w : World) (x : InstanceId) (a : Option Attachment) (j : InstanceId) :
    ((w.setAttachment x a).inst? j).map g = (w.inst? j).map g :=
  map_inst?_modifyInstance g (fun y => hg y a) w x j

/-! ## Many instances -/

/-- Instances are set free and collections are emptied of them; nothing else happens. -/
structure Frees (w w' : World) : Prop where
  shape : w.SameShape w'
  alive : ∀ i, (w'.inst? i).map (·.alive) = (w.inst? i).map (·.alive)
  values : ∀ i, (w'.inst? i).map (·.values) = (w.inst? i).map (·.values)
  aliveColl : ∀ c, (w'.coll? c).map (·.alive) = (w.coll? c).map (·.alive)
  items : ∀ c, w'.itemsOf c = w.itemsOf c ∨ w'.itemsOf c = []
  place : ∀ i, w'.placeOf? i = w.placeOf? i ∨ w'.placeOf? i = none
  handles : w.SameHandles w'
  linked : ∀ live occ, w.LinkedFor live occ →
    w'.LinkedFor live fun pl => (occ pl).filter fun i => decide (w'.placeOf? i = some pl)
  view : ∀ live occ, w.LinkedFor live occ → ∀ P,
    (∀ i pl m, w.placeOf? i = some pl → w'.placeOf? i ≠ some pl → w.layout.spot pl ≠ some (P, m)) →
      w.layout.SameView w.forest w.layout w'.forest P

theorem LinkedFor.filter_eq (h : w.LinkedFor live occ) :
    (fun pl => (occ pl).filter fun i => decide (w.placeOf? i = some pl)) = occ := by
  funext pl
  refine List.filter_eq_self.2 fun i hi => decide_eq_true ?_
  exact (Layout.Linked.place_iff h i pl).2 hi

/-- A change that concerns neither places nor links sets nobody free. -/
theorem Frees.of_same (hs : w.SameShape w')
    (halive : ∀ i, (w'.inst? i).map (·.alive) = (w.inst? i).map (·.alive))
    (hvalues : ∀ i, (w'.inst? i).map (·.values) = (w.inst? i).map (·.values))
    (haliveColl : ∀ c, (w'.coll? c).map (·.alive) = (w.coll? c).map (·.alive))
    (hitems : ∀ c, w'.itemsOf c = w.itemsOf c ∨ w'.itemsOf c = [])
    (hplace : ∀ i, w'.placeOf? i = w.placeOf? i) (hhandles : w.SameHandles w')
    (hforest : w'.forest = w.forest) : w.Frees w' where
  shape := hs
  alive := halive
  values := hvalues
  aliveColl := haliveColl
  items := hitems
  place i := Or.inl (hplace i)
  handles := hhandles
  linked live occ h := by
    have h' : w'.LinkedFor live occ := h.congr hs hplace (hforest ▸ .rfl)
    rw [h'.filter_eq]
    exact h'
  view _ _ _ P _ := by
    rw [hforest]
    exact .refl _ _ P

theorem Frees.rfl : w.Frees w :=
  .of_same .rfl (fun _ => .refl _) (fun _ => .refl _) (fun _ => .refl _) (fun _ => Or.inl (.refl _))
    (fun _ => .refl _) .rfl (.refl _)

theorem Frees.trans {w'' : World} (h : w.Frees w') (h' : w'.Frees w'') : w.Frees w'' where
  shape := h.shape.trans h'.shape
  alive i := (h'.alive i).trans (h.alive i)
  values i := (h'.values i).trans (h.values i)
  aliveColl c := (h'.aliveColl c).trans (h.aliveColl c)
  items c := by
    rcases h'.items c with heq | hnil
    · rw [heq]
      exact h.items c
    · exact Or.inr hnil
  place i := by
    rcases h'.place i with heq | hnone
    · rw [heq]
      exact h.place i
    · exact Or.inr hnone
  handles := h.handles.trans h'.handles
  linked live occ hl := by
    have hl'' := h'.linked live _ (h.linked live occ hl)
    have hfilter : (fun pl => ((occ pl).filter fun i => decide (w'.placeOf? i = some pl)).filter
        fun i => decide (w''.placeOf? i = some pl)) =
        fun pl => (occ pl).filter fun i => decide (w''.placeOf? i = some pl) := by
      funext pl
      rw [List.filter_filter]
      refine List.filter_congr fun i _ => ?_
      by_cases hplace : w''.placeOf? i = some pl
      · have hplace' : w'.placeOf? i = some pl := by
          rcases h'.place i with heq | hnone
          · rw [← heq, hplace]
          · rw [hnone] at hplace
            cases hplace
        rw [decide_eq_true hplace, decide_eq_true hplace']
        rfl
      · rw [decide_eq_false hplace, Bool.false_and]
    rw [hfilter] at hl''
    exact hl''
  view live occ hl P hP := by
    have hview := h.view live occ hl P fun i pl m hplace hplace' => by
      refine hP i pl m hplace fun hplace'' => hplace' ?_
      rcases h'.place i with heq | hnone
      · rw [← heq, hplace'']
      · rw [hnone] at hplace''
        cases hplace''
    refine hview.trans (fun _ hr => hr) ?_
    have hview' := h'.view live _ (h.linked live occ hl) P fun i pl m hplace hplace' => by
      rw [h.shape.layout]
      refine hP i pl m ?_ hplace'
      rcases h.place i with heq | hnone
      · rw [← heq, hplace]
      · rw [hnone] at hplace
        cases hplace
    rw [h.shape.layout] at hview'
    exact hview'

/-- Taking one instance out of its place. -/
theorem frees_taken (hr : w.rootOf? x = some r) (hplace : w.placeOf? x = some pl) :
    w.Frees (w.taken x r) where
  shape := sameShape_taken w x r
  alive := map_inst?_setAttachment _ (fun _ _ => .refl _) w x none
  values := map_inst?_setAttachment _ (fun _ _ => .refl _) w x none
  aliveColl _ := .refl _
  items _ := Or.inl (.refl _)
  place i := by
    rw [placeOf?_taken]
    by_cases hi : i = x
    · subst hi
      exact Or.inr (Function.update_self _ _ _)
    · exact Or.inl (Function.update_of_ne hi _ _)
  handles := ⟨.refl _, .refl _⟩
  linked live occ h := by
    obtain ⟨-, -, -, -, -, -, -, -, hl⟩ := Layout.Linked.detach h hr hplace
    have hocc : (fun pl' => (occ pl').filter fun i => decide ((w.taken x r).placeOf? i = some pl')) =
        Function.update occ pl ((occ pl).erase x) := by
      rw [placeOf?_taken]
      funext pl'
      by_cases hpl : pl' = pl
      · subst hpl
        rw [Function.update_self, (Layout.Linked.nodup h pl').erase_eq_filter]
        refine List.filter_congr fun i hi => ?_
        by_cases hix : i = x
        · subst hix
          rw [Function.update_self]
          simp
        · rw [Function.update_of_ne hix, (Layout.Linked.place_iff h i pl').2 hi]
          simp [hix]
      · rw [Function.update_of_ne hpl]
        refine List.filter_eq_self.2 fun i hi => decide_eq_true ?_
        have hi' := (Layout.Linked.place_iff h i pl').2 hi
        rw [Function.update_of_ne (by rintro rfl; exact hpl (Option.some.inj (hi'.symm.trans hplace))),
          hi']
    rw [hocc]
    unfold LinkedFor
    rw [(sameShape_taken w x r).layout, placeOf?_taken]
    exact hl
  view live occ h P hP := by
    obtain ⟨Q, m, e, hspot, hQ, hm, hother, -⟩ := Layout.Linked.detach h hr hplace
    obtain ⟨rq, hrq, hw⟩ := Layout.Linked.within_list h hQ hspot hm
    refine Layout.Linked.sameView h ?_ hrq hw hother
    rintro rfl
    refine hP x pl m hplace ?_ hspot
    rw [placeOf?_taken, Function.update_self]
    exact fun h => by cases h

theorem Frees.foldl {α : Type} {f : World → α → World} (hf : ∀ (w : World) a, w.Frees (f w a)) (as : List α)
    (w : World) : w.Frees (as.foldl f w) := by
  induction as generalizing w with
  | nil => exact .rfl
  | cons a as ih => exact (hf w a).trans (ih (f w a))

/-! ## Children of an instance -/

theorem placeOf?_eq_some {a : Attachment} (h : w.attachment? i = some a) :
    w.placeOf? i = some a.place := by
  unfold placeOf?
  rw [h, Option.map_some]

/-- An instance is set free, if it has a root, exactly when its place passes the test. -/
theorem unlinkRoot_of_none (h : w.rootOf? x = none) : w.unlinkRoot x = w := by
  unfold unlinkRoot
  rw [h]

theorem unlinkRoot_of_some {r : NodeId} (h : w.rootOf? x = some r) :
    w.unlinkRoot x = w.mapForest fun f => f.unlink r := by
  unfold unlinkRoot
  rw [h]

theorem freeIf_cases (w : World) (test : Place → Bool) (x : InstanceId) :
    (w.freeIf test x = w ∧ ∀ pl, w.placeOf? x = some pl → test pl = false) ∨
      ∃ pl, w.placeOf? x = some pl ∧ test pl = true ∧
        ((w.rootOf? x = none ∧ w.freeIf test x = w.setAttachment x none) ∨
          ∃ r, w.rootOf? x = some r ∧ w.freeIf test x = w.taken x r) := by
  unfold freeIf
  cases ha : w.attachment? x with
  | none =>
    refine Or.inl ⟨rfl, fun pl hpl => ?_⟩
    unfold placeOf? at hpl
    rw [ha] at hpl
    cases hpl
  | some a =>
    have hplace := placeOf?_eq_some ha
    cases htest : test a.place with
    | false =>
      refine Or.inl ⟨?_, fun pl hpl => ?_⟩
      · simp only [htest, Bool.false_eq_true, if_false]
      · rw [hplace] at hpl
        exact Option.some.inj hpl ▸ htest
    | true =>
      refine Or.inr ⟨a.place, hplace, htest, ?_⟩
      have hroot := (sameShape_setAttachment w x none).rootOf? x
      simp only [htest, if_true]
      cases hr : w.rootOf? x with
      | none =>
        rw [hr] at hroot
        exact Or.inl ⟨rfl, unlinkRoot_of_none hroot⟩
      | some r =>
        rw [hr] at hroot
        exact Or.inr ⟨r, rfl, unlinkRoot_of_some hroot⟩

theorem LinkedFor.exists_root (h : w.LinkedFor live occ) (hplace : w.placeOf? x = some pl) :
    ∃ r, w.rootOf? x = some r :=
  Layout.Linked.rooted h x (Layout.Linked.live_item h x pl ((Layout.Linked.place_iff h x pl).1 hplace))

theorem frees_freeIf (w : World) (test : Place → Bool) (x : InstanceId) :
    w.Frees (w.freeIf test x) := by
  rcases freeIf_cases w test x with ⟨heq, -⟩ | ⟨pl, hplace, -, ⟨hnone, heq⟩ | ⟨r, hr, heq⟩⟩
  · rw [heq]
    exact .rfl
  · -- an instance that stands somewhere in a linked world has a root
    rw [heq]
    refine ⟨sameShape_setAttachment w x none, map_inst?_setAttachment _ (fun _ _ => rfl) w x none,
      map_inst?_setAttachment _ (fun _ _ => rfl) w x none, fun _ => rfl, fun _ => Or.inl rfl,
      fun i => ?_, ⟨rfl, rfl⟩, fun live occ h => ?_, fun live occ h => ?_⟩
    · rw [placeOf?_setAttachment_none]
      by_cases hi : i = x
      · subst hi
        exact Or.inr (Function.update_self _ _ _)
      · exact Or.inl (Function.update_of_ne hi _ _)
    · obtain ⟨r, hr⟩ := h.exists_root hplace
      rw [hnone] at hr
      cases hr
    · obtain ⟨r, hr⟩ := h.exists_root hplace
      rw [hnone] at hr
      cases hr
  · rw [heq]
    exact frees_taken hr hplace

/-- What is set free stands nowhere. -/
theorem placeOf?_freeIf_self (test : Place → Bool) (hplace : w.placeOf? x = some pl)
    (htest : test pl = true) : (w.freeIf test x).placeOf? x = none := by
  rcases freeIf_cases w test x with ⟨-, hfalse⟩ | ⟨_, -, -, ⟨-, heq⟩ | ⟨r, -, heq⟩⟩
  · rw [hfalse pl hplace] at htest
    cases htest
  · rw [heq, placeOf?_setAttachment_none, Function.update_self]
  · rw [heq, placeOf?_taken, Function.update_self]

/-- What stands in a place that does not pass the test stays there. -/
theorem placeOf?_freeIf_of_false (test : Place → Bool) (hplace : w.placeOf? i = some pl)
    (hpl : test pl = false) : (w.freeIf test x).placeOf? i = some pl := by
  rcases freeIf_cases w test x with ⟨heq, -⟩ | ⟨pl', hplace', htest, hcases⟩
  · rw [heq, hplace]
  · have hix : i ≠ x := by
      rintro rfl
      obtain rfl := Option.some.inj (hplace.symm.trans hplace')
      rw [hpl] at htest
      cases htest
    rcases hcases with ⟨-, heq⟩ | ⟨r, -, heq⟩
    · rw [heq, placeOf?_setAttachment_none, Function.update_of_ne hix, hplace]
    · rw [heq, placeOf?_taken, Function.update_of_ne hix, hplace]

theorem itemsOf_freeIf (w : World) (test : Place → Bool) (x : InstanceId) (c : CollectionId) :
    (w.freeIf test x).itemsOf c = w.itemsOf c := by
  rcases freeIf_cases w test x with ⟨heq, -⟩ | ⟨pl, -, -, ⟨-, heq⟩ | ⟨r, -, heq⟩⟩ <;> rw [heq] <;> rfl

theorem Frees.placeOf?_none (h : w.Frees w') (hnone : w.placeOf? i = none) : w'.placeOf? i = none := by
  rcases h.place i with heq | hnone'
  · rw [heq, hnone]
  · exact hnone'

theorem Frees.ne_of_ne (h : w.Frees w') (hne : w.placeOf? i ≠ some pl) : w'.placeOf? i ≠ some pl := by
  rcases h.place i with heq | hnone
  · rw [heq]
    exact hne
  · rw [hnone]
    exact fun h => by cases h

/-! ### The items of a collection -/

section Items

variable (c : CollectionId)

theorem itemsOf_modifyCollection_self (w : World) {f : Collection → Collection}
    (hf : ∀ y, (f y).items = []) : (w.modifyCollection c f).itemsOf c = [] := by
  unfold itemsOf
  rw [coll?_modifyCollection_self]
  cases w.coll? c with
  | none => rfl
  | some y => exact hf y

theorem itemsOf_modifyCollection_of_ne (w : World) (f : Collection → Collection)
    {d : CollectionId} (h : c ≠ d) : (w.modifyCollection c f).itemsOf d = w.itemsOf d := by
  unfold itemsOf
  rw [coll?_modifyCollection_of_ne w f h]

theorem frees_emptied (w : World) : w.Frees (w.modifyCollection c fun y => { y with items := [] }) := by
  refine .of_same (sameShape_modifyCollection w c fun _ => rfl) (fun _ => rfl) (fun _ => rfl)
    (map_coll?_modifyCollection _ (by exact fun _ => rfl) w c) (fun d => ?_) (fun _ => rfl)
    ⟨rfl, rfl⟩ rfl
  by_cases hcd : c = d
  · subst hcd
    exact Or.inr (itemsOf_modifyCollection_self c w fun _ => rfl)
  · exact Or.inl (itemsOf_modifyCollection_of_ne c w _ hcd)

theorem itemsOf_foldl_freeIf (test : Place → Bool) (xs : List InstanceId) (w : World)
    (d : CollectionId) : (xs.foldl (fun w x => w.freeIf test x) w).itemsOf d = w.itemsOf d := by
  induction xs generalizing w with
  | nil => rfl
  | cons x xs ih => rw [List.foldl_cons, ih, itemsOf_freeIf]

theorem frees_freeItems (w : World) : w.Frees (w.freeItems c) :=
  (frees_emptied c w).trans (.foldl (fun w x => frees_freeIf w _ x) _ _)

theorem itemsOf_freeItems_self (w : World) : (w.freeItems c).itemsOf c = [] := by
  unfold freeItems
  rw [itemsOf_foldl_freeIf]
  exact itemsOf_modifyCollection_self c w fun _ => rfl

theorem itemsOf_freeItems_of_ne (w : World) {d : CollectionId} (h : c ≠ d) :
    (w.freeItems c).itemsOf d = w.itemsOf d := by
  unfold freeItems
  rw [itemsOf_foldl_freeIf]
  exact itemsOf_modifyCollection_of_ne c w _ h

theorem placeOf?_foldl_freeIf_of_false (test : Place → Bool) (hpl : test pl = false)
    (xs : List InstanceId) {w : World} (hplace : w.placeOf? i = some pl) :
    (xs.foldl (fun w x => w.freeIf test x) w).placeOf? i = some pl := by
  induction xs generalizing w with
  | nil => exact hplace
  | cons x xs ih => exact ih (placeOf?_freeIf_of_false test hplace hpl)

/-- Nobody stands in a collection any more of those who were its items. -/
theorem placeOf?_freeItems (hi : i ∈ w.itemsOf c) : (w.freeItems c).placeOf? i ≠ some (.sequence c) := by
  have key (xs : List InstanceId) (w : World) (hi : i ∈ xs) :
      (xs.foldl (fun w x => w.freeIf (fun p => p == .sequence c) x) w).placeOf? i ≠
        some (.sequence c) := by
    induction xs generalizing w with
    | nil => cases hi
    | cons x xs ih =>
      rw [List.foldl_cons]
      rcases List.mem_cons.1 hi with rfl | hi
      · refine (Frees.foldl (fun w x => frees_freeIf w _ x) xs _).ne_of_ne ?_
        intro hplace
        by_cases hself : w.placeOf? i = some (.sequence c)
        · have hnone := placeOf?_freeIf_self (fun p => p == .sequence c) hself
            (beq_self_eq_true (Place.sequence c))
          rw [hnone] at hplace
          cases hplace
        · exact (frees_freeIf w _ i).ne_of_ne hself hplace
      · exact ih _ hi
  exact key _ _ hi

theorem placeOf?_freeItems_of_ne (h : pl ≠ .sequence c) (hplace : w.placeOf? i = some pl) :
    (w.freeItems c).placeOf? i = some pl := by
  unfold freeItems
  exact placeOf?_foldl_freeIf_of_false (fun p => p == .sequence c) (beq_eq_false_iff_ne.2 h) _ hplace

end Items

/-! ### All children -/

theorem frees_freeChild (P : InstanceId) (w : World) (v : Value) : w.Frees (freeChild P w v) := by
  cases v with
  | inst x => exact frees_freeIf w _ x
  | coll c => exact frees_freeItems c w
  | null => exact .rfl
  | bool b => exact .rfl
  | number x => exact .rfl
  | text s => exact .rfl
  | array items => exact .rfl
  | object fields => exact .rfl

theorem itemsOf_freeChild_of_ne (P : InstanceId) {v : Value} {c : CollectionId} (h : v ≠ .coll c) :
    (freeChild P w v).itemsOf c = w.itemsOf c := by
  cases v with
  | inst x => exact itemsOf_freeIf w _ x c
  | coll d => exact itemsOf_freeItems_of_ne d w fun hd => h (hd ▸ rfl)
  | null => rfl
  | bool b => rfl
  | number x => rfl
  | text s => rfl
  | array items => rfl
  | object fields => rfl

/-- Who stands in a place of another instance stays there. -/
theorem placeOf?_freeChild_of_other {P : InstanceId} {v : Value} (hplace : w.placeOf? i = some pl)
    (hslot : isSlotOf P pl = false) (hcoll : ∀ c, v = .coll c → pl ≠ .sequence c) :
    (freeChild P w v).placeOf? i = some pl := by
  cases v with
  | inst x => exact placeOf?_freeIf_of_false _ hplace hslot
  | coll c => exact placeOf?_freeItems_of_ne c (hcoll c rfl) hplace
  | null => exact hplace
  | bool b => exact hplace
  | number x => exact hplace
  | text s => exact hplace
  | array items => exact hplace
  | object fields => exact hplace

/-- What happens to places and items when the children in some values are set free. -/
structure FreesChildren (P : InstanceId) (vs : List Value) (w w' : World) : Prop where
  frees : w.Frees w'
  slot : ∀ x name, Value.inst x ∈ vs → w'.placeOf? x ≠ some (.slot P name)
  emptied : ∀ c, Value.coll c ∈ vs → w'.itemsOf c = []
  sequence : ∀ c x, Value.coll c ∈ vs → x ∈ w.itemsOf c → w'.placeOf? x ≠ some (.sequence c)
  items : ∀ c, Value.coll c ∉ vs → w'.itemsOf c = w.itemsOf c
  other : ∀ x pl, w.placeOf? x = some pl → isSlotOf P pl = false →
    (∀ c, Value.coll c ∈ vs → pl ≠ .sequence c) → w'.placeOf? x = some pl

theorem freesChildren_foldl (P : InstanceId) (vs : List Value) (w : World) :
    FreesChildren P vs w (vs.foldl (freeChild P) w) := by
  induction vs generalizing w with
  | nil =>
    refine ⟨.rfl, ?_, ?_, ?_, fun _ _ => rfl, fun _ _ hplace _ _ => hplace⟩
    · intro x name hx
      cases hx
    · intro c hc
      cases hc
    · intro c x hc
      cases hc
  | cons v vs ih =>
    have h := ih (freeChild P w v)
    have hstep := frees_freeChild P w v
    refine ⟨hstep.trans h.frees, ?_, ?_, ?_, ?_, ?_⟩
    · intro x name hx
      rcases List.mem_cons.1 hx with rfl | hx
      · refine h.frees.ne_of_ne fun hplace => ?_
        -- setting free leaves everybody in place whom the test does not meet
        by_cases hself : w.placeOf? x = some (.slot P name)
        · have hnone := placeOf?_freeIf_self (isSlotOf P) hself (beq_self_eq_true P)
          have hplace' : (w.freeIf (isSlotOf P) x).placeOf? x = some (.slot P name) := hplace
          rw [hnone] at hplace'
          cases hplace'
        · exact (frees_freeIf w _ x).ne_of_ne hself hplace
      · exact h.slot x name hx
    · intro c hc
      by_cases hv : v = .coll c
      · subst hv
        rcases h.frees.items c with heq | hnil
        · exact heq.trans (itemsOf_freeItems_self c w)
        · exact hnil
      · rcases List.mem_cons.1 hc with hc | hc
        · exact absurd hc.symm hv
        · exact h.emptied c hc
    · intro c x hc hx
      by_cases hv : v = .coll c
      · subst hv
        exact h.frees.ne_of_ne (placeOf?_freeItems c hx)
      · rcases List.mem_cons.1 hc with hc | hc
        · exact absurd hc.symm hv
        · exact h.sequence c x hc (by rw [itemsOf_freeChild_of_ne P hv]; exact hx)
    · intro c hc
      have hv : v ≠ .coll c := fun hv => hc (hv ▸ List.mem_cons_self)
      exact (h.items c fun hmem => hc (List.mem_cons_of_mem _ hmem)).trans
        (itemsOf_freeChild_of_ne P hv)
    · intro x pl hplace hslot hcoll
      refine h.other x pl (placeOf?_freeChild_of_other hplace hslot ?_) hslot ?_
      · rintro c rfl
        exact hcoll c List.mem_cons_self
      · exact fun c hc => hcoll c (List.mem_cons_of_mem _ hc)

end World

end ReactiveView
