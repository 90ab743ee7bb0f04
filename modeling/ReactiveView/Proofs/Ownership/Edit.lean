import ReactiveView.Proofs.Ownership.Release
import ReactiveView.Proofs.Ownership.Scope

/-!
# Attaching and releasing

While an operation puts instances into a place and takes them out, the records of attachments and the
forest run ahead of the stored values and items. The steps are therefore said of occupants that are given
(`World.Moves`): the row behind the marker of the place follows its occupants, and nothing else changes.
`Run.attachAfter_ok` and `Run.release_ok` are the two steps. Each keeps what stands above the marker, so
what has been checked before a sequence of steps need not be checked again (`Run.attachInOrder_ok`).
-/

set_option autoImplicit false

namespace ReactiveView

open Relation

namespace World

variable {w w' w'' : World} {occ occ' occ'' : Place → List InstanceId} {pl : Place} {P i : InstanceId}
  {m r : NodeId}

/-! ## Moves -/

/-- The occupants of the place `pl`, whose marker is `m`, change from `occ` to `occ'`, and the row behind
the marker with them; nothing else is different. -/
structure Moves (pl : Place) (m : NodeId) (w : World) (occ : Place → List InstanceId) (w' : World)
    (occ' : Place → List InstanceId) : Prop where
  shape : w.SameShape w'
  alive : ∀ i, (w'.inst? i).map (·.alive) = (w.inst? i).map (·.alive)
  values : ∀ i, (w'.inst? i).map (·.values) = (w.inst? i).map (·.values)
  handles : w.SameHandles w'
  linked : w'.Linked occ'
  other : ∀ pl', pl' ≠ pl → occ' pl' = occ pl'
  above : ∀ n, ReflTransGen w'.forest.Up m n → ReflTransGen w.forest.Up m n
  row : ∃ e, m ∈ w.forest.children e ∧ m ∈ w'.forest.children e ∧
    (∀ q, q ≠ e → w'.forest.children q = w.forest.children q) ∧
    ∀ s t, w.forest.children e = s ++ m :: (occ pl).filterMap w.layout.root ++ t →
      w'.forest.children e = s ++ m :: (occ' pl).filterMap w.layout.root ++ t

namespace Moves

theorem rfl (h : w.Linked occ) (hP : w.isAlive P = true) (hspot : w.layout.spot pl = some (P, m)) :
    w.Moves pl m occ w occ where
  shape := .rfl
  alive _ := .refl _
  values _ := .refl _
  handles := .rfl
  linked := h
  other _ _ := .refl _
  above _ := id
  row := by
    obtain ⟨e, he⟩ := Layout.Linked.row h pl P m hP hspot
    have hm := he.subset List.mem_cons_self
    exact ⟨e, hm, hm, fun _ _ => .refl _, fun _ _ => id⟩

theorem trans (h : w.Moves pl m occ w' occ') (h' : w'.Moves pl m occ' w'' occ'') :
    w.Moves pl m occ w'' occ'' where
  shape := h.shape.trans h'.shape
  alive i := (h'.alive i).trans (h.alive i)
  values i := (h'.values i).trans (h.values i)
  handles := h.handles.trans h'.handles
  linked := h'.linked
  other pl' hpl := (h'.other pl' hpl).trans (h.other pl' hpl)
  above n hn := h.above n (h'.above n hn)
  row := by
    obtain ⟨e, hm, hm', hother, hrow⟩ := h.row
    obtain ⟨e', hm₁, hm₁', hother', hrow'⟩ := h'.row
    obtain rfl := (Layout.Linked.tidy h.linked).parent_unique hm' hm₁
    refine ⟨e, hm, hm₁', fun q hq => (hother' q hq).trans (hother q hq), fun s t hst => ?_⟩
    rw [← h.shape.layout]
    refine hrow' s t ?_
    rw [h.shape.layout]
    exact hrow s t hst

variable (h : w.Moves pl m occ w' occ')

include h

theorem isAlive (i : InstanceId) : w'.isAlive i = w.isAlive i := isAlive_congr (h.alive i)

/-- Records that fit stay so if the collections do. -/
theorem built (hcolls : w'.collections = w.collections) (hb : w.Built) : w'.Built := by
  have hcoll (c : CollectionId) : w'.coll? c = w.coll? c := by
    unfold World.coll?
    rw [hcolls]
  refine hb.congr h.shape h.values (fun c x hx halive => ?_) fun c => ?_
  · rw [hcoll] at hx
    rw [h.isAlive] at halive
    exact hb.collAlive c x hx halive
  · have hitems : w'.itemsOf c = w.itemsOf c := itemsOf_congr (by rw [hcoll c])
    rw [hitems]
    exact List.Subset.refl _

theorem spot : w'.layout.spot = w.layout.spot := by rw [h.shape.layout]

end Moves

/-! ## One step -/

theorem isAttached_iff : w.isAttached i = true ↔ w.placeOf? i ≠ none := by
  unfold isAttached placeOf?
  cases w.attachment? i <;> simp

/-- Recording a place. -/
theorem placeOf?_setAttachment_some (hi : w.isAlive i = true) (a : Attachment) :
    (w.setAttachment i (some a)).placeOf? = Function.update w.placeOf? i (some a.place) := by
  have hsome : (w.inst? i).isSome = true := by
    unfold isAlive at hi
    split at hi
    · next hx =>
      rw [hx]
      rfl
    · cases hi
  funext j
  by_cases hj : j = i
  · subst hj
    rw [Function.update_self, placeOf?_setAttachment_self hsome]
    rfl
  · rw [Function.update_of_ne hj, placeOf?_setAttachment_of_ne w _ hj]

end World

namespace Run

open World

variable {w : World} {occ : Place → List InstanceId} {pl : Place} {P i : InstanceId} {m r anchor : NodeId}
  {a : Attachment}

theorem theRoot_of_root (hr : w.layout.root i = some r) : theRoot i w = (.ok r, w) := by
  have hroot : ((w.inst? i).bind (·.view)).map (·.root) = some r := hr
  obtain ⟨v, hv, rfl⟩ := Option.map_eq_some_iff.1 hroot
  obtain ⟨x, hx, hxv⟩ := Option.bind_eq_some_iff.1 hv
  exact theRoot_of hx hxv

/-- The check fails exactly if the node stands below the root of the instance. -/
theorem checkOutside_apply (anchor : NodeId) (ht : w.forest.Tidy) (hr : w.layout.root i = some r) :
    checkOutside i anchor w = (.ok (), w) ∧ ¬ ReflTransGen w.forest.Up anchor r ∨
      checkOutside i anchor w = (.error (.failed (.insideItself (w.className i))), w) ∧
        ReflTransGen w.forest.Up anchor r := by
  have hrun : checkOutside i anchor w =
      if w.forest.isInclusiveAncestor r anchor = true then
        (.error (.failed (.insideItself (w.className i))), w) else (.ok (), w) := by
    unfold checkOutside
    rw [bind_of_ok (theRoot_of_root hr), bind_of_ok (get_apply w)]
    split
    · rfl
    · rfl
  rw [hrun, ← ht.isInclusiveAncestor_iff]
  split
  · next h => exact Or.inr ⟨rfl, h⟩
  · next h => exact Or.inl ⟨rfl, h⟩

/-- Attaching a free instance whose root can be put behind the node. -/
theorem attachAfter_of {f' : Forest} (ht : w.forest.Tidy) (hnot : w.isAttached i = false)
    (hr : w.layout.root i = some r) (hout : ¬ ReflTransGen w.forest.Up anchor r)
    (hf' : w.forest.insertAfter anchor r = (.ok (), f')) :
    attachAfter i anchor a w = (.ok (), (w.mapForest fun _ => f').setAttachment i (some a)) := by
  unfold attachAfter
  rw [bind_of_ok (get_apply w), hnot, if_neg Bool.false_ne_true]
  dsimp only
  rcases checkOutside_apply anchor ht hr with ⟨hcheck, -⟩ | ⟨-, hup⟩
  · rw [bind_of_ok hcheck, bind_of_ok (theRoot_of_root hr)]
    have hedit : edit (fun f => f.insertAfter anchor r) w = (.ok (), w.mapForest fun _ => f') := by
      rw [edit_apply, hf', ofExcept_ok]
    rw [bind_of_ok hedit, update_apply]
  · exact absurd hup hout

/-- Releasing an attached instance. -/
theorem release_of (hatt : w.isAttached i = true) (hr : w.layout.root i = some r) :
    release i w = (.ok (), w.taken i r) := by
  have hr' : (w.setAttachment i none).layout.root i = some r := by
    rw [(sameShape_setAttachment w i none).layout]
    exact hr
  unfold release
  rw [bind_of_ok (get_apply w), hatt, if_neg (by exact Bool.false_ne_true)]
  dsimp only
  rw [bind_of_ok (update_apply _ _), bind_of_ok (theRoot_of_root hr'), update_apply]
  rfl

variable (h : w.Linked occ) (hP : w.isAlive P = true) (hspot : w.layout.spot a.place = some (P, m))

include h hP hspot in
/-- Attaching a free instance that does not stand above the marker. -/
theorem attachAfter_ok {pre post : List InstanceId} {init : List NodeId} (hi : w.isAlive i = true)
    (hr : w.layout.root i = some r) (hfree : w.placeOf? i = none) (hocc : occ a.place = pre ++ post)
    (hlast : m :: pre.filterMap w.layout.root = init ++ [anchor])
    (hout : ¬ ReflTransGen w.forest.Up m r) :
    ∃ w', attachAfter i anchor a w = (.ok (), w') ∧ w'.collections = w.collections ∧
      w.Moves a.place m occ w' (Function.update occ a.place (pre ++ i :: post)) := by
  have htidy := Layout.Linked.tidy h
  obtain ⟨e, he⟩ := Layout.Linked.row h a.place P m hP hspot
  rw [hocc, List.filterMap_append, ← List.cons_append, hlast] at he
  have hup_m : w.forest.Up m e := by
    refine htidy.parent_of_mem m e (he.subset (List.mem_append_left _ ?_))
    rw [← hlast]
    exact List.mem_cons_self
  have hup_a : w.forest.Up anchor e :=
    htidy.parent_of_mem anchor e (he.subset (List.mem_append_left _ (List.mem_append_right _
      (List.mem_singleton_self anchor))))
  -- the anchor stands beside the marker and is the root of another instance, if it is one
  have hne : anchor ≠ r := by
    rintro rfl
    rcases w.layout.eq_or_mem_of_last hocc hlast with rfl | ⟨y, hy, hya⟩
    · exact Layout.Sound.marker_not_root (Layout.Linked.sound h) a.place P anchor hspot ⟨i, hr⟩
    · obtain rfl := Layout.Sound.root_inj (Layout.Linked.sound h) y i anchor hya hr
      rw [(Layout.Linked.place_iff h y a.place).2 hy] at hfree
      cases hfree
  have hout_e : ¬ ReflTransGen w.forest.Up e r := fun hup => hout (.head hup_m hup)
  have hout_a : ¬ ReflTransGen w.forest.Up anchor r := by
    intro hup
    obtain ⟨e', he', hup⟩ := (ReflTransGen.cases_head hup).resolve_left hne
    obtain rfl := Forest.Up.unique hup_a he'
    exact hout_e hup
  obtain ⟨f', e', hf', hm, hput, hrow, hlinked⟩ :=
    Layout.Linked.attach h hi hr hfree hP hspot hocc hlast hout_a
  obtain rfl : e' = e := Forest.Up.unique (htidy.parent_of_mem m e' hm) hup_m
  have hnot : w.isAttached i = false := by
    rw [Bool.eq_false_iff, Ne, isAttached_iff, hfree]
    exact fun hn => hn rfl
  refine ⟨(w.mapForest fun _ => f').setAttachment i (some a), attachAfter_of htidy hnot hr hout_a hf', rfl, ?_⟩
  have hshape : w.SameShape ((w.mapForest fun _ => f').setAttachment i (some a)) :=
    ⟨rfl, (sameShape_setAttachment w i (some a)).inst, fun _ => rfl, fun _ => rfl⟩
  refine ⟨hshape, map_inst?_setAttachment _ (fun _ _ => rfl) w i _,
    map_inst?_setAttachment _ (fun _ _ => rfl) w i _, ⟨rfl, rfl⟩, ?_, ?_, ?_, ?_⟩
  · have halive (j : InstanceId) :
        ((w.mapForest fun _ => f').setAttachment i (some a)).isAlive j = w.isAlive j :=
      isAlive_congr (map_inst?_setAttachment _ (fun _ _ => rfl) w i _ j)
    unfold Linked LinkedFor
    rw [hshape.layout, funext halive, show
      ((w.mapForest fun _ => f').setAttachment i (some a)).placeOf? =
        Function.update w.placeOf? i (some a.place) from placeOf?_setAttachment_some hi a]
    exact hlinked
  · exact fun pl' hpl => Function.update_of_ne hpl _ _
  · intro n hn
    rcases ReflTransGen.cases_head hn with rfl | ⟨q, hq, hqn⟩
    · exact .refl
    · rcases hput.transGen_cases hout_e (TransGen.head' hq hqn) with hold | ⟨hmr, -⟩
      · exact hold.to_reflTransGen
      · exact absurd hmr hout
  · refine ⟨e', hm, ?_, hput.other, fun s t hst => ?_⟩
    · refine (hput.mem_children_iff ?_).2 hm
      rintro rfl
      exact Layout.Sound.marker_not_root (Layout.Linked.sound h) a.place P m hspot ⟨i, hr⟩
    · rw [Function.update_self]
      rw [hocc] at hst
      exact hrow s t hst

/-- An instance that is attached or stands above the node is not attached, and nothing changes. -/
theorem attachAfter_cases (anchor : NodeId) (a : Attachment) (ht : w.forest.Tidy)
    (hr : w.layout.root i = some r) :
    (w.placeOf? i = none ∧ ¬ ReflTransGen w.forest.Up anchor r) ∨
      ¬ (w.placeOf? i = none ∧ ¬ ReflTransGen w.forest.Up anchor r) ∧
        ∃ e, e.kind = .referenceKind ∧ attachAfter i anchor a w = (.error (.failed e), w) := by
  unfold attachAfter
  rw [bind_of_ok (get_apply w)]
  cases hatt : w.isAttached i with
  | true =>
    rw [if_pos rfl, bind_of_ok (get_apply w), bind_of_error (fail_apply _ w)]
    exact Or.inr ⟨fun h => isAttached_iff.1 hatt h.1, _, rfl, rfl⟩
  | false =>
    have hfree : w.placeOf? i = none := by
      by_contra hn
      rw [isAttached_iff.2 hn] at hatt
      cases hatt
    rw [if_neg Bool.false_ne_true]
    dsimp only
    rcases checkOutside_apply anchor ht hr with ⟨-, hout⟩ | ⟨hcheck, hup⟩
    · exact Or.inl ⟨hfree, hout⟩
    · rw [bind_of_error hcheck]
      exact Or.inr ⟨fun h => h.2 hup, _, rfl, rfl⟩

/-- Releasing an instance that stands in a place. -/
theorem release_ok (h : w.Linked occ) (hplace : w.placeOf? i = some pl)
    (hspot : w.layout.spot pl = some (P, m)) :
    ∃ w', release i w = (.ok (), w') ∧ w'.collections = w.collections ∧
      w.Moves pl m occ w' (Function.update occ pl ((occ pl).erase i)) := by
  obtain ⟨r, hr⟩ := LinkedFor.exists_root h hplace
  obtain ⟨P', m', e, hspot', hP, hm, hother, hrow, hlinked⟩ := Layout.Linked.detach h hr hplace
  obtain ⟨-, rfl⟩ := Prod.mk.inj (Option.some.inj (hspot.symm.trans hspot'))
  have hshape := sameShape_taken w i r
  have hatt : w.isAttached i = true := isAttached_iff.2 (by rw [hplace]; exact fun hn => by cases hn)
  refine ⟨w.taken i r, release_of hatt hr, rfl, ?_⟩
  refine ⟨hshape, map_inst?_setAttachment _ (fun _ _ => rfl) w i _,
    map_inst?_setAttachment _ (fun _ _ => rfl) w i _, ⟨rfl, rfl⟩, ?_, ?_, ?_, e, hm, ?_, hother, ?_⟩
  · have halive (j : InstanceId) : (w.taken i r).isAlive j = w.isAlive j :=
      isAlive_congr (map_inst?_setAttachment _ (fun _ _ => rfl) w i _ j)
    unfold Linked LinkedFor
    rw [hshape.layout, funext halive, placeOf?_taken]
    exact hlinked
  · exact fun pl' hpl => Function.update_of_ne hpl _ _
  · intro n hn
    exact ReflTransGen.mono (fun _ _ hup => (Forest.up_of_unlink hup).2) _ _ hn
  · have hne : m ≠ r := by
      rintro rfl
      exact Layout.Sound.marker_not_root (Layout.Linked.sound h) pl P m hspot ⟨i, hr⟩
    change m ∈ (w.forest.unlink r).children e
    rw [(Layout.Linked.tidy h).children_unlink]
    exact (List.mem_erase_of_ne hne).2 hm
  · intro s t hst
    obtain ⟨A, B, hAB⟩ := List.append_of_mem ((Layout.Linked.place_iff h i pl).1 hplace)
    have hnd := Layout.Linked.nodup h pl
    rw [hAB] at hst hnd
    rw [Function.update_self, hAB, Layout.erase_middle hnd]
    exact hrow s t A B hst

/-! ## Several steps -/

/-- Releasing instances that stand in a row. -/
theorem forM_release_ok {A R B : List InstanceId} (h : w.Linked occ) (hP : w.isAlive P = true)
    (hspot : w.layout.spot pl = some (P, m)) (hocc : occ pl = A ++ R ++ B) :
    ∃ w', R.forM release w = (.ok (), w') ∧ w'.collections = w.collections ∧
      w.Moves pl m occ w' (Function.update occ pl (A ++ B)) := by
  induction R generalizing w occ with
  | nil =>
    refine ⟨w, rfl, rfl, ?_⟩
    rw [show A ++ B = occ pl by rw [hocc, List.append_nil], Function.update_eq_self]
    exact .rfl h hP hspot
  | cons x R ih =>
    have hx : x ∈ occ pl := by
      rw [hocc]
      simp
    obtain ⟨w₁, hw₁, hcolls, hmoves⟩ := release_ok h ((Layout.Linked.place_iff h x pl).2 hx) hspot
    have herase : (occ pl).erase x = A ++ R ++ B := by
      have hnd := Layout.Linked.nodup h pl
      have hsplit : occ pl = A ++ x :: (R ++ B) := by rw [hocc]; simp
      rw [hsplit] at hnd ⊢
      rw [Layout.erase_middle hnd, List.append_assoc]
    rw [herase] at hmoves
    have hspot₁ : w₁.layout.spot pl = some (P, m) := by rw [hmoves.spot, hspot]
    obtain ⟨w₂, hw₂, hcolls', hmoves'⟩ := ih hmoves.linked (by rw [hmoves.isAlive, hP]) hspot₁
      (Function.update_self _ _ _)
    rw [Function.update_idem] at hmoves'
    refine ⟨w₂, ?_, hcolls'.trans hcolls, hmoves.trans hmoves'⟩
    rw [forM_cons, bind_of_ok hw₁, hw₂]

theorem placeOf?_eq_none_iff (h : w.Linked occ) : w.placeOf? i = none ↔ ∀ pl, i ∉ occ pl := by
  constructor
  · intro hnone pl hi
    rw [(Layout.Linked.place_iff h i pl).2 hi] at hnone
    cases hnone
  · intro hnot
    cases hplace : w.placeOf? i with
    | none => rfl
    | some pl => exact absurd ((Layout.Linked.place_iff h i pl).1 hplace) (hnot pl)

/-- Instances that are free and do not stand above the marker can be attached one behind the other. -/
theorem attachInOrder_ok {pre post is : List InstanceId} {init : List NodeId} (h : w.Linked occ)
    (hP : w.isAlive P = true) (hspot : w.layout.spot a.place = some (P, m))
    (hocc : occ a.place = pre ++ post)
    (hlast : m :: pre.filterMap w.layout.root = init ++ [anchor]) (hnd : is.Nodup)
    (his : ∀ i ∈ is, w.isAlive i = true ∧ w.placeOf? i = none ∧
      ∀ r, w.layout.root i = some r → ¬ ReflTransGen w.forest.Up m r) :
    ∃ w', attachInOrder a anchor is w = (.ok (), w') ∧ w'.collections = w.collections ∧
      w.Moves a.place m occ w' (Function.update occ a.place (pre ++ is ++ post)) := by
  induction is generalizing w occ pre init anchor with
  | nil =>
    refine ⟨w, rfl, rfl, ?_⟩
    rw [show pre ++ [] ++ post = occ a.place by rw [hocc, List.append_nil], Function.update_eq_self]
    exact .rfl h hP hspot
  | cons i rest ih =>
    obtain ⟨hi, hfree, hout⟩ := his i List.mem_cons_self
    obtain ⟨r, hr⟩ := Layout.Linked.rooted h i hi
    obtain ⟨w₁, hw₁, hcolls, hmoves⟩ := attachAfter_ok h hP hspot hi hr hfree hocc hlast (hout r hr)
    have hspot₁ : w₁.layout.spot a.place = some (P, m) := by rw [hmoves.spot, hspot]
    have hr₁ : w₁.layout.root i = some r := by rw [hmoves.shape.layout, hr]
    have hlast₁ : m :: (pre ++ [i]).filterMap w₁.layout.root = (init ++ [anchor]) ++ [r] := by
      rw [List.filterMap_append, List.filterMap_cons_some hr₁, List.filterMap_nil, ← List.cons_append,
        hmoves.shape.layout, hlast]
    obtain ⟨hirest, hrest⟩ := List.nodup_cons.1 hnd
    obtain ⟨w₂, hw₂, hcolls', hmoves'⟩ := ih hmoves.linked (by rw [hmoves.isAlive, hP]) hspot₁
      (by rw [Function.update_self, List.append_assoc, List.singleton_append]) hlast₁ hrest fun j hj => by
        obtain ⟨hjalive, hjfree, hjout⟩ := his j (List.mem_cons_of_mem _ hj)
        refine ⟨by rw [hmoves.isAlive, hjalive], (placeOf?_eq_none_iff hmoves.linked).2 fun pl' => ?_, ?_⟩
        · have hnot := (placeOf?_eq_none_iff h).1 hjfree
          by_cases hpl : pl' = a.place
          · subst hpl
            have hold := hnot a.place
            rw [hocc] at hold
            rw [Function.update_self]
            simp only [List.mem_append, List.mem_cons, not_or] at hold ⊢
            exact ⟨hold.1, fun hji => hirest (hji ▸ hj), hold.2⟩
          · rw [Function.update_of_ne hpl]
            exact hnot pl'
        · intro q hq hup
          rw [hmoves.shape.layout] at hq
          exact hjout q hq (hmoves.above q hup)
    rw [Function.update_idem, List.append_assoc pre, List.singleton_append] at hmoves'
    refine ⟨w₂, ?_, hcolls'.trans hcolls, hmoves.trans hmoves'⟩
    unfold attachInOrder
    rw [bind_of_ok hw₁, bind_of_ok (theRoot_of_root hr₁), hw₂]

/-! ## Checks -/

/-- The instances can be put behind the marker, when those in `removed` are taken out first. -/
def Insertable (w : World) (m : NodeId) (removed before is : List InstanceId) : Prop :=
  is.Nodup ∧ ∀ i ∈ is, i ∉ before ∧ (w.placeOf? i = none ∨ i ∈ removed) ∧
    ∀ r, w.layout.root i = some r → ¬ ReflTransGen w.forest.Up m r

theorem insertable_cons {removed before is : List InstanceId} (hr : w.layout.root i = some r) :
    Insertable w m removed before (i :: is) ↔
      (i ∉ before ∧ (w.placeOf? i = none ∨ i ∈ removed) ∧ ¬ ReflTransGen w.forest.Up m r) ∧
        Insertable w m removed (before ++ [i]) is := by
  unfold Insertable
  constructor
  · rintro ⟨hnd, hall⟩
    obtain ⟨hi, hnd⟩ := List.nodup_cons.1 hnd
    obtain ⟨hbefore, hplace, hout⟩ := hall i List.mem_cons_self
    refine ⟨⟨hbefore, hplace, hout r hr⟩, hnd, fun j hj => ?_⟩
    obtain ⟨hj_before, hj_rest⟩ := hall j (List.mem_cons_of_mem _ hj)
    refine ⟨fun hmem => ?_, hj_rest⟩
    rcases List.mem_append.1 hmem with hmem | hmem
    · exact hj_before hmem
    · obtain rfl := List.mem_singleton.1 hmem
      exact hi hj
  · rintro ⟨⟨hbefore, hplace, hout⟩, hnd, hall⟩
    refine ⟨List.nodup_cons.2 ⟨fun hi => ?_, hnd⟩, fun j hj => ?_⟩
    · exact (hall i hi).1 (List.mem_append_right _ (List.mem_singleton_self i))
    · rcases List.mem_cons.1 hj with rfl | hj
      · refine ⟨hbefore, hplace, fun q hq => ?_⟩
        obtain rfl := Option.some.inj (hr.symm.trans hq)
        exact hout
      · obtain ⟨hj_before, hj_rest⟩ := hall j hj
        exact ⟨fun hmem => hj_before (List.mem_append_left _ hmem), hj_rest⟩

/-- The check of the instances to be inserted finds out whether they can be. -/
theorem checkInserted_apply (m : NodeId) (removed before : List InstanceId) {is : List InstanceId}
    (ht : w.forest.Tidy) (hroot : ∀ i ∈ is, ∃ r, w.layout.root i = some r) :
    Insertable w m removed before is ∧ checkInserted m removed before is w = (.ok (), w) ∨
      ¬ Insertable w m removed before is ∧
        ∃ e, e.kind = .referenceKind ∧ checkInserted m removed before is w = (.error (.failed e), w) := by
  induction is generalizing before with
  | nil => exact Or.inl ⟨⟨List.nodup_nil, fun i hi => by cases hi⟩, rfl⟩
  | cons i is ih =>
    obtain ⟨r, hr⟩ := hroot i List.mem_cons_self
    rw [insertable_cons hr]
    unfold checkInserted
    dsimp only
    by_cases hbefore : i ∈ before
    · rw [if_pos (List.contains_iff_mem.2 hbefore), bind_of_ok (get_apply w),
        bind_of_error (fail_apply _ w)]
      exact Or.inr ⟨fun h => h.1.1 hbefore, _, rfl, rfl⟩
    · rw [if_neg fun h => hbefore (List.contains_iff_mem.1 h), bind_of_ok (get_apply w)]
      by_cases hplace : w.placeOf? i = none ∨ i ∈ removed
      · have htest : ¬ (w.isAttached i && !removed.contains i) = true := by
          rw [Bool.and_eq_true, Bool.not_eq_true', isAttached_iff]
          rintro ⟨hatt, hnot⟩
          rcases hplace with hfree | hmem
          · exact hatt hfree
          · rw [List.contains_iff_mem.2 hmem] at hnot
            cases hnot
        rw [if_neg htest]
        rcases checkOutside_apply m ht hr with ⟨hcheck, hout⟩ | ⟨hcheck, hup⟩
        · rw [bind_of_ok hcheck]
          have hroot_is (j : InstanceId) (hj : j ∈ is) := hroot j (List.mem_cons_of_mem _ hj)
          rcases ih (before ++ [i]) hroot_is with ⟨hrest, hrun⟩ | ⟨hrest, hrun⟩
          · exact Or.inl ⟨⟨⟨hbefore, hplace, hout⟩, hrest⟩, hrun⟩
          · exact Or.inr ⟨fun h => hrest h.2, hrun⟩
        · rw [bind_of_error hcheck]
          exact Or.inr ⟨fun h => h.1.2.2 hup, _, rfl, rfl⟩
      · have htest : (w.isAttached i && !removed.contains i) = true := by
          rw [not_or] at hplace
          rw [Bool.and_eq_true, Bool.not_eq_true', isAttached_iff]
          exact ⟨hplace.1, Bool.eq_false_iff.2 fun h => hplace.2 (List.contains_iff_mem.1 h)⟩
        rw [if_pos htest, bind_of_ok (get_apply w), bind_of_error (fail_apply _ w)]
        exact Or.inr ⟨fun h => hplace h.1.2.1, _, rfl, rfl⟩

end Run

end ReactiveView
