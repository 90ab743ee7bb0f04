import ReactiveView.Proofs.Ownership.Edit
import ReactiveView.World.Children

/-!
# New occupants of a place

A slot gets another child, a collection gets other items. At the end of either edit the world is orderly
again, the place has the new occupants and the row behind its marker follows them (`World.Refills`). For a
collection this is `Run.spliceItems_spec`, for a slot `Run.replaceChild_spec`; what has been checked
suffices for everything after the checks to succeed, so an edit that fails changes nothing.
-/

set_option autoImplicit false

namespace ReactiveView

open Relation

namespace World

variable {w w' w₁ : World} {occ occ' occ₁ : Place → List InstanceId} {pl : Place} {P i : InstanceId}
  {m : NodeId} {is : List InstanceId} {c : CollectionId} {x : Collection}

/-- The place `pl` of `P`, whose marker is `m`, has the occupants `is`; nothing else is different. -/
structure Refills (pl : Place) (P : InstanceId) (m : NodeId) (is : List InstanceId) (w w' : World) :
    Prop where
  orderly : w'.Orderly
  edits : w.Edits P w'
  occupants : w'.occupants = Function.update w.occupants pl is
  stored : ∀ Q name, Place.slot Q name ≠ pl → w'.stored? Q name = w.stored? Q name
  above : ∀ n, ReflTransGen w'.forest.Up m n → ReflTransGen w.forest.Up m n
  row : ∃ e, m ∈ w.forest.children e ∧ m ∈ w'.forest.children e ∧
    ∀ s t, w.forest.children e = s ++ m :: (w.occupants pl).filterMap w.layout.root ++ t →
      w'.forest.children e = s ++ m :: is.filterMap w.layout.root ++ t

/-- A change that concerns neither places nor links moves nobody. -/
theorem Moves.of_same (h : w.Linked occ) (hP : w.isAlive P = true) (hspot : w.layout.spot pl = some (P, m))
    (hs : w.SameShape w') (halive : ∀ i, (w'.inst? i).map (·.alive) = (w.inst? i).map (·.alive))
    (hvalues : ∀ i, (w'.inst? i).map (·.values) = (w.inst? i).map (·.values))
    (hplace : ∀ i, w'.placeOf? i = w.placeOf? i) (hhandles : w.SameHandles w')
    (hforest : w'.forest = w.forest) : w.Moves pl m occ w' occ where
  shape := hs
  alive := halive
  values := hvalues
  handles := hhandles
  linked := by
    have hlinked := h.congr hs hplace (hforest ▸ .rfl)
    have halive' (i : InstanceId) : w'.isAlive i = w.isAlive i := isAlive_congr (halive i)
    unfold Linked
    simp only [halive']
    exact hlinked
  other _ _ := .refl _
  above n hn := by
    rw [hforest] at hn
    exact hn
  row := by
    obtain ⟨e, he⟩ := Layout.Linked.row h pl P m hP hspot
    have hm := he.subset List.mem_cons_self
    rw [hforest]
    exact ⟨e, hm, hm, fun _ _ => .refl _, fun _ _ => id⟩

/-- The end of an edit: what is stored has come to agree with the records and the forest. -/
theorem Moves.refills (h : w.Moves pl m w.occupants w₁ occ₁) (hw : w.Orderly) (hP : w.isAlive P = true)
    (hspot : w.layout.spot pl = some (P, m)) (hs : w₁.SameShape w')
    (halive : ∀ i, w'.isAlive i = w₁.isAlive i) (hplace : ∀ i, w'.placeOf? i = w₁.placeOf? i)
    (hhandles : w₁.SameHandles w') (hforest : w'.forest = w₁.forest) (hocc : w'.occupants = occ₁)
    (hstored : ∀ Q name, Place.slot Q name ≠ pl → w'.stored? Q name = w₁.stored? Q name)
    (hb : w'.Built) : w.Refills pl P m (occ₁ pl) w' := by
  have hshape := h.shape.trans hs
  have halive' (i : InstanceId) : w'.isAlive i = w.isAlive i := (halive i).trans (h.isAlive i)
  obtain ⟨e, hm, hm', hother, hrow⟩ := h.row
  obtain ⟨r, hr, hwithin⟩ := Layout.Linked.within_list hw.linked hP hspot hm
  refine ⟨⟨hb, ?_, fun i hi => ?_⟩, ⟨hshape, halive', h.handles.trans hhandles, ?_, ?_⟩, ?_,
    fun Q name hne => (hstored Q name hne).trans (stored?_congr h.shape (h.values Q) name), ?_, e, hm, ?_, ?_⟩
  · unfold Linked
    rw [hocc, funext halive]
    exact h.linked.congr hs hplace (hforest ▸ .rfl)
  · rw [(h.handles.trans hhandles).handles] at hi
    rw [halive']
    exact hw.handled i hi
  · intro pl' Q m' hspot' hQ
    have hpl : pl' ≠ pl := by
      rintro rfl
      exact hQ (Prod.mk.inj (Option.some.inj (hspot'.symm.trans hspot))).1
    rw [hocc]
    exact h.other pl' hpl
  · intro Q hQ
    rw [hshape.layout, hforest]
    exact Layout.Linked.sameView hw.linked hQ hr hwithin hother
  · funext pl'
    rw [hocc]
    by_cases hpl : pl' = pl
    · subst hpl
      rw [Function.update_self]
    · rw [Function.update_of_ne hpl, h.other pl' hpl]
  · rw [hforest]
    exact h.above
  · rw [hforest]
    exact hm'
  · rw [hforest]
    exact hrow

/-- Moving leaves what is stored in slots. -/
theorem Moves.occupants_slot (h : w.Moves pl m occ w' occ') (Q : InstanceId) (name : String) :
    w'.occupants (.slot Q name) = w.occupants (.slot Q name) := by
  unfold occupants
  dsimp only
  rw [h.isAlive, stored?_congr h.shape (h.values Q)]

theorem Moves.occupants (h : w.Moves pl m occ w' occ') (hcolls : w'.collections = w.collections) :
    w'.occupants = w.occupants := by
  funext pl'
  cases pl' with
  | slot Q name => exact h.occupants_slot Q name
  | sequence d => exact itemsOf_congr (by unfold coll?; rw [hcolls])

/-- A place that keeps its occupants. -/
theorem Refills.same (hw : w.Orderly) (hP : w.isAlive P = true) (hspot : w.layout.spot pl = some (P, m)) :
    w.Refills pl P m (w.occupants pl) w where
  orderly := hw
  edits := .rfl
  occupants := (Function.update_eq_self pl w.occupants).symm
  stored _ _ _ := rfl
  above _ h := h
  row := by
    obtain ⟨e, he⟩ := Layout.Linked.row hw.linked pl P m hP hspot
    have hm := he.subset List.mem_cons_self
    exact ⟨e, hm, hm, fun _ _ => id⟩

/-- An instance can be put into the place with the marker `m`: it stands there already, or it is free and does not
stand above the marker. -/
def Admits (w : World) (pl : Place) (m : NodeId) (j : InstanceId) : Prop :=
  w.placeOf? j = some pl ∨ w.placeOf? j = none ∧ ∀ r, w.layout.root j = some r → ¬ ReflTransGen w.forest.Up m r

/-- The instance has the record of its place and the root that it had. -/
def SameStanding (k : InstanceId) (w w' : World) : Prop :=
  w'.attachment? k = w.attachment? k ∧ w'.rootOf? k = w.rootOf? k

instance {k : InstanceId} : IsPreorder World (SameStanding k) where
  refl _ := ⟨rfl, rfl⟩
  trans _ _ _ h h' := ⟨h'.1.trans h.1, h'.2.trans h.2⟩

theorem sameStanding_mapForest {k : InstanceId} (w : World) (g : Forest → Forest) :
    w.SameStanding k (w.mapForest g) :=
  ⟨rfl, rfl⟩

theorem sameStanding_setAttachment {k : InstanceId} (w : World) (hik : k ≠ i) (a : Option Attachment) :
    w.SameStanding k (w.setAttachment i a) :=
  ⟨attachment?_modifyInstance_of_ne w hik, (sameShape_setAttachment w i a).rootOf? k⟩

/-! ## Items -/

theorem sameShape_setItems (w : World) (c : CollectionId) (items : List InstanceId) :
    w.SameShape (w.setItems c items) :=
  sameShape_modifyCollection w c fun _ => rfl

theorem itemsOf_setItems (hx : w.coll? c = some x) (items : List InstanceId) (d : CollectionId) :
    (w.setItems c items).itemsOf d = if d = c then items else w.itemsOf d := by
  unfold itemsOf setItems
  by_cases hd : d = c
  · subst hd
    rw [coll?_modifyCollection_self, hx, if_pos rfl]
    rfl
  · rw [coll?_modifyCollection_of_ne w _ (Ne.symm hd), if_neg hd]

theorem Built.setItems (hb : w.Built) (hx : w.coll? c = some x) {items : List InstanceId}
    (hacc : ∀ i ∈ items, w.accepts x.element i = true) : (w.setItems c items).Built := by
  have hext := Extends.of_sameShape (sameShape_setItems w c items)
  have hcoll {d : CollectionId} {y : Collection} (hy : (w.setItems c items).coll? d = some y) :
      d = c ∧ y = { x with items := items } ∨ w.coll? d = some y := by
    unfold World.setItems at hy
    by_cases hd : d = c
    · subst hd
      rw [coll?_modifyCollection_self, hx] at hy
      exact Or.inl ⟨rfl, (Option.some.inj hy).symm⟩
    · rw [coll?_modifyCollection_of_ne w _ (Ne.symm hd)] at hy
      exact Or.inr hy
  refine ⟨hb.compiled, hb.plain, ?_, ?_, ?_, ?_, hb.noObjects⟩
  · intro Q y hy
    obtain ⟨cls, v, hf⟩ := hb.inst Q y hy
    exact ⟨cls, v, hf.congr hext rfl rfl⟩
  · intro d y hy
    rcases hcoll hy with ⟨rfl, rfl⟩ | hy
    · exact hb.coll d x hx
    · exact hb.coll d y hy
  · intro d y hy halive
    rcases hcoll hy with ⟨-, rfl⟩ | hy
    · exact hb.collAlive c x hx halive
    · exact hb.collAlive d y hy halive
  · intro d y i hy hi
    rcases hcoll hy with ⟨-, rfl⟩ | hy
    · exact hext.accepts (hacc i hi)
    · exact hext.accepts (hb.accepted d y i hy hi)

theorem mem_take_drop {α : Type} (items : List α) (start count : Nat) :
    items.take start ++ (items.drop start).take count ++ items.drop (start + count) = items := by
  rw [List.append_assoc, ← List.drop_drop, List.take_append_drop, List.take_append_drop]

end World

namespace Run

open World

variable {w : World} {P : InstanceId} {m : NodeId} {c : CollectionId} {x : Collection}

/-- The second part of a splice: the instances to be inserted have been found. -/
def spliceItems (c : CollectionId) (coll : Collection) (start count : Nat) (inserted : List InstanceId) :
    Run (List InstanceId) := do
  let items ← ask fun w => w.itemsOf c
  let removed := (items.drop start).take count
  checkInserted coll.anchor removed [] inserted
  removed.forM release
  let items := spliced items start count inserted
  update fun w => w.setItems c items
  attachInOrder ⟨.sequence c, coll.sink⟩ (← nodeBefore coll.anchor items start) inserted
  return removed

/-- The node behind which an item goes is the last one of the row before it. -/
theorem nodeBefore_ok {items : List InstanceId} {n : Nat} (hn : n ≤ items.length)
    (hroot : ∀ i ∈ items.take n, ∃ r, w.layout.root i = some r) :
    ∃ anchor init, nodeBefore m items n w = (.ok anchor, w) ∧
      m :: (items.take n).filterMap w.layout.root = init ++ [anchor] := by
  cases n with
  | zero => exact ⟨m, [], rfl, by rw [List.take_zero]; rfl⟩
  | succ n =>
    have hget : items[n]? = some (items[n]) := List.getElem?_eq_getElem hn
    have htake : items.take (n + 1) = items.take n ++ [items[n]] := by
      rw [List.take_add_one, hget, Option.toList_some]
    obtain ⟨r, hr⟩ := hroot items[n] (by rw [htake]; exact List.mem_append_right _ (List.mem_singleton_self _))
    refine ⟨r, m :: (items.take n).filterMap w.layout.root, ?_, ?_⟩
    · change (ofOption items[n]? >>= theRoot) w = _
      rw [hget, bind_of_ok (ofOption_some _ _), theRoot_of_root hr]
    · rw [htake, List.filterMap_append, List.filterMap_cons_some hr, List.filterMap_nil, List.cons_append]

/-- Once a stretch of the occupants of a place has been released, those that were free or stood in it stand
nowhere. -/
theorem not_mem_of_released {occ : Place → List InstanceId} {pl : Place} {A R B : List InstanceId}
    {i : InstanceId} (h : w.Linked occ) (hocc : occ pl = A ++ R ++ B)
    (hi : w.placeOf? i = none ∨ i ∈ R) (pl' : Place) : i ∉ Function.update occ pl (A ++ B) pl' := by
  have hR : i ∈ R → i ∈ occ pl := by
    intro hmem
    rw [hocc]
    exact List.mem_append_left _ (List.mem_append_right _ hmem)
  by_cases hpl : pl' = pl
  · subst hpl
    rw [Function.update_self]
    intro hmem
    have hnd := Layout.Linked.nodup h pl'
    rw [hocc] at hnd
    rcases hi with hfree | hmem_R
    · refine (placeOf?_eq_none_iff h).1 hfree pl' ?_
      rw [hocc]
      rcases List.mem_append.1 hmem with hmem | hmem
      · exact List.mem_append_left _ (List.mem_append_left _ hmem)
      · exact List.mem_append_right _ hmem
    · obtain ⟨hAR, -, hdisj⟩ := List.nodup_append.1 hnd
      rcases List.mem_append.1 hmem with hmem | hmem
      · exact (List.nodup_append.1 hAR).2.2 i hmem i hmem_R rfl
      · exact hdisj i (List.mem_append_right _ hmem_R) i hmem rfl
  · rw [Function.update_of_ne hpl]
    intro hmem
    have hplace := (Layout.Linked.place_iff h i pl').2 hmem
    rcases hi with hfree | hmem_R
    · rw [hfree] at hplace
      cases hplace
    · rw [(Layout.Linked.place_iff h i pl).2 (hR hmem_R)] at hplace
      exact hpl (Option.some.inj hplace).symm

section Splice

variable {coll : Collection} {start count : Nat} {inserted : List InstanceId} (hw : w.Orderly)
  (hx : w.coll? c = some x) (hcoll : coll.shape = x.shape) (hP : w.isAlive x.owner = true)
  (hle : start + count ≤ (w.itemsOf c).length)
  (hins : ∀ i ∈ inserted, w.isAlive i = true ∧ w.accepts x.element i = true)

include hw hx hcoll hP hle hins

/-- Instances that can be inserted are. -/
theorem spliceItems_ok
    (hok : Insertable w x.anchor (((w.itemsOf c).drop start).take count) [] inserted) :
    ∃ w', spliceItems c coll start count inserted w =
        (.ok (((w.itemsOf c).drop start).take count), w') ∧
      w.Refills (.sequence c) x.owner x.anchor (spliced (w.itemsOf c) start count inserted) w' := by
  have hlinked := hw.linked
  have hcheck := (checkInserted_apply x.anchor (((w.itemsOf c).drop start).take count) []
    (Layout.Linked.tidy hlinked)
    (fun i hi => Layout.Linked.rooted hlinked i (hins i hi).1)).resolve_right fun h => h.1 hok
  have hanchor : coll.anchor = x.anchor := congrArg (·.2.1) hcoll
  unfold spliceItems
  rw [bind_of_ok (ask_apply _ _), hanchor]
  dsimp only
  rw [bind_of_ok hcheck.2]
  have hspot : w.layout.spot (.sequence c) = some (x.owner, x.anchor) := by
    change (w.coll? c).map (fun x => (x.owner, x.anchor)) = _
    rw [hx]
    rfl
  have hsplit := mem_take_drop (w.itemsOf c) start count
  have hspliced : spliced (w.itemsOf c) start count inserted =
    (w.itemsOf c).take start ++ inserted ++ (w.itemsOf c).drop (start + count) := rfl
  generalize spliced (w.itemsOf c) start count inserted = items at hspliced ⊢
  generalize hA : (w.itemsOf c).take start = A at hsplit hspliced
  generalize hR : ((w.itemsOf c).drop start).take count = R at hsplit hok ⊢
  generalize (w.itemsOf c).drop (start + count) = B at hsplit hspliced
  have hocc : w.occupants (.sequence c) = A ++ R ++ B := hsplit.symm
  have hnd := Layout.Linked.nodup hlinked (.sequence c)
  have hlenA : A.length = start := by
    rw [← hA, List.length_take]
    omega
  -- the instances to be replaced are released
  obtain ⟨w₁, hrun₁, hcolls₁, hmoves₁⟩ := forM_release_ok hlinked hP hspot hocc
  have hx₁ : w₁.coll? c = some x := by
    unfold coll? at hx ⊢
    rw [hcolls₁, hx]
  -- the items are stored
  have hmoves₂ : w₁.Moves (.sequence c) x.anchor _ (w₁.setItems c items) _ :=
    .of_same hmoves₁.linked (by rw [hmoves₁.isAlive, hP]) (by rw [hmoves₁.spot, hspot])
      (sameShape_setItems w₁ c items) (fun _ => rfl) (fun _ => rfl) (fun _ => rfl) ⟨rfl, rfl⟩ rfl
  have hmoves := hmoves₁.trans hmoves₂
  have hroot (i : InstanceId) (hi : i ∈ items.take start) :
      ∃ r, (w₁.setItems c items).layout.root i = some r := by
    rw [hmoves.shape.layout]
    refine Layout.Linked.rooted hlinked i (Layout.Linked.live_item hlinked i (.sequence c) ?_)
    rw [hspliced, List.append_assoc, List.take_left' hlenA] at hi
    rw [hocc]
    exact List.mem_append_left _ (List.mem_append_left _ hi)
  obtain ⟨anchor, init, hnode, hlast⟩ := nodeBefore_ok (m := x.anchor) (by
    rw [hspliced, List.length_append, List.length_append, hlenA]
    omega) hroot
  rw [hspliced, List.append_assoc, List.take_left' hlenA, ← List.append_assoc, ← hspliced] at hlast
  -- the new ones are attached one behind the other
  obtain ⟨w₃, hrun₃, hcolls₃, hmoves₃⟩ := attachInOrder_ok (a := ⟨.sequence c, coll.sink⟩) hmoves.linked (by rw [hmoves.isAlive, hP]) (by rw [hmoves.spot, hspot])
    (Function.update_self _ _ _) hlast hok.1 (by
      intro i hi
      obtain ⟨-, hplace, hout⟩ := hok.2 i hi
      refine ⟨by rw [hmoves.isAlive, (hins i hi).1], (placeOf?_eq_none_iff hmoves.linked).2 ?_, ?_⟩
      · exact not_mem_of_released hlinked hocc hplace
      · intro r hr hup
        rw [hmoves.shape.layout] at hr
        exact hout r hr (hmoves.above r hup))
  rw [Function.update_idem] at hmoves₃
  have htotal := hmoves.trans hmoves₃
  refine ⟨w₃, ?_, ?_⟩
  · rw [bind_of_ok hrun₁, bind_of_ok (update_apply _ _), bind_of_ok hnode, bind_of_ok hrun₃, pure_apply]
  · have hb₂ : (w₁.setItems c items).Built := by
      refine (hmoves₁.built hcolls₁ hw.toBuilt).setItems hx₁ fun i hi => ?_
      refine (Extends.of_sameShape hmoves₁.shape).accepts ?_
      rw [hspliced, List.append_assoc, List.mem_append, List.mem_append] at hi
      have hold (hmem : i ∈ w.occupants (.sequence c)) : w.accepts x.element i = true := by
        have hitems : w.itemsOf c = x.items := by
          unfold itemsOf
          rw [hx]
        exact hw.accepted c x i hx (hitems ▸ hmem)
      rcases hi with hi | hi | hi
      · exact hold (by rw [hocc]; exact List.mem_append_left _ (List.mem_append_left _ hi))
      · exact (hins i hi).2
      · exact hold (by rw [hocc]; exact List.mem_append_right _ hi)
    have hoccupants : w₃.occupants = Function.update w.occupants (.sequence c) items := by
      funext pl
      cases pl with
      | slot Q name =>
        rw [htotal.occupants_slot, Function.update_of_ne (by intro h; cases h)]
      | sequence d =>
        have hitems : w₃.itemsOf d = (w₁.setItems c items).itemsOf d :=
          itemsOf_congr (by unfold coll?; rw [hcolls₃])
        have hitems₁ : w₁.itemsOf d = w.itemsOf d := itemsOf_congr (by unfold coll?; rw [hcolls₁])
        change w₃.itemsOf d = _
        rw [hitems, itemsOf_setItems hx₁, hitems₁]
        by_cases hd : d = c
        · subst hd
          rw [if_pos rfl, Function.update_self]
        · rw [if_neg hd, Function.update_of_ne (by intro h; exact hd (Place.sequence.inj h))]
          rfl
    have hrefills := htotal.refills hw hP hspot .rfl (fun _ => rfl) (fun _ => rfl) .rfl rfl
      (hspliced ▸ hoccupants) (fun _ _ _ => rfl) (hmoves₃.built hcolls₃ hb₂)
    rw [Function.update_self, ← hspliced] at hrefills
    exact hrefills

/-- A splice of instances succeeds if they can be inserted, and changes nothing otherwise. -/
theorem spliceItems_spec :
    (Insertable w x.anchor (((w.itemsOf c).drop start).take count) [] inserted ∧
        ∃ w', spliceItems c coll start count inserted w =
            (.ok (((w.itemsOf c).drop start).take count), w') ∧
          w.Refills (.sequence c) x.owner x.anchor (spliced (w.itemsOf c) start count inserted) w') ∨
      (¬ Insertable w x.anchor (((w.itemsOf c).drop start).take count) [] inserted ∧
        ∃ e, e.kind = .referenceKind ∧
          spliceItems c coll start count inserted w = (.error (.failed e), w)) := by
  by_cases hok : Insertable w x.anchor (((w.itemsOf c).drop start).take count) [] inserted
  · exact Or.inl ⟨hok, spliceItems_ok hw hx hcoll hP hle hins hok⟩
  · refine Or.inr ⟨hok, ?_⟩
    have hlinked := hw.linked
    have hanchor : coll.anchor = x.anchor := congrArg (·.2.1) hcoll
    obtain ⟨-, e, hkind, hcheck⟩ := (checkInserted_apply x.anchor (((w.itemsOf c).drop start).take count)
      [] (Layout.Linked.tidy hlinked)
      (fun i hi => Layout.Linked.rooted hlinked i (hins i hi).1)).resolve_left fun h => hok h.1
    unfold spliceItems
    rw [bind_of_ok (ask_apply _ _), hanchor]
    dsimp only
    rw [bind_of_error hcheck]
    exact ⟨e, hkind, rfl⟩

end Splice

/-! ## Children of slots -/

theorem forM_none {α : Type} (f : α → Run Unit) : (none : Option α).forM f = (pure () : Run Unit) := rfl

theorem forM_some {α : Type} (f : α → Run Unit) (a : α) : (some a).forM f = f a := rfl

section Slot

variable {T : InstanceId} {y : Instance} {cls : Class} {n : Nat} {p : PropertyDescriptor}
  {element : ElementType} (hw : w.Orderly) (hy : w.inst? T = some y)
  (hc : w.class? y.classId = some cls) (hp : cls.descriptor.properties[n]? = some p)
  (hk : p.kind = .slot element) (hT : w.isAlive T = true)

/-- Releasing the child that a slot has had. -/
theorem release_child_ok (child : Option InstanceId) {w₁ : World} {occ₁ : Place → List InstanceId}
    {m : NodeId} {current : Option InstanceId} (hspot : w.layout.spot (.slot T p.name) = some (T, m))
    (h : w.Moves (.slot T p.name) m w.occupants w₁ occ₁) (hcolls : w₁.collections = w.collections)
    (hocc : occ₁ (.slot T p.name) = child.toList ++ current.toList) (hne : child = none ∨ child ≠ current) :
    ∃ w₂ occ₂, current.forM release w₁ = (.ok (), w₂) ∧ w₂.collections = w.collections ∧
      w.Moves (.slot T p.name) m w.occupants w₂ occ₂ ∧ occ₂ (.slot T p.name) = child.toList := by
  cases current with
  | none => exact ⟨w₁, occ₁, rfl, hcolls, h, by rw [hocc]; exact List.append_nil _⟩
  | some k =>
    have hplace : w₁.placeOf? k = some (.slot T p.name) := by
      rw [Layout.Linked.place_iff h.linked k, hocc]
      exact List.mem_append_right _ (List.mem_singleton_self k)
    obtain ⟨w₂, hrun, hcolls₂, hmoves⟩ := release_ok h.linked hplace (by rw [h.spot, hspot])
    refine ⟨w₂, _, hrun, hcolls₂.trans hcolls, h.trans hmoves, ?_⟩
    rw [Function.update_self, hocc]
    cases child with
    | none =>
      change [k].erase k = []
      rw [List.erase_cons_head]
    | some j =>
      have hjk : j ≠ k := by
        rintro rfl
        rcases hne with h' | h'
        · cases h'
        · exact h' rfl
      change [j, k].erase k = [j]
      rw [List.erase_cons_tail (by simpa using hjk), List.erase_cons_head]

include hw hy hc hp hk hT

/-- What is known of a slot: its site, its value and its occupants. -/
theorem slot_spec : ∃ view m sink val, y.view = some view ∧ view.sites[n]? = some (.slot m sink) ∧
    y.values[n]? = some val ∧ w.occupants (.slot T p.name) = val.inst?.toList ∧
    w.layout.spot (.slot T p.name) = some (T, m) := by
  obtain ⟨view, hf⟩ := hw.toBuilt.formed hy hc
  obtain ⟨m, sink, val, hslot⟩ := hf.exists_slot hy hp (hw.compiled.valid hc) hT hk
  exact ⟨view, m, sink, val, hf.view, hslot⟩

/-- Storing the child of a slot after the records and the forest have been changed. -/
theorem refills_storeValue {occ₁ : Place → List InstanceId} {w₁ : World} {m : NodeId} {child : Option InstanceId}
    (hspot : w.layout.spot (.slot T p.name) = some (T, m))
    (h : w.Moves (.slot T p.name) m w.occupants w₁ occ₁) (hcolls : w₁.collections = w.collections)
    (hocc : occ₁ (.slot T p.name) = child.toList) :
    w.Refills (.slot T p.name) T m child.toList
      (w₁.storeValue T n ((child.map Value.inst).getD .null)) := by
  have hb₁ := h.built hcolls hw.toBuilt
  obtain ⟨z, hz, hyz⟩ := h.shape.exists_inst hy
  have hclass : z.classId = y.classId := congrArg (·.1) hyz
  have hc₁ : w₁.class? z.classId = some cls := by rw [h.shape.class?, hclass, hc]
  have halive : w₁.isAlive T = true := by rw [h.isAlive, hT]
  have hinst : ((child.map Value.inst).getD .null).inst? = child := by
    cases child <;> rfl
  rw [← hocc]
  refine h.refills hw hT hspot (sameShape_storeValue _ _ _ _) (isAlive_storeValue _ _ _ _)
    (placeOf?_storeValue _ _ _ _) ⟨rfl, rfl⟩ rfl ?_ (fun Q name hne => ?_) ?_
  · rw [hb₁.occupants_storeValue hz hc₁ hp halive, hinst, h.occupants hcolls, ← hocc]
    funext pl
    by_cases hpl : pl = .slot T p.name
    · subst hpl
      rw [Function.update_self]
    · rw [Function.update_of_ne hpl, h.other pl hpl]
  · obtain ⟨view, hf⟩ := hb₁.formed hz hc₁
    exact hf.stored?_storeValue_of_ne hz hp (hw.compiled.valid hc) hne
  · refine hb₁.storeValue hz hc₁ hp (fun element' h' => ?_) fun site old hold => ?_
    · rw [hk] at h'
      cases h'
    · rw [hk] at hold ⊢
      cases child with
      | none =>
        cases hold with
        | empty => exact .empty
        | child => exact .empty
      | some j =>
        cases hold with
        | empty => exact .child
        | child => exact .child

/-- Taking the child out of a slot succeeds. -/
theorem replaceChild_none : ∃ m w', replaceChild T n p.name none w = (.ok (), w') ∧
    w.layout.spot (.slot T p.name) = some (T, m) ∧ w.Refills (.slot T p.name) T m [] w' := by
  obtain ⟨view, m, sink, val, hview, hsite, hval, hocc, hspot⟩ := slot_spec hw hy hc hp hk hT
  obtain ⟨w₂, occ₂, hrun, hcolls, hmoves, hocc₂⟩ := release_child_ok none hspot
    (.rfl hw.linked hT hspot) rfl hocc (Or.inl rfl)
  refine ⟨m, _, ?_, hspot, refills_storeValue hw hy hc hp hk hT hspot hmoves hcolls hocc₂⟩
  unfold replaceChild
  rw [bind_of_ok (theInstance_of hy), hval, bind_of_ok (ofOption_some _ _), if_neg (by exact Bool.false_ne_true),
    bind_of_ok (theView_of hy hview), hsite]
  dsimp only
  rw [forM_none, bind_of_ok (pure_apply _ _), bind_of_ok hrun, update_apply]

/-- Putting a free instance into a slot that does not stand below it succeeds. -/
theorem replaceChild_some {j : InstanceId} (hj : w.isAlive j = true) (hfree : w.placeOf? j = none)
    (hout : ∀ m r, w.layout.spot (.slot T p.name) = some (T, m) → w.layout.root j = some r →
      ¬ Relation.ReflTransGen w.forest.Up m r) :
    ∃ m w', replaceChild T n p.name (some j) w = (.ok (), w') ∧
      w.layout.spot (.slot T p.name) = some (T, m) ∧ w.Refills (.slot T p.name) T m [j] w' := by
  obtain ⟨view, m, sink, val, hview, hsite, hval, hocc, hspot⟩ := slot_spec hw hy hc hp hk hT
  have hlinked := hw.linked
  obtain ⟨r, hr⟩ := Layout.Linked.rooted hlinked j hj
  have hne : some j ≠ val.inst? := by
    intro heq
    refine (placeOf?_eq_none_iff hlinked).1 hfree (.slot T p.name) ?_
    rw [hocc, ← heq]
    exact List.mem_singleton_self j
  obtain ⟨w₁, hrun, hcolls, hmoves⟩ := attachAfter_ok (a := ⟨.slot T p.name, sink⟩) hlinked hT hspot hj hr hfree
    (List.nil_append _).symm (show m :: ([] : List InstanceId).filterMap w.layout.root = [] ++ [m] from rfl)
    (hout m r hspot hr)
  obtain ⟨w₂, occ₂, hrun₂, hcolls₂, hmoves₂, hocc₂⟩ := release_child_ok (some j) hspot hmoves hcolls
    (by rw [Function.update_self, hocc]; rfl) (Or.inr hne)
  refine ⟨m, _, ?_, hspot, refills_storeValue hw hy hc hp hk hT hspot hmoves₂ hcolls₂ hocc₂⟩
  unfold replaceChild
  rw [bind_of_ok (theInstance_of hy), hval, bind_of_ok (ofOption_some _ _), if_neg (by simpa using hne),
    bind_of_ok (theView_of hy hview), hsite]
  dsimp only
  rw [forM_some, bind_of_ok hrun, bind_of_ok hrun₂, update_apply]

/-- Putting a child into a slot, or none: if the slot admits the child it becomes the only occupant, and otherwise
nothing changes. -/
theorem replaceChild_spec {child : Option InstanceId} (hchild : ∀ j ∈ child, w.isAlive j = true) :
    ∃ m, w.layout.spot (.slot T p.name) = some (T, m) ∧
      ((∀ j ∈ child, w.Admits (.slot T p.name) m j) ∧ (∃ w', replaceChild T n p.name child w = (.ok (), w') ∧
          w.Refills (.slot T p.name) T m child.toList w') ∨
        ¬ (∀ j ∈ child, w.Admits (.slot T p.name) m j) ∧
          ∃ e, e.kind = .referenceKind ∧ replaceChild T n p.name child w = (.error (.failed e), w)) := by
  cases child with
  | none =>
    obtain ⟨m, w', hrun, hspot, hrefills⟩ := replaceChild_none hw hy hc hp hk hT
    exact ⟨m, hspot, Or.inl ⟨nofun, w', hrun, hrefills⟩⟩
  | some j =>
    obtain ⟨view, m, sink, val, hview, hsite, hval, hocc, hspot⟩ := slot_spec hw hy hc hp hk hT
    refine ⟨m, hspot, ?_⟩
    obtain ⟨r, hr⟩ := Layout.Linked.rooted hw.linked j (hchild j rfl)
    by_cases hthere : w.placeOf? j = some (.slot T p.name)
    · -- the child that is there already is not attached again
      have hcurrent : val.inst? = some j := by
        rw [Layout.Linked.place_iff hw.linked j, hocc] at hthere
        exact Option.mem_toList.1 hthere
      refine Or.inl ⟨fun i hi => Option.some.inj hi ▸ Or.inl hthere, w, ?_, ?_⟩
      · unfold replaceChild
        rw [bind_of_ok (theInstance_of hy), hval, bind_of_ok (ofOption_some _ _), hcurrent,
          if_pos (by simp)]
        rfl
      · rw [← hcurrent, ← hocc]
        exact .same hw hT hspot
    · rcases attachAfter_cases m ⟨.slot T p.name, sink⟩ (Layout.Linked.tidy hw.linked) hr with
        ⟨hfree, hout⟩ | ⟨hnot, e, hkind, hrun⟩
      · obtain ⟨m', w', hrun, hspot', hrefills⟩ :=
          replaceChild_some hw hy hc hp hk hT (hchild j rfl) hfree fun m' r' hspot' hr' => by
            obtain rfl := congrArg Prod.snd (Option.some.inj (hspot.symm.trans hspot'))
            obtain rfl := Option.some.inj (hr.symm.trans hr')
            exact hout
        obtain rfl := congrArg Prod.snd (Option.some.inj (hspot.symm.trans hspot'))
        refine Or.inl ⟨fun i hi => ?_, w', hrun, hrefills⟩
        obtain rfl := Option.some.inj hi
        exact Or.inr ⟨hfree, fun r' hr' => Option.some.inj (hr.symm.trans hr') ▸ hout⟩
      · refine Or.inr ⟨fun hall => ?_, e, hkind, ?_⟩
        · obtain ⟨hfree, hout⟩ := (hall j rfl).resolve_left hthere
          exact hnot ⟨hfree, hout r hr⟩
        · have hother : val.inst? ≠ some j := fun hcurrent => hthere <|
            (Layout.Linked.place_iff hw.linked j _).2 (hocc ▸ Option.mem_toList.2 hcurrent)
          unfold replaceChild
          rw [bind_of_ok (theInstance_of hy), hval, bind_of_ok (ofOption_some _ _),
            if_neg (by simpa using Ne.symm hother), bind_of_ok (theView_of hy hview), hsite]
          dsimp only
          rw [forM_some, bind_of_error hrun]

end Slot

/-! ### Other instances -/

theorem sameStanding_attachAfter {i k : InstanceId} (hik : k ≠ i) (anchor : NodeId) (a : Attachment) :
    Keeps (SameStanding k) (attachAfter i anchor a) := by
  refine .attachAfter (fun w r _ => ?_) fun w => sameStanding_setAttachment w hik (some a)
  rw [edit_apply]
  exact upkeep_trans (sameStanding_mapForest w _) (keeps_ofExcept _ _)

theorem sameStanding_release {i k : InstanceId} (hik : k ≠ i) : Keeps (SameStanding k) (release i) :=
  .release (fun w => sameStanding_setAttachment w hik none) fun w n => sameStanding_mapForest w fun f => f.unlink n

theorem sameStanding_storeValue (k T : InstanceId) (n : Nat) (w : World) (v : Value) :
    w.SameStanding k (w.storeValue T n v) :=
  ⟨attachment?_congr (map_inst?_modifyInstance (·.attachment) (by exact fun _ => rfl) w T k),
    (sameShape_storeValue w T n v).rootOf? k⟩

/-- An instance that has been released has a root without a parent. -/
theorem parent?_of_release {i : InstanceId} {r : NodeId} {w' : World} (hplace : w.placeOf? i ≠ none)
    (hr : w.rootOf? i = some r) (hrun : release i w = (.ok (), w')) : w'.forest.parent? r = none := by
  rw [release_of (isAttached_iff.2 hplace) hr] at hrun
  obtain ⟨-, rfl⟩ := Prod.mk.inj hrun
  exact Forest.parent?_unlink_self _ _

/-- The children apart, everybody keeps the record, and the root of the child that gives way is taken out. -/
theorem replaceChild_others {T : InstanceId} {y : Instance} {n : Nat} {name : String} {child : Option InstanceId}
    {val : Value} {w' : World} (hy : w.inst? T = some y) (hval : y.values[n]? = some val)
    (hrun : replaceChild T n name child w = (.ok (), w')) {k : InstanceId} (hk : child ≠ some k) :
    (val.inst? ≠ some k → w'.attachment? k = w.attachment? k) ∧
      ∀ r, val.inst? = some k → w.placeOf? k ≠ none → w.rootOf? k = some r → w'.forest.parent? r = none := by
  unfold replaceChild at hrun
  rw [bind_of_ok (theInstance_of hy), hval, bind_of_ok (ofOption_some _ _)] at hrun
  split at hrun
  · next hsame =>
    obtain ⟨-, rfl⟩ := Prod.mk.inj hrun
    refine ⟨fun _ => rfl, fun r hcurrent => ?_⟩
    rw [Bool.and_eq_true, beq_iff_eq, hcurrent] at hsame
    exact absurd hsame.2 hk
  · obtain ⟨view, w₀, hview, hrun⟩ := bind_eq_ok_iff.1 hrun
    obtain rfl : w = w₀ := by
      have hsame := keeps_theView (R := Eq) T w
      rw [hview] at hsame
      exact hsame
    generalize view.sites[n]? = site at hrun
    rcases site with _ | _ | ⟨anchor, sink⟩ | _
    case some.slot =>
      obtain ⟨_, w₁, hattach, hrun⟩ := bind_eq_ok_iff.1 hrun
      obtain ⟨_, w₂, hrelease, hstore⟩ := bind_eq_ok_iff.1 hrun
      obtain ⟨-, rfl⟩ := Prod.mk.inj hstore
      have hbefore : w.SameStanding k w₁ := by
        have hkeeps : Keeps (SameStanding k) (child.forM fun j => attachAfter j anchor ⟨.slot T name, sink⟩) := by
          cases child with
          | none => exact keeps_pure _
          | some j => exact sameStanding_attachAfter (Ne.symm fun h => hk (congrArg some h)) anchor _
        have hstands := hkeeps w
        rw [hattach] at hstands
        exact hstands
      have hstored := sameStanding_storeValue k T n w₂ ((child.map Value.inst).getD .null)
      refine ⟨fun hother => ?_, fun r hcurrent hplace hr => ?_⟩
      · have hbehind : w₁.SameStanding k w₂ := by
          have hkeeps : Keeps (SameStanding k) (val.inst?.forM release) := by
            cases hinst : val.inst? with
            | none => exact keeps_pure _
            | some i => exact sameStanding_release fun h => hother (h ▸ hinst)
          have hstands := hkeeps w₁
          rw [hrelease] at hstands
          exact hstands
        exact hstored.1.trans (hbehind.1.trans hbefore.1)
      · rw [hcurrent, forM_some] at hrelease
        have hplace₁ : w₁.placeOf? k = w.placeOf? k := congrArg (Option.map Attachment.place) hbefore.1
        have hparted : w₂.forest.parent? r = none :=
          parent?_of_release (hplace₁ ▸ hplace) (hbefore.2.trans hr) hrelease
        exact hparted
    all_goals cases hrun

end Run

end ReactiveView
