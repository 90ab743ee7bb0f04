import ReactiveView.Proofs.Ownership.Drop
import Mathlib.Data.Finset.Card

/-!
# Settling

A change is *harmless* when it keeps worlds orderly and respects every anchored set, as long as the
instances that it works with are held by handles (`World.Harmless`). Letting go of what nothing holds is
harmless (`World.Orderly.settle`), and afterwards everything that is in use is held, so that all instances
in use are anchored (`World.Orderly.anchored_settle`).
-/

set_option autoImplicit false

namespace ReactiveView

namespace World

variable {w w' : World} {P i : InstanceId} {pl : Place} {K T : InstanceId → Prop}
  {H : List InstanceId}

/-- As long as the instances `H` are held by handles, the change keeps worlds orderly and respects every
anchored set. -/
def Harmless (H : List InstanceId) (w w' : World) : Prop :=
  w.Orderly → H ⊆ w.handles → w'.Orderly ∧ ∀ K, w.Anchored K → w.Respects K w'

theorem anchored_empty (w : World) : w.Anchored fun _ => False := fun _ h => h.elim

/-- A harmless change loses no handle. -/
theorem Harmless.handles (h : w.Harmless H w') (hw : w.Orderly) (hH : H ⊆ w.handles) :
    w.handles ⊆ w'.handles :=
  ((h hw hH).2 _ w.anchored_empty).handles

instance : IsPreorder World (Harmless H) where
  refl w h _ := ⟨h, fun _ hK => .refl hK⟩
  trans a b c hab hbc ha hH := by
    have hsub := hab.handles ha hH
    obtain ⟨hb, hr⟩ := hab ha hH
    obtain ⟨hc, hr'⟩ := hbc hb (List.Subset.trans hH hsub)
    refine ⟨hc, fun K hK => ?_⟩
    have hKb := hr K hK
    exact hKb.trans (hr' K (hKb.anchored hK))

theorem Harmless.mono {H' : List InstanceId} (h : w.Harmless H w') (hH : H ⊆ H') : w.Harmless H' w' :=
  fun hw hH' => h hw (List.Subset.trans hH hH')

theorem Calm.harmless (h : w.Calm w') : w.Harmless H w' := fun hw _ =>
  ⟨h.orderly hw, fun _ hK => h.respects hK⟩

/-! ## What is held -/

theorem mem_heldInstances_of_handle (h : i ∈ w.handles) : i ∈ w.heldInstances := by
  unfold heldInstances
  refine List.mem_append_left _ (List.mem_append_left _ (List.mem_append_left _ ?_))
  exact h

theorem mem_liveInstances {x : Instance} (hx : w.inst? P = some x) (hP : w.isAlive P = true) :
    x ∈ w.liveInstances := by
  unfold isAlive at hP
  rw [hx] at hP
  exact List.mem_filter.2 ⟨Array.mem_toList_iff.2 (Array.mem_of_getElem? hx), hP⟩

/-- Whoever stands in a place is held. -/
theorem Orderly.mem_heldInstances_of_place (h : w.Orderly) (hplace : w.placeOf? i = some pl) :
    i ∈ w.heldInstances := by
  have hi := (Layout.Linked.place_iff h.linked i pl).1 hplace
  unfold heldInstances
  cases pl with
  | sequence c =>
    obtain ⟨P, m, hspot, hP⟩ := Layout.Linked.live_owner h.linked i _ hi
    obtain ⟨x, hx, rfl, -⟩ := spot_sequence hspot
    refine List.mem_append_left _ (List.mem_append_right _ (List.mem_flatMap.2 ⟨x, ?_, ?_⟩))
    · have hmem : x ∈ w.collections.toList := Array.mem_toList_iff.2 (Array.mem_of_getElem? hx)
      exact List.mem_filter.2 ⟨hmem, h.collAlive c x hx hP⟩
    · have hitems : i ∈ w.itemsOf c := hi
      unfold itemsOf at hitems
      rw [hx] at hitems
      exact hitems
  | slot P name =>
    obtain ⟨hP, hstored⟩ := mem_occupants_slot.1 hi
    obtain ⟨x, c, n, hx, -, -, hval⟩ := exists_of_stored? hstored
    refine List.mem_append_left _ (List.mem_append_left _ (List.mem_append_right _ ?_))
    refine List.mem_flatMap.2 ⟨x, mem_liveInstances hx hP, ?_⟩
    exact List.mem_filterMap.2 ⟨_, List.mem_of_getElem? hval, rfl⟩

/-- Whoever is held by nothing stands nowhere, and no handle refers to it. -/
theorem Orderly.idle (h : w.Orderly) (hi : i ∈ w.idleInstances) :
    w.placeOf? i = none ∧ i ∉ w.handles := by
  obtain ⟨-, htest⟩ := List.mem_filter.1 hi
  rw [Bool.and_eq_true, Bool.not_eq_true'] at htest
  have hnot : i ∉ w.heldInstances := fun hmem => by
    rw [List.contains_iff_mem.2 hmem] at htest
    cases htest.2
  refine ⟨?_, fun hmem => hnot (mem_heldInstances_of_handle hmem)⟩
  cases hplace : w.placeOf? i with
  | none => rfl
  | some pl => exact absurd (h.mem_heldInstances_of_place hplace) hnot

theorem mem_idleInstances (hi : w.isAlive i = true) (hnot : i ∉ w.heldInstances) :
    i ∈ w.idleInstances := by
  refine List.mem_filter.2 ⟨?_, ?_⟩
  · refine List.mem_map.2 ⟨i.index, List.mem_range.2 ?_, rfl⟩
    unfold isAlive at hi
    split at hi
    · next hx => exact index_lt_of_inst? hx
    · cases hi
  · rw [hi, Bool.true_and, Bool.not_eq_true']
    exact Bool.eq_false_iff.2 fun hmem => hnot (List.contains_iff_mem.1 hmem)

theorem exists_get?_of_mem {α : Type} {t : Table α} {a : α} (h : a ∈ t.toList) :
    ∃ n, t.get? n = some a := by
  obtain ⟨n, hn⟩ := List.mem_iff_getElem?.1 h
  refine ⟨n, ?_⟩
  unfold Table.get?
  rw [← Array.getElem?_toList]
  exact hn

/-- An instance among the values of another one is stored for some property. -/
theorem Formed.exists_stored? {x : Instance} {c : Class} {v : View} (hf : w.Formed P x c v)
    (hcompiled : Compiled w.classes) (hx : w.inst? P = some x)
    (hi : i ∈ x.values.filterMap Value.inst?) : ∃ name, w.stored? P name = some (.inst i) := by
  obtain ⟨val, hval, hvi⟩ := List.mem_filterMap.1 hi
  obtain ⟨n, hn⟩ := List.mem_iff_getElem?.1 hval
  obtain ⟨p, site, hp, -, -⟩ := hf.exists_fits hn
  refine ⟨p.name, ?_⟩
  have hindex := (hcompiled.valid hf.cls).descriptor.propertyIndex?_name hp
  unfold stored? Class.valueIn
  rw [hx, Option.bind_some, hf.cls, Option.bind_some, hindex, Option.bind_some, hn]
  cases val <;> cases hvi
  rfl

/-- Without anything idle, all instances in use are anchored. -/
theorem Orderly.anchored_of_idle (h : w.Orderly) (hidle : w.idleInstances = []) :
    w.Anchored fun i => w.isAlive i = true := by
  intro i hi
  refine ⟨hi, ?_⟩
  have hheld : i ∈ w.heldInstances := by
    by_contra hnot
    have hmem := mem_idleInstances hi hnot
    rw [hidle] at hmem
    cases hmem
  have hplaced (pl : Place) (hmem : i ∈ w.occupants pl) : ∃ pl P m, i ∈ w.occupants pl ∧
      w.layout.spot pl = some (P, m) ∧ w.isAlive P = true := by
    obtain ⟨P, m, hspot, hP⟩ := Layout.Linked.live_owner h.linked i pl hmem
    exact ⟨pl, P, m, hmem, hspot, hP⟩
  unfold heldInstances at hheld
  simp only [List.mem_append, or_assoc] at hheld
  rcases hheld with hpin | hreg | hval | hitem | hobj
  · exact Or.inl (List.mem_append_left _ hpin)
  · exact Or.inl (List.mem_append_right _ hreg)
  · obtain ⟨x, hx, hmem⟩ := List.mem_flatMap.1 hval
    obtain ⟨n, hn⟩ := exists_get?_of_mem (List.mem_filter.1 hx).1
    have hP : w.inst? ⟨n⟩ = some x := hn
    obtain ⟨_, _, hf⟩ := h.inst _ x hP
    obtain ⟨name, hstored⟩ := hf.exists_stored? h.compiled hP hmem
    refine Or.inr (hplaced (.slot ⟨n⟩ name) (mem_occupants_slot.2 ⟨?_, hstored⟩))
    unfold isAlive
    rw [hP]
    exact (List.mem_filter.1 hx).2
  · obtain ⟨x, hx, hmem⟩ := List.mem_flatMap.1 hitem
    obtain ⟨n, hn⟩ := exists_get?_of_mem (List.mem_filter.1 hx).1
    refine Or.inr (hplaced (.sequence ⟨n⟩) ?_)
    change i ∈ w.itemsOf ⟨n⟩
    unfold itemsOf coll?
    rw [hn]
    exact hmem
  · obtain ⟨ns, hns, hmem⟩ := List.mem_flatMap.1 hobj
    obtain ⟨n, hn⟩ := exists_get?_of_mem (List.mem_filter.1 hns).1
    rw [h.noObjects ⟨n⟩ ns hn] at hmem
    cases hmem

/-! ## Going out of use -/

/-- The instances and collections that are in use no longer. -/
structure Retires (is : List InstanceId) (cs : List CollectionId) (w w' : World) : Prop where
  alive : ∀ i, w'.isAlive i = (w.isAlive i && decide (i ∉ is))
  aliveColl : ∀ c, w'.isAliveColl c = (w.isAliveColl c && decide (c ∉ cs))

theorem Retires.nil (w : World) : Retires [] [] w w := ⟨fun i => by simp, fun c => by simp⟩

theorem Retires.append {is js : List InstanceId} {cs ds : List CollectionId} {w'' : World}
    (h : Retires is cs w w') (h' : Retires js ds w' w'') : Retires (is ++ js) (cs ++ ds) w w'' where
  alive i := by
    rw [h'.alive, h.alive, Bool.and_assoc, ← Bool.decide_and]
    simp only [List.mem_append, not_or]
  aliveColl c := by
    rw [h'.aliveColl, h.aliveColl, Bool.and_assoc, ← Bool.decide_and]
    simp only [List.mem_append, not_or]

theorem isAliveColl_congr {c : CollectionId}
    (h : (w'.coll? c).map (·.alive) = (w.coll? c).map (·.alive)) :
    w'.isAliveColl c = w.isAliveColl c := by
  have hmap (w : World) : w.isAliveColl c = ((w.coll? c).map (·.alive)).getD false := by
    unfold isAliveColl
    cases w.coll? c <;> rfl
  rw [hmap, hmap, h]

theorem dropInstance_of_none (hx : w.inst? P = none) : w.dropInstance P = w := by
  unfold dropInstance
  rw [hx]

theorem retires_dropInstance (w : World) (P : InstanceId) : Retires [P] [] w (w.dropInstance P) := by
  cases hx : w.inst? P with
  | none =>
    rw [dropInstance_of_none hx]
    refine ⟨fun i => ?_, fun c => by simp⟩
    by_cases hi : i = P
    · subst hi
      unfold isAlive
      rw [hx]
      rfl
    · simp [hi]
  | some x =>
    rw [dropInstance_of_some hx]
    have hf := (freesChildren_foldl P x.values (w.buried P)).frees
    refine ⟨fun i => ?_, fun c => ?_⟩
    · rw [isAlive_congr (hf.alive i), isAlive_buried]
      simp
    · have halive : _ = (w.buried P).isAliveColl c := isAliveColl_congr (hf.aliveColl c)
      rw [halive]
      change w.isAliveColl c = _
      simp

/-- The world with a collection marked as out of use. -/
def closed (w : World) (c : CollectionId) : World :=
  w.modifyCollection c fun x => { x with alive := false }

theorem isAliveColl_closed (w : World) (c d : CollectionId) :
    (w.closed c).isAliveColl d = (w.isAliveColl d && decide (d ≠ c)) := by
  unfold isAliveColl closed
  by_cases hd : c = d
  · subst hd
    rw [coll?_modifyCollection_self]
    cases w.coll? c with
    | none => rfl
    | some x => simp
  · rw [coll?_modifyCollection_of_ne w _ hd, decide_eq_true (Ne.symm hd), Bool.and_true]

theorem retires_dropCollection (w : World) (c : CollectionId) : Retires [] [c] w (w.dropCollection c) := by
  have hf := frees_freeItems c (w.closed c)
  refine ⟨fun i => ?_, fun d => ?_⟩
  · have halive : _ = (w.closed c).isAlive i := isAlive_congr (hf.alive i)
    change ((w.closed c).freeItems c).isAlive i = _
    rw [halive]
    change w.isAlive i = _
    simp
  · have halive : _ = (w.closed c).isAliveColl d := isAliveColl_congr (hf.aliveColl d)
    change ((w.closed c).freeItems c).isAliveColl d = _
    rw [halive, isAliveColl_closed]
    simp

theorem retires_foldl_dropInstance (is : List InstanceId) (w : World) :
    Retires is [] w (is.foldl dropInstance w) := by
  induction is generalizing w with
  | nil => exact .nil w
  | cons i is ih => exact (retires_dropInstance w i).append (ih _)

theorem retires_foldl_dropCollection (cs : List CollectionId) (w : World) :
    Retires [] cs w (cs.foldl dropCollection w) := by
  induction cs generalizing w with
  | nil => exact .nil w
  | cons c cs ih => exact (retires_dropCollection w c).append (ih _)

/-- The number of instances and collections in use among the first ones. -/
def inUse (w : World) (N M : Nat) : Nat :=
  ((Finset.range N).filter fun n => w.isAlive ⟨n⟩ = true).card +
    ((Finset.range M).filter fun n => w.isAliveColl ⟨n⟩ = true).card

/-- A round in which something goes out of use leaves less in use. -/
theorem Retires.inUse_lt {is : List InstanceId} {cs : List CollectionId} {N M : Nat}
    (h : Retires is cs w w')
    (hsome : (∃ i ∈ is, w.isAlive i = true ∧ i.index < N) ∨
      ∃ c ∈ cs, w.isAliveColl c = true ∧ c.index < M) : w'.inUse N M < w.inUse N M := by
  have hsub : ((Finset.range N).filter fun n => w'.isAlive ⟨n⟩ = true) ⊆
      (Finset.range N).filter fun n => w.isAlive ⟨n⟩ = true := by
    refine Finset.monotone_filter_right _ fun n _ hn => ?_
    rw [h.alive, Bool.and_eq_true] at hn
    exact hn.1
  have hsub' : ((Finset.range M).filter fun n => w'.isAliveColl ⟨n⟩ = true) ⊆
      (Finset.range M).filter fun n => w.isAliveColl ⟨n⟩ = true := by
    refine Finset.monotone_filter_right _ fun n _ hn => ?_
    rw [h.aliveColl, Bool.and_eq_true] at hn
    exact hn.1
  have hle := Finset.card_le_card hsub
  have hle' := Finset.card_le_card hsub'
  unfold inUse
  rcases hsome with ⟨i, hi, halive, hlt⟩ | ⟨c, hc, halive, hlt⟩
  · have hcard := Finset.card_lt_card (Finset.ssubset_iff_of_subset hsub |>.2 ⟨i.index, ?_, ?_⟩)
    · omega
    · exact Finset.mem_filter.2 ⟨Finset.mem_range.2 hlt, halive⟩
    · intro hmem
      have hdead := (Finset.mem_filter.1 hmem).2
      rw [h.alive, decide_eq_false (not_not.2 hi), Bool.and_false] at hdead
      cases hdead
  · have hcard := Finset.card_lt_card (Finset.ssubset_iff_of_subset hsub' |>.2 ⟨c.index, ?_, ?_⟩)
    · omega
    · exact Finset.mem_filter.2 ⟨Finset.mem_range.2 hlt, halive⟩
    · intro hmem
      have hdead := (Finset.mem_filter.1 hmem).2
      rw [h.aliveColl, decide_eq_false (not_not.2 hc), Bool.and_false] at hdead
      cases hdead

theorem exists_of_mem_idleCollections {c : CollectionId} (hc : c ∈ w.idleCollections) :
    w.isAliveColl c = true := by
  obtain ⟨-, htest⟩ := List.mem_filter.1 hc
  unfold isAliveColl
  cases hx : w.coll? c with
  | none =>
    rw [hx] at htest
    cases htest
  | some x =>
    rw [hx] at htest
    exact (Bool.and_eq_true_iff.1 htest).1

theorem lt_size_of_isAlive (h : w.isAlive i = true) : i.index < w.instances.size := by
  unfold isAlive at h
  split at h
  · next hx => exact index_lt_of_inst? hx
  · cases h

theorem lt_size_of_isAliveColl {c : CollectionId} (h : w.isAliveColl c = true) :
    c.index < w.collections.size := by
  unfold isAliveColl at h
  split at h
  · next hx => exact (Array.getElem?_eq_some_iff.1 hx).1
  · cases h

theorem inUse_le (w : World) (N M : Nat) : w.inUse N M ≤ N + M := by
  have hN := Finset.card_filter_le (Finset.range N) fun n => w.isAlive ⟨n⟩ = true
  have hM := Finset.card_filter_le (Finset.range M) fun n => w.isAliveColl ⟨n⟩ = true
  rw [Finset.card_range] at hN hM
  unfold inUse
  omega

/-- With enough rounds nothing idle is left. -/
theorem idle_dropIdle {fuel N M : Nat} (hN : ∀ i, w.isAlive i = true → i.index < N)
    (hM : ∀ c, w.isAliveColl c = true → c.index < M) (hfuel : w.inUse N M < fuel) :
    (w.dropIdle fuel).idleInstances = [] ∧ (w.dropIdle fuel).idleCollections = [] := by
  induction fuel generalizing w with
  | zero => omega
  | succ fuel ih =>
    unfold World.dropIdle
    split
    · next his hcs => exact ⟨his, hcs⟩
    · next hne =>
      have hround := (retires_foldl_dropInstance w.idleInstances w).append
        (retires_foldl_dropCollection w.idleCollections _)
      rw [List.append_nil, List.nil_append] at hround
      have hsome : (∃ i ∈ w.idleInstances, w.isAlive i = true ∧ i.index < N) ∨
          ∃ c ∈ w.idleCollections, w.isAliveColl c = true ∧ c.index < M := by
        by_cases his : w.idleInstances = []
        · obtain ⟨c, hc⟩ := List.exists_mem_of_ne_nil _ fun hcs => hne his hcs
          have halive := exists_of_mem_idleCollections hc
          exact Or.inr ⟨c, hc, halive, hM c halive⟩
        · obtain ⟨i, hi⟩ := List.exists_mem_of_ne_nil _ his
          have halive := (Bool.and_eq_true_iff.1 (List.mem_filter.1 hi).2).1
          exact Or.inl ⟨i, hi, halive, hN i halive⟩
      have hlt := hround.inUse_lt hsome
      exact ih (fun i hi => hN i (by rw [hround.alive, Bool.and_eq_true] at hi; exact hi.1))
        (fun c hc => hM c (by rw [hround.aliveColl, Bool.and_eq_true] at hc; exact hc.1)) (by omega)

/-- Whatever a world is like, settling leaves nothing idle. -/
theorem idle_settle (w : World) : w.settle.idleInstances = [] ∧ w.settle.idleCollections = [] := by
  unfold World.settle
  dsimp only
  generalize w.idleSpaces.foldl
      (fun w n => w.modifySpace n fun ns => { ns with alive := false }) w = w₁
  exact idle_dropIdle (fun i hi => lt_size_of_isAlive hi) (fun c hc => lt_size_of_isAliveColl hc)
    (Nat.lt_succ_of_le (inUse_le w₁ _ _))

/-! ## Letting go -/

/-- What the dropping of instances and collections does to those in use. -/
structure Drops (is : List InstanceId) (cs : List CollectionId) (w w' : World) : Prop where
  shape : w.SameShape w'
  harmless : w.Harmless [] w'
  handles : w'.handles = w.handles
  free : ∀ i, w.placeOf? i = none → w'.placeOf? i = none
  alive : ∀ i, w'.isAlive i = (w.isAlive i && decide (i ∉ is))
  aliveColl : ∀ c, w'.isAliveColl c = (w.isAliveColl c && decide (c ∉ cs))

theorem Drops.nil (w : World) : Drops [] [] w w :=
  ⟨.rfl, refl w, rfl, fun _ h => h, fun i => by simp, fun c => by simp⟩

theorem Drops.append {is js : List InstanceId} {cs ds : List CollectionId} {w'' : World}
    (h : Drops is cs w w') (h' : Drops js ds w' w'') : Drops (is ++ js) (cs ++ ds) w w'' where
  shape := h.shape.trans h'.shape
  harmless := IsTrans.trans _ _ _ h.harmless h'.harmless
  handles := h'.handles.trans h.handles
  free i hi := h'.free i (h.free i hi)
  alive i := by
    rw [h'.alive, h.alive, Bool.and_assoc, ← Bool.decide_and]
    simp only [List.mem_append, not_or]
  aliveColl c := by
    rw [h'.aliveColl, h.aliveColl, Bool.and_assoc, ← Bool.decide_and]
    simp only [List.mem_append, not_or]

/-- An instance that nothing holds goes out of use. -/
theorem drops_dropInstance (hfree : w.placeOf? P = none) (hnot : P ∉ w.handles) :
    Drops [P] [] w (w.dropInstance P) := by
  obtain ⟨halive, haliveColl⟩ := retires_dropInstance w P
  cases hx : w.inst? P with
  | none =>
    rw [dropInstance_of_none hx] at halive haliveColl ⊢
    exact ⟨.rfl, refl w, rfl, fun _ h => h, halive, haliveColl⟩
  | some x =>
    rw [dropInstance_of_some hx] at halive haliveColl ⊢
    have hf := freesChildren_foldl P x.values (w.buried P)
    refine ⟨(sameShape_buried w P).trans hf.frees.shape,
      fun hw _ => ⟨hf.orderly hw hx hfree hnot, fun K hK => ?_⟩, hf.frees.handles.handles, ?_,
      halive, haliveColl⟩
    · refine hf.respects hw hx hK fun hP => ?_
      rcases (hK P hP).2 with hmem | ⟨pl, _, _, hmem, -⟩
      · exact hnot hmem
      · rw [(Layout.Linked.place_iff hw.linked P pl).2 hmem] at hfree
        cases hfree
    · exact fun i hi => hf.frees.placeOf?_none ((placeOf?_buried w P i).trans hi)

theorem itemsOf_closed (w : World) (c d : CollectionId) : (w.closed c).itemsOf d = w.itemsOf d :=
  itemsOf_congr (map_coll?_modifyCollection _ (by exact fun _ => rfl) w c d)

theorem sameShape_dropCollection (w : World) (c : CollectionId) :
    w.SameShape (w.dropCollection c) := by
  have hclosed : w.SameShape (w.closed c) := sameShape_modifyCollection w c fun _ => rfl
  exact hclosed.trans (frees_freeItems c (w.closed c)).shape

/-- A collection without items goes out of use calmly, if its owner has. -/
theorem calm_freeItems_closed {c : CollectionId} (hitems : w.itemsOf c = [])
    (hdead : ∀ x, w.coll? c = some x → w.isAlive x.owner = false) :
    w.Calm ((w.closed c).freeItems c) := by
  have hempty : (w.closed c).freeItems c =
      (w.closed c).modifyCollection c fun x => { x with items := [] } := by
    unfold freeItems
    rw [itemsOf_closed, hitems]
    rfl
  have hshape := sameShape_dropCollection w c
  change w.SameShape ((w.closed c).freeItems c) at hshape
  have hsame (d : CollectionId) : ((w.closed c).freeItems c).itemsOf d = w.itemsOf d := by
    by_cases hd : c = d
    · subst hd
      rw [itemsOf_freeItems_self, hitems]
    · rw [itemsOf_freeItems_of_ne c _ hd, itemsOf_closed]
  rw [hempty] at hshape hsame ⊢
  refine ⟨fun hb => hb.congr hshape (fun _ => rfl) ?_ ?_, hshape, fun _ => rfl, fun _ => rfl, ?_, .rfl,
    ⟨rfl, rfl⟩⟩
  · intro d y hy howner
    obtain ⟨z, hz, hyz⟩ := hshape.exists_coll' hy
    have hyo : y.owner = z.owner := congrArg (·.2.2) hyz
    have halive : w.isAlive z.owner = true := hyo ▸ howner
    by_cases hd : c = d
    · subst hd
      rw [hdead z hz] at halive
      cases halive
    · rw [coll?_modifyCollection_of_ne _ _ hd] at hy
      unfold closed at hy
      rw [coll?_modifyCollection_of_ne _ _ hd, hz] at hy
      obtain rfl := Option.some.inj hy
      exact hb.collAlive d z hz halive
  · intro d
    rw [hsame]
    exact List.Subset.refl _
  · funext pl
    cases pl with
    | sequence d => exact hsame d
    | slot Q name => rfl

/-- A collection whose owner is out of use goes out of use. -/
theorem drops_dropCollection {c : CollectionId}
    (hdead : ∀ x, w.coll? c = some x → w.isAlive x.owner = false) :
    Drops [] [c] w (w.dropCollection c) := by
  have hf := frees_freeItems c (w.closed c)
  refine ⟨sameShape_dropCollection w c,
    fun hw hH => (calm_freeItems_closed ?_ hdead).harmless hw hH, hf.handles.handles,
    fun i hi => hf.placeOf?_none hi, (retires_dropCollection w c).alive,
    (retires_dropCollection w c).aliveColl⟩
  -- the items of a collection have an owner in use
  by_contra hne
  obtain ⟨i, hi⟩ := List.exists_mem_of_ne_nil _ hne
  obtain ⟨P, m, hspot, hP⟩ := Layout.Linked.live_owner hw.linked i (.sequence c) hi
  obtain ⟨x, hx, rfl, -⟩ := spot_sequence hspot
  rw [hdead x hx] at hP
  cases hP

/-- Several instances that nothing holds go out of use. -/
theorem drops_foldl_dropInstance {is : List InstanceId}
    (hidle : ∀ i ∈ is, w.placeOf? i = none ∧ i ∉ w.handles) :
    Drops is [] w (is.foldl dropInstance w) := by
  induction is generalizing w with
  | nil => exact .nil w
  | cons i is ih =>
    obtain ⟨hfree, hnot⟩ := hidle i List.mem_cons_self
    have hstep := drops_dropInstance hfree hnot
    refine hstep.append (ih fun j hj => ?_)
    obtain ⟨hj, hjn⟩ := hidle j (List.mem_cons_of_mem _ hj)
    rw [hstep.handles]
    exact ⟨hstep.free j hj, hjn⟩

theorem drops_foldl_dropCollection (cs : List CollectionId)
    (hdead : ∀ c ∈ cs, ∀ x, w.coll? c = some x → w.isAlive x.owner = false) :
    Drops [] cs w (cs.foldl dropCollection w) := by
  induction cs generalizing w with
  | nil => exact .nil w
  | cons c cs ih =>
    have hstep := drops_dropCollection (hdead c List.mem_cons_self)
    refine hstep.append (ih fun d hd x hx => ?_)
    obtain ⟨y, hy, hxy⟩ := hstep.shape.exists_coll' hx
    have hxo : x.owner = y.owner := congrArg (·.2.2) hxy
    rw [hstep.alive, hxo, hdead d (List.mem_cons_of_mem _ hd) y hy]
    rfl

/-- One round of letting go. -/
theorem Orderly.drops_round (hw : w.Orderly) : Drops w.idleInstances w.idleCollections w
    (w.idleCollections.foldl dropCollection (w.idleInstances.foldl dropInstance w)) := by
  have his := drops_foldl_dropInstance fun i hi => hw.idle hi
  have hcs := drops_foldl_dropCollection (w := w.idleInstances.foldl dropInstance w)
    w.idleCollections fun c hc x hx => ?_
  · have hround := his.append hcs
    rw [List.append_nil, List.nil_append] at hround
    exact hround
  · obtain ⟨y, hy, hxy⟩ := his.shape.exists_coll' hx
    have hxo : x.owner = y.owner := congrArg (·.2.2) hxy
    obtain ⟨-, htest⟩ := List.mem_filter.1 hc
    rw [hy] at htest
    simp only [Bool.and_eq_true, Bool.not_eq_true'] at htest
    have howner : w.isAlive y.owner = false := by
      unfold holdsCollection at htest
      simp only [Bool.or_eq_false_iff] at htest
      exact htest.2.1.1
    rw [his.alive, hxo, howner]
    rfl

theorem Orderly.dropIdle (hw : w.Orderly) (fuel : Nat) : ∃ is cs, Drops is cs w (w.dropIdle fuel) := by
  induction fuel generalizing w with
  | zero => exact ⟨[], [], .nil w⟩
  | succ fuel ih =>
    unfold World.dropIdle
    split
    · exact ⟨[], [], .nil w⟩
    · have hround := hw.drops_round
      obtain ⟨is, cs, hrest⟩ := ih (hround.harmless hw (List.nil_subset _)).1
      exact ⟨_, _, hround.append hrest⟩

/-! ## Sweeping -/

/-- Sweeping away nodes is harmless. -/
theorem harmless_sweep (w : World) (fuel : Nat) :
    w.Harmless H (w.mapForest fun f => f.sweep w.heldNodes.contains fuel) := by
  intro hw _
  have hheld (P : InstanceId) (r : NodeId) (hP : w.isAlive P = true) (hr : w.layout.root P = some r) :
      w.heldNodes.contains r = true := by
    have hroot : ((w.inst? P).bind (·.view)).map (·.root) = some r := hr
    obtain ⟨v, hv, rfl⟩ := Option.map_eq_some_iff.1 hroot
    obtain ⟨x, hx, hxv⟩ := Option.bind_eq_some_iff.1 hv
    rw [List.contains_iff_mem]
    unfold heldNodes
    refine List.mem_append_left _ (List.mem_append_left _ (List.mem_append_right _ ?_))
    refine List.mem_flatMap.2 ⟨x, mem_liveInstances hx hP, ?_⟩
    unfold Instance.nodesHeld
    rw [hxv]
    exact List.mem_append_left _ List.mem_cons_self
  have hprunes := (Layout.Linked.stands hw.linked hheld).sweep (Layout.Linked.tidy hw.linked) fuel
  refine ⟨⟨?_, Layout.Linked.prune hw.linked hprunes, hw.handled⟩, fun K hK => ?_⟩
  · exact hw.toBuilt.congr ⟨rfl, fun _ => rfl, fun _ => rfl, fun _ => rfl⟩ (fun _ => rfl) hw.collAlive
      fun _ => List.Subset.refl _
  · refine ⟨⟨rfl, fun _ x hx => ⟨x, hx, rfl⟩, fun _ x hx => ⟨x, hx, rfl⟩⟩, List.Subset.refl _, rfl,
      fun P hP => (hK P hP).1, fun _ _ _ _ _ => rfl, fun P hP => ?_⟩
    exact Layout.SameView.of_children fun r n hr hn =>
      hprunes.good n ⟨P, r, (hK P hP).1, hr, hn⟩

/-! ## Settling -/

theorem space?_modifySpace_self (w : World) (n : NamespaceId) (f : Namespace → Namespace) :
    (w.modifySpace n f).space? n = (w.space? n).map f :=
  Table.get?_modify_self _ _ _

theorem space?_modifySpace_of_ne (w : World) {n m : NamespaceId} (f : Namespace → Namespace)
    (h : n ≠ m) : (w.modifySpace n f).space? m = w.space? m :=
  Table.get?_modify_of_ne _ _ _ _ fun hi => h (congrArg NamespaceId.mk hi)

theorem calm_modifySpace (w : World) (n : NamespaceId) {f : Namespace → Namespace}
    (hf : ∀ ns, (f ns).objects = ns.objects) : w.Calm (w.modifySpace n f) := by
  have hshape : w.SameShape (w.modifySpace n f) := by
    refine ⟨rfl, fun _ => rfl, fun _ => rfl, fun m => ?_⟩
    by_cases hm : n = m
    · subst hm
      rw [space?_modifySpace_self]
      cases w.space? n with
      | none => rfl
      | some ns => exact congrArg some (hf ns)
    · rw [space?_modifySpace_of_ne w f hm]
  exact ⟨fun hb => hb.congr hshape (fun _ => rfl) hb.collAlive fun _ => List.Subset.refl _, hshape,
    fun _ => rfl, fun _ => rfl, rfl, .rfl, ⟨rfl, rfl⟩⟩

theorem calm_foldl {α : Type} {f : World → α → World} (hf : ∀ w a, World.Calm w (f w a)) (as : List α)
    (w : World) : w.Calm (as.foldl f w) := by
  induction as generalizing w with
  | nil => exact .rfl
  | cons a as ih => exact (hf w a).trans (ih (f w a))

/-- Letting go of what nothing holds is harmless, and leaves nothing idle. -/
theorem Orderly.settle (hw : w.Orderly) :
    w.settle.Orderly ∧ (∀ K, w.Anchored K → w.Respects K w.settle) ∧ w.settle.idleInstances = [] := by
  have hidle := (idle_settle w).1
  unfold World.settle at hidle ⊢
  dsimp only at hidle ⊢
  have hspaces : w.Calm (w.idleSpaces.foldl
      (fun w n => w.modifySpace n fun ns => { ns with alive := false }) w) :=
    calm_foldl (fun w n => calm_modifySpace w n (by exact fun _ => rfl)) _ w
  generalize w.idleSpaces.foldl
      (fun w n => w.modifySpace n fun ns => { ns with alive := false }) w = w₁ at hspaces hidle
  obtain ⟨is, cs, hdrops⟩ := (hspaces.orderly hw).dropIdle (w₁.instances.size + w₁.collections.size + 1)
  generalize w₁.dropIdle (w₁.instances.size + w₁.collections.size + 1) = w₂ at hdrops hidle
  have hharmless : w.Harmless [] (w₂.mapForest fun f => f.sweep w₂.heldNodes.contains (f.size + 1)) :=
    IsTrans.trans _ _ _ hspaces.harmless (IsTrans.trans _ _ _ hdrops.harmless (harmless_sweep w₂ _))
  obtain ⟨hw₃, hr⟩ := hharmless hw (List.nil_subset _)
  exact ⟨hw₃, hr, hidle⟩

/-- After settling all instances in use are anchored. -/
theorem Orderly.anchored_settle (hw : w.Orderly) : w.settle.Anchored fun i => w.settle.isAlive i = true :=
  hw.settle.1.anchored_of_idle hw.settle.2.2

end World

end ReactiveView
