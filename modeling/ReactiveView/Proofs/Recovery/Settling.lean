import Mathlib.Data.Fintype.EquivFin
import Mathlib.Order.WellFounded
import ReactiveView.Proofs.Closed.Sessions
import ReactiveView.Proofs.Recovery.Loan

/-!
# Letting go while something is lent

A world at rest is regular and has nothing idle (`World.Resting`). What it knows is
held by what it knows, so it never becomes idle while instances are under construction
(`Resting.known_of_idle`). What is let go of meanwhile is new, and letting go of something new keeps the loan
(`Underway.dropInstance`, `Underway.settle`).

When nothing is kept hold of that the world did not hold before, nothing new is in use after settling: whoever
is in use would have to be held by somebody new who is in use, and lending has no circles
(`Underway.not_isAlive`). Then everything is as it was (`Underway.untouched`).
-/

set_option autoImplicit false

namespace ReactiveView

open Relation

namespace World

variable {w₀ w w' w'' : World} {loose loose' : Place → InstanceId → Prop} {occ : Place → List InstanceId}
  {i P T : InstanceId} {pl : Place}

/-! ## Records that last -/

/-- The same records, up to attachments, attributes, items and what is in use. -/
structure SameRecords (w w' : World) : Prop where
  shape : w.SameShape w'
  values : ∀ i, (w'.inst? i).map (·.values) = (w.inst? i).map (·.values)
  built : ∀ i, (w'.inst? i).map (·.built) = (w.inst? i).map (·.built)

namespace SameRecords

theorem rfl : w.SameRecords w := ⟨.rfl, fun _ => .refl _, fun _ => .refl _⟩

theorem trans (h : w.SameRecords w') (h' : w'.SameRecords w'') : w.SameRecords w'' :=
  ⟨h.shape.trans h'.shape, fun i => (h'.values i).trans (h.values i), fun i => (h'.built i).trans (h.built i)⟩

theorem modifyInstance (w : World) (i : InstanceId) {f : Instance → Instance}
    (hf : ∀ x, (f x).shape = x.shape ∧ (f x).values = x.values ∧ (f x).built = x.built) :
    w.SameRecords (w.modifyInstance i f) :=
  ⟨sameShape_modifyInstance w i fun x => (hf x).1, map_inst?_modifyInstance _ (fun x => (hf x).2.1) w i,
    map_inst?_modifyInstance _ (fun x => (hf x).2.2) w i⟩

theorem modifyCollection (w : World) (c : CollectionId) {f : Collection → Collection}
    (hf : ∀ x, (f x).shape = x.shape) : w.SameRecords (w.modifyCollection c f) :=
  ⟨sameShape_modifyCollection w c hf, fun _ => .refl _, fun _ => .refl _⟩

theorem of_same (hc : w'.classes = w.classes) (hi : w'.instances = w.instances)
    (hk : w'.collections = w.collections) (hn : w'.spaces = w.spaces) : w.SameRecords w' := by
  have hinst (i : InstanceId) : w'.inst? i = w.inst? i := by
    unfold inst?
    rw [hi]
  refine ⟨⟨hc, fun i => ?_, fun c => ?_, fun n => ?_⟩, fun i => ?_, fun i => ?_⟩
  · rw [hinst]
  · unfold coll?
    rw [hk]
  · unfold space?
    rw [hn]
  · rw [hinst]
  · rw [hinst]

theorem hasBuilt_iff (h : w.SameRecords w') (i : InstanceId) : w'.HasBuilt i ↔ w.HasBuilt i := by
  rw [hasBuilt_iff_map, hasBuilt_iff_map, h.built]

end SameRecords

instance : IsUpkeep SameRecords where
  refl _ := .rfl
  trans _ _ _ := .trans
  quiet _ _ _ hc hi hk hn := .of_same hc hi hk hn
  moves _ _ _ _ := .of_same rfl rfl rfl rfl
  free w i := .modifyInstance w i fun _ => ⟨rfl, rfl, rfl⟩
  retire w i := .modifyInstance w i fun _ => ⟨rfl, rfl, rfl⟩
  retireColl w k := .modifyCollection w k fun _ => rfl
  retireSpace w n := ⟨(calm_modifySpace w n (by exact fun _ => rfl)).shape, fun _ => rfl, fun _ => rfl⟩
  clear w k := .modifyCollection w k fun _ => rfl

/-! ## The stored occupants -/

/-- The owners of new lists with items are in use. -/
def Tended (w₀ w : World) : Prop :=
  ∀ c x, ¬ w₀.KnowsColl c → w.coll? c = some x → x.items ≠ [] → w.isAlive x.owner = true

/-- A loan in which the occupants are those that are stored, and lists with items have owners in use. -/
structure Underway (w₀ : World) (loose : Place → InstanceId → Prop) (w : World) : Prop extends
    Loan w₀ loose w.occupants w where
  tended : w₀.Tended w

theorem Underway.mono (h : w₀.Underway loose w) (hloose : ∀ pl i, loose pl i → loose' pl i) :
    w₀.Underway loose' w :=
  ⟨h.toLoan.mono hloose, h.tended⟩

/-- Nothing changes but pins, the log, the screen and attributes. -/
theorem Underway.congr (h : w₀.Underway loose w) (hp : w₀.Retains w') (hs : w.SameRecords w')
    (hinst : ∀ i, (w'.inst? i).map (fun x => (x.alive, x.attachment)) =
      (w.inst? i).map fun x => (x.alive, x.attachment))
    (hitems : ∀ c, (w'.coll? c).map (·.items) = (w.coll? c).map (·.items))
    (hlinks : ∀ n, w'.forest.recorded? n = w.forest.recorded? n) : w₀.Underway loose w' := by
  have halive (i : InstanceId) : (w'.inst? i).map (·.alive) = (w.inst? i).map (·.alive) := by
    have hi := congrArg (Option.map Prod.fst) (hinst i)
    rw [Option.map_map, Option.map_map] at hi
    exact hi
  have hatt : w'.attachment? = w.attachment? := by
    funext i
    have hi := congrArg (Option.map Prod.snd) (hinst i)
    rw [Option.map_map, Option.map_map] at hi
    exact attachment?_congr hi
  have hocc := occupants_congr hs.shape halive hs.values hitems
  refine ⟨?_, fun c y hc hy hne => ?_⟩
  · rw [hocc]
    exact h.toLoan.congr hp hs.shape (h.drafts.congr hs.shape hs.values) hatt
      (fun i => (hs.hasBuilt_iff i).2) hlinks
  · obtain ⟨x, hx, hshape⟩ := hs.shape.exists_coll' hy
    have howner : y.owner = x.owner := congrArg (·.2.2) hshape
    have hi := hitems c
    rw [hx, hy] at hi
    have hsame : y.items = x.items := Option.some.inj hi
    rw [isAlive_congr (halive _), howner]
    exact h.tended c x hc hx (hsame ▸ hne)

/-! ## Setting free what is lent -/

/-- An instance is set free if it is recorded in a place that is new and may have loose ends. -/
theorem Loan.freeIf (h : w₀.Loan loose occ w) (hw₀ : w₀.Closed) {test : Place → Bool}
    (htest : ∀ p, test p = true → ¬ w₀.KnowsPlace p ∧ ∀ j, loose p j) (i : InstanceId) :
    w₀.Loan loose occ (w.freeIf test i) := by
  unfold World.freeIf
  split
  · next a ha =>
    split
    · next hpass =>
      obtain ⟨hnew, hloose⟩ := htest _ hpass
      have hi (b : Attachment) (hb : w.attachment? i = some b) : ¬ w₀.KnowsPlace b.place := by
        rw [← Option.some.inj (ha.symm.trans hb)]
        exact hnew
      have hfreed (b : Attachment) (hb : w.attachment? i = some b) : loose b.place i := by
        rw [← Option.some.inj (ha.symm.trans hb)]
        exact hloose i
      have hroot : (w.modifyInstance i fun x => { x with attachment := none }).rootOf? i = w.rootOf? i :=
        (sameShape_setAttachment w i none).rootOf? i
      unfold unlinkRoot
      rw [hroot]
      cases hr : w.rootOf? i with
      | none => exact h.taken_rootless hw₀ hi (fun _ _ hl => hl) hfreed hr
      | some r => exact h.taken hw₀ hi (fun _ _ hl => hl) hfreed hr
    · exact h
  · exact h

theorem Loan.foldl_freeIf (hw₀ : w₀.Closed) {test : Place → Bool}
    (htest : ∀ p, test p = true → ¬ w₀.KnowsPlace p ∧ ∀ j, loose p j) (is : List InstanceId) {w : World}
    (h : w₀.Loan loose occ w) : w₀.Loan loose occ (is.foldl (fun w i => w.freeIf test i) w) := by
  induction is generalizing w with
  | nil => exact h
  | cons i is ih => exact ih (h.freeIf hw₀ htest i)

/-- The items of a new collection are set free. -/
theorem Loan.freeItems (h : w₀.Loan loose occ w) (hw₀ : w₀.Closed) {c : CollectionId}
    (hc : ¬ w₀.KnowsColl c) (hloose : ∀ j, loose (.sequence c) j) : w₀.Loan loose occ (w.freeItems c) := by
  have hcleared : w₀.Loan loose occ (w.modifyCollection c fun x => { x with items := [] }) := by
    have hs := SameRecords.modifyCollection w c (f := fun x => { x with items := [] }) fun _ => rfl
    exact h.congr (h.toRetains.modifyCollection hc _) hs.shape (h.drafts.congr hs.shape hs.values) rfl
      (fun _ hb => hb) fun _ => rfl
  refine hcleared.foldl_freeIf hw₀ (fun p hp => ?_) _
  obtain rfl := beq_iff_eq.1 hp
  exact ⟨hc, hloose⟩

/-- The children of a new instance are set free. -/
theorem Loan.foldl_freeChild (hw₀ : w₀.Closed) (hP : ¬ w₀.Knows P) (vs : List Value)
    (hslot : ∀ p, isSlotOf P p = true → ∀ j, loose p j)
    (hcoll : ∀ c, Value.coll c ∈ vs → ¬ w₀.KnowsColl c ∧ ∀ j, loose (.sequence c) j) {w : World}
    (h : w₀.Loan loose occ w) : w₀.Loan loose occ (vs.foldl (freeChild P) w) := by
  induction vs generalizing w with
  | nil => exact h
  | cons v vs ih =>
    refine ih (fun c hc => hcoll c (List.mem_cons_of_mem _ hc)) ?_
    cases v with
    | inst child =>
      refine h.freeIf hw₀ (fun p hp => ⟨?_, hslot p hp⟩) child
      cases p with
      | sequence c => cases hp
      | slot Q name => exact beq_iff_eq.1 hp ▸ hP
    | coll c =>
      obtain ⟨hc, hloose⟩ := hcoll c List.mem_cons_self
      exact h.freeItems hw₀ hc hloose
    | _ => exact h

/-- The collections of a new instance are new. -/
theorem Loan.not_knowsColl (h : w₀.Loan loose occ w) (hw₀ : w₀.Closed) (hP : ¬ w₀.Knows P) {x : Instance}
    (hx : w.inst? P = some x) {c : CollectionId} (hc : Value.coll c ∈ x.values) : ¬ w₀.KnowsColl c := by
  intro hknown
  obtain ⟨cls, v, hf⟩ := h.drafts.formed P x hP hx
  obtain ⟨n, hn⟩ := List.mem_iff_getElem?.1 hc
  obtain ⟨p, s, -, -, hfits⟩ := hf.exists_fits hn
  obtain ⟨y, hy⟩ := hknown.exists_coll
  generalize p.kind = k at hfits
  cases hfits with
  | primitive hprim => cases hprim
  | sequence hz howner =>
    obtain rfl := Option.some.inj ((h.coll c y hy).symm.trans hz)
    exact hP (howner ▸ hw₀.owner c y hy)

namespace Underway

variable (h : w₀.Underway loose w) (hw₀ : w₀.Closed)

include h hw₀

/-- A new instance goes out of use. -/
theorem dropInstance (hP : ¬ w₀.Knows P) : w₀.Underway loose (w.dropInstance P) := by
  cases hx : w.inst? P with
  | none =>
    rw [dropInstance_of_none hx]
    exact h
  | some x =>
    have hnew {c : CollectionId} (hc : Value.coll c ∈ x.values) := h.not_knowsColl hw₀ hP hx hc
    rw [dropInstance_of_some hx]
    have hf := freesChildren_foldl P x.values (w.buried P)
    have hbs : w.SameRecords (w.buried P) := .modifyInstance w P fun _ => ⟨rfl, rfl, rfl⟩
    -- while children are set free, the places they leave may have loose ends
    have hburied : w₀.Loan (fun p j => loose p j ∨ isSlotOf P p = true ∨ ∃ c, Value.coll c ∈ x.values ∧ p = .sequence c)
        w.occupants (w.buried P) := by
      refine (h.toLoan.congr (h.toRetains.modifyInstance P fun hk => absurd hk hP) hbs.shape
        (h.drafts.congr hbs.shape hbs.values) ?_ (fun i => (hbs.hasBuilt_iff i).2)
        fun _ => rfl).mono fun p j hl => Or.inl hl
      exact funext fun i => attachment?_congr (map_inst?_buried _ (fun _ _ => rfl) w P i)
    have hfreed := hburied.foldl_freeChild hw₀ hP x.values (fun p hp j => Or.inr (Or.inl hp))
      fun c hc => ⟨hnew hc, fun j => Or.inr (Or.inr ⟨c, hc, rfl⟩)⟩
    generalize x.values.foldl (freeChild P) (w.buried P) = w' at hf hfreed
    have halive (i : InstanceId) : w'.isAlive i = (w.isAlive i && decide (i ≠ P)) := by
      rw [isAlive_congr (hf.frees.alive i), isAlive_buried]
    have hstored (Q : InstanceId) (name : String) : w'.stored? Q name = w.stored? Q name := by
      have hshape := hbs.shape.trans hf.frees.shape
      exact stored?_congr hshape ((hf.frees.values Q).trans (hbs.values Q)) name
    refine ⟨hfreed.clear fun pl hpl => ?_, fun c y hc hy hne => ?_⟩
    · cases pl with
      | slot Q name =>
        by_cases hQ : Q = P
        · subst hQ
          refine Or.inr ⟨?_, fun i hi a ha hplace => ?_⟩
          · unfold World.occupants
            dsimp only
            rw [halive, decide_eq_false (by simp), Bool.and_false]
            rfl
          · obtain ⟨y, c, n, hy, -, -, hval⟩ := exists_of_stored? (mem_occupants_slot.1 hi).2
            obtain rfl := Option.some.inj (hx.symm.trans hy)
            exact hf.slot i name (List.mem_of_getElem? hval) (hplace ▸ placeOf?_eq_some ha)
        · refine Or.inl ⟨?_, fun i hl => ?_⟩
          · unfold World.occupants
            dsimp only
            rw [halive, decide_eq_true hQ, Bool.and_true, hstored]
          · rcases hl with hl | hl | ⟨c, -, hl⟩
            · exact hl
            · exact absurd (beq_iff_eq.1 hl) hQ
            · cases hl
      | sequence c =>
        by_cases hc : Value.coll c ∈ x.values
        · refine Or.inr ⟨hf.emptied c hc, fun i hi a ha hplace => ?_⟩
          exact hf.sequence c i hc hi (hplace ▸ placeOf?_eq_some ha)
        · refine Or.inl ⟨hf.items c hc, fun i hl => ?_⟩
          rcases hl with hl | hl | ⟨d, hd, hl⟩
          · exact hl
          · cases hl
          · obtain rfl := Place.sequence.inj hl
            exact absurd hd hc
    · obtain ⟨z, hz, hshape⟩ := (hbs.shape.trans hf.frees.shape).exists_coll' hy
      have howner : y.owner = z.owner := congrArg (·.2.2) hshape
      have hcx : Value.coll c ∉ x.values := by
        intro hmem
        exact hne ((itemsOf_of_coll? hy).symm.trans (hf.emptied c hmem))
      have hitems := hf.items c hcx
      have hold : (w.buried P).itemsOf c = z.items := itemsOf_of_coll? (w := w) hz
      rw [hold, itemsOf_of_coll? hy] at hitems
      have hP' : z.owner ≠ P := by
        rintro rfl
        obtain ⟨-, u, hu, hmem⟩ := h.drafts.owned c z hc hz
        obtain rfl := Option.some.inj (hx.symm.trans hu)
        exact hcx hmem
      rw [halive, howner, h.tended c z hc hz (hitems ▸ hne), decide_eq_true hP']
      rfl

/-- A new collection goes out of use. -/
theorem dropCollection {c : CollectionId} (hc : ¬ w₀.KnowsColl c) : w₀.Underway loose (w.dropCollection c) := by
  have hcs : w.SameRecords (w.closed c) := .modifyCollection w c fun _ => rfl
  have hclosed : w₀.Loan (fun p j => loose p j ∨ p = .sequence c) w.occupants (w.closed c) :=
    (h.toLoan.congr (h.toRetains.modifyCollection hc _) hcs.shape (h.drafts.congr hcs.shape hcs.values) rfl
      (fun _ hb => hb) fun _ => rfl).mono fun p j hl => Or.inl hl
  have hfreed := hclosed.freeItems hw₀ hc fun j => Or.inr rfl
  have hf := frees_freeItems c (w.closed c)
  have halive (i : InstanceId) : ((w.closed c).freeItems c).isAlive i = w.isAlive i :=
    isAlive_congr (hf.alive i)
  have hitems (d : CollectionId) (hd : c ≠ d) : ((w.closed c).freeItems c).itemsOf d = w.itemsOf d := by
    rw [itemsOf_freeItems_of_ne c _ hd, itemsOf_closed]
  refine ⟨hfreed.clear fun pl hpl => ?_, fun d y hd hy hne => ?_⟩
  · cases pl with
    | slot Q name =>
      refine Or.inl ⟨?_, fun i hl => hl.resolve_right fun hl => by cases hl⟩
      unfold World.occupants
      dsimp only
      change (if ((w.closed c).freeItems c).isAlive Q then _ else _) = _
      rw [halive]
      have hshape : w.SameShape ((w.closed c).freeItems c) := hcs.shape.trans hf.shape
      change (if w.isAlive Q then ((((w.closed c).freeItems c).stored? Q name).bind _).toList else _) = _
      rw [stored?_congr hshape (hf.values Q)]
    | sequence d =>
      by_cases hd : c = d
      · subst hd
        refine Or.inr ⟨itemsOf_freeItems_self c _, fun i hi a ha hplace => ?_⟩
        refine placeOf?_freeItems c (w := w.closed c) ?_ (hplace ▸ placeOf?_eq_some ha)
        rw [itemsOf_closed]
        exact hi
      · refine Or.inl ⟨hitems d hd, fun i hl => hl.resolve_right fun hl => ?_⟩
        exact hd (Place.sequence.inj hl).symm
  · obtain ⟨z, hz, hshape⟩ := (hcs.shape.trans hf.shape).exists_coll' hy
    have howner : y.owner = z.owner := congrArg (·.2.2) hshape
    have hnow : ((w.closed c).freeItems c).itemsOf d = y.items := itemsOf_of_coll? hy
    have hdc : c ≠ d := by
      rintro rfl
      rw [itemsOf_freeItems_self] at hnow
      exact hne hnow.symm
    rw [hitems d hdc, itemsOf_of_coll? hz] at hnow
    change ((w.closed c).freeItems c).isAlive y.owner = true
    rw [halive, howner]
    exact h.tended d z hd hz (hnow ▸ hne)

end Underway

/-! ## Loans of worlds at rest -/

namespace Retains

variable (h : w₀.Retains w)

include h

theorem isAlive (hi : w₀.Knows i) : w.isAlive i = w₀.isAlive i := by
  obtain ⟨x, hx⟩ := hi.exists_inst
  obtain ⟨a, ha⟩ := h.inst i x hx
  unfold World.isAlive
  rw [hx, ha]

/-- What was held is held. -/
theorem heldInstances : w₀.heldInstances ⊆ w.heldInstances := by
  intro i hi
  unfold World.heldInstances liveSpaces at hi ⊢
  rw [h.registry, h.spaces]
  simp only [List.mem_append, or_assoc] at hi ⊢
  rcases hi with hpin | hreg | hval | hitem | hobj
  · obtain ⟨p, hp, hpi⟩ := List.mem_filterMap.1 hpin
    exact Or.inl (List.mem_filterMap.2 ⟨p, h.pins hp, hpi⟩)
  · exact Or.inr (Or.inl hreg)
  · obtain ⟨x, hx, hmem⟩ := List.mem_flatMap.1 hval
    obtain ⟨hx, halive⟩ := List.mem_filter.1 hx
    obtain ⟨n, hn⟩ := exists_get?_of_mem hx
    obtain ⟨a, ha⟩ := h.inst ⟨n⟩ x hn
    refine Or.inr (Or.inr (Or.inl (List.mem_flatMap.2 ⟨_, mem_liveInstances ha ?_, hmem⟩)))
    unfold World.isAlive
    rw [ha]
    exact halive
  · obtain ⟨x, hx, hmem⟩ := List.mem_flatMap.1 hitem
    obtain ⟨hx, halive⟩ := List.mem_filter.1 hx
    obtain ⟨n, hn⟩ := exists_get?_of_mem hx
    have hnow : w.collections.get? n = some x := h.coll ⟨n⟩ x hn
    refine Or.inr (Or.inr (Or.inr (Or.inl (List.mem_flatMap.2 ⟨x, List.mem_filter.2 ⟨?_, halive⟩, hmem⟩))))
    exact Array.mem_toList_iff.2 (Array.mem_of_getElem? hnow)
  · exact Or.inr (Or.inr (Or.inr (Or.inr hobj)))

end Retains

namespace Resting

variable (hw₀ : w₀.Resting) (h : w₀.Retains w)

include hw₀ h

/-- Only new instances become idle. -/
theorem not_knows_of_idle (hi : i ∈ w.idleInstances) : ¬ w₀.Knows i := by
  intro hknown
  obtain ⟨-, htest⟩ := List.mem_filter.1 hi
  rw [Bool.and_eq_true, Bool.not_eq_true', h.isAlive hknown] at htest
  have hidle : i ∈ w₀.idleInstances := by
    refine mem_idleInstances htest.1 fun hheld => ?_
    rw [List.contains_iff_mem.2 (h.heldInstances hheld)] at htest
    cases htest.2
  rw [hw₀.idleInstances] at hidle
  cases hidle

/-- Only new collections become idle. -/
theorem not_knowsColl_of_idle {c : CollectionId} (hc : c ∈ w.idleCollections) : ¬ w₀.KnowsColl c := by
  intro hknown
  obtain ⟨x, hx⟩ := hknown.exists_coll
  obtain ⟨-, htest⟩ := List.mem_filter.1 hc
  rw [h.coll c x hx] at htest
  dsimp only at htest
  have hidle : c ∈ w₀.idleCollections := by
    refine List.mem_filter.2 ⟨List.mem_map.2 ⟨c.index, List.mem_range.2 hknown, rfl⟩, ?_⟩
    rw [hx]
    dsimp only
    rw [Bool.and_eq_true, Bool.not_eq_true'] at htest ⊢
    refine ⟨htest.1, ?_⟩
    have hnot := htest.2
    unfold holdsCollection at hnot ⊢
    rw [h.isAlive (hw₀.owner c x hx), h.registry] at hnot
    simp only [Bool.or_eq_false_iff] at hnot ⊢
    refine ⟨⟨hnot.1.1, Bool.eq_false_iff.2 fun hpin => ?_⟩, hnot.2⟩
    rw [List.contains_iff_mem.2 (h.pins (List.contains_iff_mem.1 hpin))] at hnot
    cases hnot.1.2
  rw [hw₀.idleCollections] at hidle
  cases hidle

/-- No namespace becomes idle. -/
theorem idleSpaces_eq_nil : w.idleSpaces = [] := by
  refine List.eq_nil_iff_forall_not_mem.2 fun n hn => ?_
  have hidle : n ∈ w₀.idleSpaces := by
    unfold World.idleSpaces space? at hn ⊢
    rw [h.spaces] at hn
    obtain ⟨hrange, htest⟩ := List.mem_filter.1 hn
    refine List.mem_filter.2 ⟨hrange, ?_⟩
    cases hns : w₀.spaces.get? n.index with
    | none =>
      rw [hns] at htest
      cases htest
    | some ns =>
      rw [hns] at htest
      dsimp only at htest ⊢
      rw [Bool.and_eq_true, Bool.not_eq_true'] at htest ⊢
      refine ⟨htest.1, ?_⟩
      have hnot := htest.2
      unfold holdsSpace at hnot ⊢
      rw [h.registry] at hnot
      simp only [Bool.or_eq_false_iff] at hnot ⊢
      refine ⟨Bool.eq_false_iff.2 fun hpin => ?_, hnot.2⟩
      rw [List.contains_iff_mem.2 (h.pins (List.contains_iff_mem.1 hpin))] at hnot
      cases hnot.1
  rw [hw₀.idleSpaces] at hidle
  cases hidle

end Resting

/-! ## Settling -/

namespace Underway

variable (hw₀ : w₀.Resting)

include hw₀

theorem foldl_dropInstance {is : List InstanceId} (his : ∀ i ∈ is, ¬ w₀.Knows i) {w : World}
    (h : w₀.Underway loose w) : w₀.Underway loose (is.foldl World.dropInstance w) := by
  induction is generalizing w with
  | nil => exact h
  | cons i is ih =>
    exact ih (fun j hj => his j (List.mem_cons_of_mem _ hj)) (h.dropInstance hw₀.toClosed (his i List.mem_cons_self))

theorem foldl_dropCollection {cs : List CollectionId} (hcs : ∀ c ∈ cs, ¬ w₀.KnowsColl c) {w : World}
    (h : w₀.Underway loose w) : w₀.Underway loose (cs.foldl World.dropCollection w) := by
  induction cs generalizing w with
  | nil => exact h
  | cons c cs ih =>
    exact ih (fun d hd => hcs d (List.mem_cons_of_mem _ hd))
      (h.dropCollection hw₀.toClosed (hcs c List.mem_cons_self))

theorem dropIdle (fuel : Nat) {w : World} (h : w₀.Underway loose w) : w₀.Underway loose (w.dropIdle fuel) := by
  induction fuel generalizing w with
  | zero => exact h
  | succ fuel ih =>
    unfold World.dropIdle
    split
    · exact h
    · have his := foldl_dropInstance hw₀ (fun i hi => hw₀.not_knows_of_idle h.toRetains hi) h
      exact ih (foldl_dropCollection hw₀ (fun c hc => hw₀.not_knowsColl_of_idle h.toRetains hc) his)

/-- Letting go of what nothing holds keeps the loan. -/
theorem settle (h : w₀.Underway loose w) : w₀.Underway loose w.settle := by
  unfold World.settle
  rw [hw₀.idleSpaces_eq_nil h.toRetains]
  dsimp only [List.foldl_nil]
  have hdrop := dropIdle hw₀ (w.instances.size + w.collections.size + 1) h
  generalize w.dropIdle (w.instances.size + w.collections.size + 1) = w₁ at hdrop
  refine hdrop.congr (hdrop.toRetains.mapForest (Forest.size_sweep _ _ _)) (.of_same rfl rfl rfl rfl)
    (fun _ => rfl) (fun _ => rfl) fun n => ?_
  exact Forest.recorded?_sweep _ _ _ n

end Underway

/-- What is pinned stays in use. -/
theorem isAlive_dropIdle (fuel : Nat) {w : World} (hpin : Held.inst T ∈ w.pins) (hT : w.isAlive T = true) :
    (w.dropIdle fuel).isAlive T = true := by
  induction fuel generalizing w with
  | zero => exact hT
  | succ fuel ih =>
    unfold World.dropIdle
    split
    · exact hT
    · have hround := (retires_foldl_dropInstance w.idleInstances w).append
        (retires_foldl_dropCollection w.idleCollections _)
      rw [List.append_nil] at hround
      have hbusy : T ∉ w.idleInstances := by
        intro hidle
        have hheld : T ∈ w.heldInstances :=
          mem_heldInstances_of_handle (List.mem_append_left _ (List.mem_filterMap.2 ⟨_, hpin, rfl⟩))
        obtain ⟨-, htest⟩ := List.mem_filter.1 hidle
        rw [List.contains_iff_mem.2 hheld, Bool.not_true, Bool.and_false] at htest
        cases htest
      refine ih ?_ ?_
      · rw [pins_foldl _ pins_dropCollection, pins_foldl _ pins_dropInstance]
        exact hpin
      · rw [hround.alive, hT, decide_eq_true hbusy]
        rfl

theorem isAlive_settle (hpin : Held.inst T ∈ w.pins) (hT : w.isAlive T = true) :
    w.settle.isAlive T = true := by
  have hspaces (ns : List NamespaceId) (w : World) :
      (ns.foldl (fun w n => w.modifySpace n fun ns => { ns with alive := false }) w).isAlive T = w.isAlive T ∧
        (ns.foldl (fun w n => w.modifySpace n fun ns => { ns with alive := false }) w).pins = w.pins := by
    induction ns generalizing w with
    | nil => exact ⟨rfl, rfl⟩
    | cons n ns ih => exact ih _
  obtain ⟨halive, hpins⟩ := hspaces w.idleSpaces w
  unfold World.settle
  dsimp only
  generalize w.idleSpaces.foldl (fun w n => w.modifySpace n fun ns => { ns with alive := false }) w = w₁
    at halive hpins
  have hdrop := isAlive_dropIdle (w₁.instances.size + w₁.collections.size + 1) (hpins ▸ hpin) (halive.trans hT)
  generalize w₁.dropIdle (w₁.instances.size + w₁.collections.size + 1) = w₂ at hdrop
  exact hdrop

/-! ## The end of a loan -/

/-- What was there is as it was, every place holds what it held, and nothing that stands below a new node was
there before. -/
structure Untouched (w w' : World) : Prop where
  inst : ∀ i x, w.inst? i = some x → w'.inst? i = some x
  coll : ∀ c x, w.coll? c = some x → w'.coll? c = some x
  occupants : w'.occupants = w.occupants
  outside : ∀ i r n, w.rootOf? i = some r → w'.forest.isInclusiveAncestor n r = true → n.index < w.forest.size

/-- Every node has the parent that it had, except that the root of an instance that was recorded nowhere may have
been taken out of its place. The namespaces keep their documents. -/
structure LeavesStanding (w w' : World) : Prop where
  spaces : w'.spaces = w.spaces
  parents : ∀ n, n.index < w.forest.size → w'.forest.recorded? n = w.forest.recorded? n ∨
    w.RootsFree n ∧ w'.forest.recorded? n = none

theorem occupants_slot_congr {w w' : World} {P : InstanceId} (hi : w'.inst? P = w.inst? P)
    (hc : w'.classes = w.classes) (name : String) : w'.occupants (.slot P name) = w.occupants (.slot P name) := by
  unfold occupants isAlive stored? class?
  dsimp only
  rw [hi, hc]

namespace Underway

variable (hw₀ : w₀.Resting) (h : w₀.Underway loose w) (hpins : w.pins = w₀.pins)
  (hidle : w.idleInstances = [])

include hw₀ h hpins hidle

/-- A new instance in use stands in a new place of a new instance in use. -/
theorem exists_lentTo (hi : ¬ w₀.Knows i) (halive : w.isAlive i = true) :
    ∃ P, ¬ w₀.Knows P ∧ w.isAlive P = true ∧ w₀.LentTo w w.occupants i P := by
  have hheld : i ∈ w.heldInstances := by
    by_contra hnot
    have hmem := mem_idleInstances halive hnot
    rw [hidle] at hmem
    cases hmem
  unfold World.heldInstances liveSpaces at hheld
  rw [h.registry, h.spaces, hpins] at hheld
  simp only [List.mem_append, or_assoc] at hheld
  rcases hheld with hpin | hreg | hval | hitem | hobj
  · obtain ⟨p, hp, hpi⟩ := List.mem_filterMap.1 hpin
    cases p <;> cases hpi
    exact absurd (hw₀.pinned hp) hi
  · obtain ⟨e, he, rfl⟩ := List.mem_map.1 hreg
    exact absurd (hw₀.labelled he) hi
  · obtain ⟨x, hx, hmem⟩ := List.mem_flatMap.1 hval
    obtain ⟨hx, hlive⟩ := List.mem_filter.1 hx
    obtain ⟨n, hn⟩ := exists_get?_of_mem hx
    have hx : w.inst? ⟨n⟩ = some x := hn
    have hPalive : w.isAlive ⟨n⟩ = true := by
      unfold World.isAlive
      rw [hx]
      exact hlive
    by_cases hP : w₀.Knows ⟨n⟩
    · obtain ⟨y, hy⟩ := hP.exists_inst
      obtain ⟨a, ha⟩ := h.inst _ y hy
      obtain rfl := Option.some.inj (ha.symm.trans hx)
      obtain ⟨v, hv, hvi⟩ := List.mem_filterMap.1 hmem
      cases v <;> cases hvi
      exact absurd (hw₀.stored hy hv i (List.mem_singleton.2 rfl)) hi
    · obtain ⟨c, v, hf⟩ := h.drafts.formed _ x hP hx
      obtain ⟨name, hstored⟩ := hf.exists_stored? (h.classes ▸ hw₀.compiled) hx hmem
      exact ⟨⟨n⟩, hP, hPalive, .slot ⟨n⟩ name, hP, mem_occupants_slot.2 ⟨hPalive, hstored⟩, rfl⟩
  · obtain ⟨x, hx, hmem⟩ := List.mem_flatMap.1 hitem
    obtain ⟨n, hn⟩ := exists_get?_of_mem (List.mem_filter.1 hx).1
    have hx : w.coll? ⟨n⟩ = some x := hn
    by_cases hc : w₀.KnowsColl ⟨n⟩
    · obtain ⟨y, hy⟩ := hc.exists_coll
      obtain rfl := Option.some.inj ((h.coll _ y hy).symm.trans hx)
      exact absurd (hw₀.item _ y hy i hmem) hi
    · have howner := h.tended _ x hc hx (List.ne_nil_of_mem hmem)
      refine ⟨x.owner, (h.drafts.owned _ x hc hx).1, howner, .sequence ⟨n⟩, hc, ?_, ?_⟩
      · change i ∈ w.itemsOf ⟨n⟩
        rw [itemsOf_of_coll? hx]
        exact hmem
      · change (w.coll? ⟨n⟩).map (·.owner) = _
        rw [hx]
        rfl
  · obtain ⟨ns, hns, hmem⟩ := List.mem_flatMap.1 hobj
    obtain ⟨n, hn⟩ := exists_get?_of_mem (List.mem_filter.1 hns).1
    obtain ⟨e, he, rfl⟩ := List.mem_map.1 hmem
    exact absurd (hw₀.object ⟨n⟩ ns hn e he) hi

/-- No new instance is in use: its holders would go on without end. -/
theorem not_isAlive (hi : ¬ w₀.Knows i) : w.isAlive i = false := by
  let New := { i : InstanceId // ¬ w₀.Knows i ∧ w.isAlive i = true }
  have hfinite : Finite New := by
    refine Finite.of_injective (fun i : New => (⟨i.1.index, lt_size_of_isAlive i.2.2⟩ : Fin w.instances.size)) ?_
    intro a b hab
    have hindex : a.1.index = b.1.index := congrArg Fin.val hab
    refine Subtype.ext ?_
    cases ha : a.1
    cases hb : b.1
    rw [ha, hb] at hindex
    exact congrArg InstanceId.mk hindex
  let r (a b : New) : Prop := TransGen (w₀.LentTo w w.occupants) b.1 a.1
  have : IsTrans New r := ⟨fun _ _ _ hab hbc => hbc.trans hab⟩
  have : Std.Irrefl r := ⟨fun a => h.acyclic a.1⟩
  have hwf : WellFounded r := Finite.wellFounded_of_trans_of_irrefl r
  by_contra hne
  obtain ⟨top, -, htop⟩ := hwf.has_min Set.univ ⟨⟨i, hi, Bool.not_eq_false _ ▸ hne⟩, trivial⟩
  obtain ⟨P, hP, halive, hlent⟩ := h.exists_lentTo hw₀ hpins hidle top.2.1 top.2.2
  exact htop ⟨P, hP, halive⟩ trivial (.single hlent)

/-- New places hold nothing. -/
theorem occupants_eq_nil (hpl : ¬ w₀.KnowsPlace pl) : w.occupants pl = [] := by
  cases pl with
  | slot P name =>
    unfold World.occupants
    dsimp only
    rw [h.not_isAlive hw₀ hpins hidle hpl]
    rfl
  | sequence c =>
    change w.itemsOf c = []
    unfold itemsOf
    cases hx : w.coll? c with
    | none => rfl
    | some x =>
      by_contra hne
      have halive := h.tended c x hpl hx hne
      rw [h.not_isAlive hw₀ hpins hidle (h.drafts.owned c x hpl hx).1] at halive
      cases halive

/-- Everybody is recorded where he was. -/
theorem attachment?_eq : w.attachment? = w₀.attachment? :=
  h.ledger.restored fun _ hpl => h.occupants_eq_nil hw₀ hpins hidle hpl

/-- What stood somewhere stands there, apart from roots that were recorded nowhere. -/
theorem leavesStanding : w₀.LeavesStanding w where
  spaces := h.spaces
  parents n hn := by
    refine (h.parents n hn).imp_right fun hfree => ⟨hfree.1, hfree.2.resolve_right ?_⟩
    rintro ⟨i, a, ha, hpl, -⟩
    rw [h.attachment?_eq hw₀ hpins hidle] at ha
    exact hpl (hw₀.placed ha)

/-- Everything is as it was. -/
theorem untouched : w₀.Untouched w := by
  have hatt := h.attachment?_eq hw₀ hpins hidle
  have hold (n p : NodeId) (hn : n.index < w₀.forest.size) (hp : w.forest.Up n p) : p.index < w₀.forest.size := by
    have hrec : w.forest.recorded? n = some p := by
      have hparent : w.forest.parent? n = some p := hp
      rw [Forest.parent?_eq] at hparent
      exact (Option.filter_eq_some_iff.1 hparent).1
    rcases (h.leavesStanding hw₀ hpins hidle).parents n hn with hsame | ⟨-, hnone⟩
    · exact hw₀.bounded n p (hsame.symm.trans hrec)
    · rw [hnone] at hrec
      cases hrec
  have hinst (i : InstanceId) (x : Instance) (hx : w₀.inst? i = some x) : w.inst? i = some x := by
    obtain ⟨a, ha⟩ := h.inst i x hx
    have hsame := congrFun hatt i
    unfold attachment? at hsame
    rw [ha, hx, Option.bind_some, Option.bind_some] at hsame
    dsimp only at hsame
    rw [ha, hsame]
  refine ⟨hinst, h.coll, funext fun pl => ?_, fun i r n hr hn => ?_⟩
  · by_cases hpl : w₀.KnowsPlace pl
    · cases pl with
      | sequence c =>
        obtain ⟨x, hx⟩ := KnowsColl.exists_coll hpl
        change w.itemsOf c = w₀.itemsOf c
        rw [itemsOf_of_coll? hx, itemsOf_of_coll? (h.coll c x hx)]
      | slot P name =>
        obtain ⟨x, hx⟩ := Knows.exists_inst hpl
        exact occupants_slot_congr ((hinst P x hx).trans hx.symm) h.classes name
    · rw [h.occupants_eq_nil hw₀ hpins hidle hpl, occupants_of_not_knows hpl]
  · have hclimb := Forest.reflTransGen_of_climbs hn
    clear hn
    induction hclimb with
    | refl => exact hw₀.root hr
    | tail _ hstep ih => exact hold _ _ ih hstep

end Underway

end World

end ReactiveView
