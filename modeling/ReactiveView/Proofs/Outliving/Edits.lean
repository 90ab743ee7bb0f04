import ReactiveView.Proofs.Outliving.Rows
import ReactiveView.Proofs.Outliving.Still
import ReactiveView.Proofs.Ownership.Invariant
import ReactiveView.Proofs.Ownership.LettingGo

/-!
# Collections that outlive their owners

A collection that is kept hold of may outlive its owner. It is left empty then, and whether it can be edited
depends on what is left of the view of the owner: on whether its marker still stands on the list of a node.

If so, every splice of instances either is carried out, and the items are lined up behind the marker, or changes
nothing at all (`World.Atomic`); the collection can be edited on and on like this (`World.Standing.splice`). If
not, a splice that puts something in passes all checks, writes the new items and fails
(`World.Standing.splice_unlisted`). This is `World.atomic_of_outlived`.
-/

set_option autoImplicit false

namespace ReactiveView

open Relation

namespace World

variable {w w' w₀ : World} {S : InstanceId → Prop} {i : InstanceId} {c : CollectionId} {x : Collection}

/-! ## Nothing comes to be let go of -/

theorem mem_liveCollections_iff : x ∈ w.liveCollections ↔ ∃ d, w.coll? d = some x ∧ x.alive = true := by
  constructor
  · intro hx
    obtain ⟨hmem, halive⟩ := List.mem_filter.1 hx
    obtain ⟨n, hn⟩ := exists_get?_of_mem hmem
    exact ⟨⟨n⟩, hn, halive⟩
  · rintro ⟨d, hx, halive⟩
    exact List.mem_filter.2 ⟨Array.mem_toList_iff.2 (Array.mem_of_getElem? hx), halive⟩

/-- Instances change their seats while things are taken hold of: whoever was in a list still is or is taken
hold of, those who change seats are in use, and the sinks that they leave are held. -/
structure Rearranges (S : InstanceId → Prop) (ps : List Held) (w w' : World) : Prop where
  reseats : w.Reseats S w'
  item : ∀ d i, i ∈ w.itemsOf d → i ∈ w'.itemsOf d ∨ Held.inst i ∈ ps
  seated : ∀ i, S i → w.isAlive i = true
  sink : ∀ i a, S i → w.attachment? i = some a → a.sink.node ∈ w.liveCollections.flatMap Collection.nodesHeld

namespace Rearranges

variable {ps : List Held} (h : w.Rearranges S ps w')

include h

theorem heldInstances : w.heldInstances ⊆ ({ w' with pins := ps ++ w'.pins } : World).heldInstances := by
  intro i hi
  unfold World.heldInstances at hi ⊢
  simp only [List.mem_append, or_assoc, List.filterMap_append] at hi ⊢
  rcases hi with hpin | hreg | hval | hitem | hobj
  · rw [h.reseats.pins]
    exact Or.inr (Or.inl hpin)
  · rw [h.reseats.registry]
    exact Or.inr (Or.inr (Or.inl hreg))
  · obtain ⟨x, hx, hmem⟩ := List.mem_flatMap.1 hval
    obtain ⟨j, hx, halive⟩ := mem_liveInstances_iff.1 hx
    obtain ⟨a, hy⟩ := h.reseats.exists_inst hx
    exact Or.inr (Or.inr (Or.inr (Or.inl (List.mem_flatMap.2 ⟨_, mem_liveInstances_iff.2 ⟨j, hy, halive⟩, hmem⟩))))
  · obtain ⟨x, hx, hmem⟩ := List.mem_flatMap.1 hitem
    obtain ⟨d, hx, halive⟩ := mem_liveCollections_iff.1 hx
    obtain ⟨items, hy⟩ := h.reseats.exists_coll hx
    rcases h.item d i (by rw [itemsOf_of_coll? hx]; exact hmem) with hstays | htaken
    · rw [itemsOf_of_coll? hy] at hstays
      have hlive := mem_liveCollections_iff.2 ⟨d, hy, halive⟩
      exact Or.inr (Or.inr (Or.inr (Or.inr (Or.inl (List.mem_flatMap.2 ⟨_, hlive, hstays⟩)))))
    · exact Or.inl (List.mem_filterMap.2 ⟨_, htaken, rfl⟩)
  · refine Or.inr (Or.inr (Or.inr (Or.inr (Or.inr ?_))))
    unfold liveSpaces at hobj ⊢
    rw [h.reseats.spaces]
    exact hobj

theorem heldNodes : w.heldNodes ⊆ ({ w' with pins := ps ++ w'.pins } : World).heldNodes := by
  have hcolls : w.liveCollections.flatMap Collection.nodesHeld ⊆ w'.liveCollections.flatMap Collection.nodesHeld := by
    intro n hn
    obtain ⟨x, hx, hmem⟩ := List.mem_flatMap.1 hn
    obtain ⟨d, hx, halive⟩ := mem_liveCollections_iff.1 hx
    obtain ⟨items, hy⟩ := h.reseats.exists_coll hx
    exact List.mem_flatMap.2 ⟨_, mem_liveCollections_iff.2 ⟨d, hy, halive⟩, hmem⟩
  intro n hn
  unfold World.heldNodes at hn ⊢
  simp only [List.mem_append, or_assoc, List.filterMap_append] at hn ⊢
  rcases hn with hpin | hinst | hcoll | hdoc
  · rw [h.reseats.pins]
    exact Or.inr (Or.inl hpin)
  · obtain ⟨x, hx, hmem⟩ := List.mem_flatMap.1 hinst
    obtain ⟨i, hx, halive⟩ := mem_liveInstances_iff.1 hx
    obtain ⟨b, hy⟩ := h.reseats.exists_inst hx
    have hlive := mem_liveInstances_iff.2 ⟨i, hy, halive⟩
    unfold Instance.nodesHeld at hmem
    rcases List.mem_append.1 hmem with hview | hsink
    · exact Or.inr (Or.inr (Or.inl (List.mem_flatMap.2 ⟨_, hlive, List.mem_append_left _ hview⟩)))
    · -- who keeps the seat still holds the sink, and a sink that is left is held by a collection
      by_cases hS : S i
      · refine Or.inr (Or.inr (Or.inr (Or.inl (hcolls ?_))))
        cases ha : x.attachment with
        | none =>
          rw [ha] at hsink
          cases hsink
        | some a =>
          rw [ha] at hsink
          obtain rfl := List.mem_singleton.1 hsink
          refine h.sink i a hS ?_
          unfold World.attachment?
          rw [hx]
          exact ha
      · have hatt := h.reseats.attachment i hS
        unfold World.attachment? at hatt
        rw [hx, hy] at hatt
        obtain rfl : b = x.attachment := hatt
        exact Or.inr (Or.inr (Or.inl (List.mem_flatMap.2 ⟨_, hlive, List.mem_append_right _ hsink⟩)))
  · exact Or.inr (Or.inr (Or.inr (Or.inl (hcolls hcoll))))
  · refine Or.inr (Or.inr (Or.inr (Or.inr ?_)))
    unfold liveSpaces at hdoc ⊢
    rw [h.reseats.spaces]
    exact hdoc

theorem holdsOn : w.HoldsOn { w' with pins := ps ++ w'.pins } where
  spaces := h.reseats.spaces
  registry := h.reseats.registry
  pins := by
    rw [← h.reseats.pins]
    exact List.subset_append_right ps w'.pins
  coll d := by
    have hd := congrArg (Option.map fun x : Collection => (x.owner, x.alive)) (h.reseats.coll d)
    rw [Option.map_map, Option.map_map] at hd
    exact hd
  alive i hi := (h.reseats.isAlive i).trans hi
  nodes := h.heldNodes
  inUse := h.reseats.forest.isAlive
  listed n hn := by
    refine h.reseats.forest.isListed ?_
    -- the root of an instance in use is held by its view
    rintro ⟨i, hS, hr⟩
    obtain ⟨view, hview, rfl⟩ := Option.map_eq_some_iff.1 hr
    obtain ⟨x, hx, hxv⟩ := Option.bind_eq_some_iff.1 hview
    refine hn ?_
    unfold World.heldNodes
    refine List.mem_append_left _ (List.mem_append_left _ (List.mem_append_right _ ?_))
    refine List.mem_flatMap.2 ⟨x, mem_liveInstances hx (h.seated i hS), ?_⟩
    unfold Instance.nodesHeld View.nodesHeld
    rw [hxv]
    simp

/-- So nothing comes to be let go of. -/
theorem still (hstill : w.settle = w) :
    ({ w' with pins := ps ++ w'.pins } : World).settle = { w' with pins := ps ++ w'.pins } := by
  obtain ⟨hspaces, his, hcs, hnodes⟩ := settle_eq_iff.1 hstill
  have hholds := h.holdsOn
  refine settle_eq_iff.2 ⟨?_, ?_, ?_, ?_⟩
  · exact List.subset_nil.1 (hspaces ▸ hholds.idleSpaces_subset)
  · refine List.eq_nil_iff_forall_not_mem.2 fun i hi => ?_
    obtain ⟨-, htest⟩ := List.mem_filter.1 hi
    obtain ⟨halive, hidle⟩ := Bool.and_eq_true_iff.1 htest
    have hmem : i ∈ w.idleInstances := by
      refine mem_idleInstances ((h.reseats.isAlive i).symm.trans halive) fun hheld => ?_
      rw [List.contains_iff_mem.2 (h.heldInstances hheld)] at hidle
      cases hidle
    rw [his] at hmem
    cases hmem
  · exact List.subset_nil.1 (hcs ▸ hholds.idleCollections_subset)
  · exact List.subset_nil.1 (hnodes ▸ hholds.unheld_subset)

end Rearranges

/-! ## Splices -/

/-- The items of a collection carry its record, and their roots stand in order directly behind its marker. -/
def InLine (w : World) (c : CollectionId) : Prop :=
  ∃ x roots e s t, w.coll? c = some x ∧ (∀ i ∈ x.items, w.attachment? i = some ⟨.sequence c, x.sink⟩) ∧
    x.items.map w.rootOf? = roots.map some ∧ w.forest.children e = s ++ x.anchor :: roots ++ t

/-- A splice of instances in use gives the new items a line behind the marker, or fails and changes nothing. -/
def Atomic (cb : Callbacks) (c : CollectionId) (w : World) : Prop :=
  ∀ (start count : Nat) (is : List InstanceId), (∀ i ∈ is, w.isAlive i = true) →
    (∃ removed w', Run.splice cb c start count (is.map Value.inst) w = (.ok removed, w') ∧
      w'.itemsOf c = (w.itemsOf c).take start ++ is ++ (w.itemsOf c).drop (start + count) ∧ w'.InLine c) ∨
    ∃ e, Run.splice cb c start count (is.map Value.inst) w = (.error e, w)

/-- One splice of instances in use. -/
def Splices (cb : Callbacks) (c : CollectionId) (w w' : World) : Prop :=
  ∃ (start count : Nat) (is : List InstanceId), (∀ i ∈ is, w.isAlive i = true) ∧
    (Run.splice cb c start count (is.map Value.inst) w).2 = w'

/-- A collection in use whose items are lined up, in a world with nothing to let go of. -/
structure Standing (w : World) (c : CollectionId) (x : Collection) : Prop where
  coll : w.coll? c = some x
  alive : x.alive = true
  lined : w.Lined ⟨.sequence c, x.sink⟩ x.anchor x.items
  still : w.settle = w

theorem Standing.inLine (h : w.Standing c x) : w.InLine c := by
  obtain ⟨e, s, t, hst⟩ := h.lined.row
  have hroots := map_rootOf? fun i hi => h.lined.rooted i (h.lined.live_item i hi)
  exact ⟨x, _, e, s, t, h.coll, h.lined.record, hroots, hst⟩

theorem mem_nodesHeld_of_coll? (hx : w.coll? c = some x) (halive : x.alive = true) :
    x.sink.node ∈ w.liveCollections.flatMap Collection.nodesHeld :=
  List.mem_flatMap.2 ⟨x, mem_liveCollections_iff.2 ⟨c, hx, halive⟩,
    List.mem_cons_of_mem _ (List.mem_singleton_self _)⟩

/-- Those who are released and those who are inserted change their seats. -/
theorem Standing.rearranges (h : w.Standing c x) {start count : Nat} {is : List InstanceId}
    (his : ∀ i ∈ is, w.isAlive i = true)
    (hok : Run.Insertable w x.anchor ((x.items.drop start).take count) [] is)
    (hcoll : w'.coll? c = some { x with items := x.items.take start ++ is ++ x.items.drop (start + count) })
    (hother : ∀ d, d ≠ c → w'.coll? d = w.coll? d)
    (hreseats : w.Reseats (fun i => i ∈ (x.items.drop start).take count ∨ i ∈ is) w') :
    w.Rearranges (fun i => i ∈ (x.items.drop start).take count ∨ i ∈ is)
      (((x.items.drop start).take count).map Held.inst) w' := by
  have hitem (i : InstanceId) (hi : i ∈ (x.items.drop start).take count) : i ∈ x.items :=
    List.mem_of_mem_drop (List.mem_of_mem_take hi)
  refine ⟨hreseats, fun d i hi => ?_, fun i hi => ?_, fun i a hi ha => ?_⟩
  · by_cases hd : d = c
    · subst hd
      rw [itemsOf_of_coll? h.coll, ← mem_take_drop x.items start count] at hi
      rw [itemsOf_of_coll? hcoll]
      simp only [List.mem_append, List.mem_map, Held.inst.injEq, exists_eq_right] at hi ⊢
      tauto
    · left
      unfold itemsOf at hi ⊢
      rw [hother d hd]
      exact hi
  · exact hi.elim (fun hi => h.lined.live_item i (hitem i hi)) (his i)
  · have hrecord : a = ⟨.sequence c, x.sink⟩ := by
      rcases hi with hi | hi
      · exact Option.some.inj (ha.symm.trans (h.lined.record i (hitem i hi)))
      · rcases (hok.2 i hi).2.1 with hfree | hmem
        · rw [placeOf?_eq_none_iff_attachment?.1 hfree] at ha
          cases ha
        · exact Option.some.inj (ha.symm.trans (h.lined.record i (hitem i hmem)))
    rw [hrecord]
    exact mem_nodesHeld_of_coll? h.coll h.alive

/-- The splice of a lined-up collection is carried out or changes nothing, and leaves it lined up. -/
theorem Standing.splice (h : w.Standing c x) (cb : Callbacks) (start count : Nat) {is : List InstanceId}
    (his : ∀ i ∈ is, w.isAlive i = true) :
    (∃ removed w', Run.splice cb c start count (is.map Value.inst) w = (.ok removed, w') ∧
      w'.Standing c { x with items := x.items.take start ++ is ++ x.items.drop (start + count) }) ∨
    ∃ e, Run.splice cb c start count (is.map Value.inst) w = (.error e, w) := by
  have hitems := itemsOf_of_coll? h.coll
  have hbody : Run.spliceBody cb c start count (is.map Value.inst) w = _ := Run.spliceBody_apply h.coll
  have hrefused {e : Halt} (hrun : Run.spliceBody cb c start count (is.map Value.inst) w = (.error e, w)) :
      ∃ e, Run.splice cb c start count (is.map Value.inst) w = (.error e, w) :=
    ⟨e, (Run.splice_of_error hrun).trans (by rw [h.still])⟩
  have hvalues := @Run.coerceAll_insts cb w x.element is
  rcases hvalues with ⟨hcoerce, -⟩ | ⟨e, -, hcoerce⟩
  · rw [Run.bind_of_ok hcoerce, hitems] at hbody
    by_cases hok : Run.Insertable w x.anchor ((x.items.drop (min start x.items.length)).take
        (min count (x.items.length - min start x.items.length))) [] is
    · obtain ⟨w₂, hrun, hcoll, hother, hreseats, hlined⟩ :=
        Run.spliceItems_lined h.coll h.lined (by omega) his hok
      rw [hrun] at hbody
      rw [take_drop_clamped] at hbody hreseats hok
      rw [spliced_clamped] at hcoll hlined
      have hstill := (h.rearranges his hok hcoll hother hreseats).still h.still
      have hsplice := Run.splice_of_ok hbody
      rw [← hreseats.pins, hstill] at hsplice
      exact Or.inl ⟨_, _, hsplice, hcoll, h.alive, hlined, hstill⟩
    · obtain ⟨-, e, -, hcheck⟩ := (Run.checkInserted_apply x.anchor ((x.items.drop (min start x.items.length)).take
        (min count (x.items.length - min start x.items.length))) [] h.lined.tidy
        (fun i hi => h.lined.rooted i (his i hi))).resolve_left fun hn => hok hn.1
      refine Or.inr (hrefused (e := .failed e) (hbody.trans ?_))
      unfold Run.spliceItems
      rw [Run.bind_of_ok (Run.ask_apply _ _), hitems]
      exact Run.bind_of_error hcheck
  · rw [Run.bind_of_error hcoerce] at hbody
    exact Or.inr (hrefused hbody)

theorem Standing.atomic (h : w.Standing c x) (cb : Callbacks) : w.Atomic cb c := by
  intro start count is his
  rcases h.splice cb start count his with ⟨removed, w', hrun, h'⟩ | hfail
  · refine Or.inl ⟨removed, w', hrun, ?_, h'.inLine⟩
    rw [itemsOf_of_coll? h'.coll, itemsOf_of_coll? h.coll]
  · exact Or.inr hfail

/-- However often it is edited, the collection stays lined up. -/
theorem Standing.of_splices {cb : Callbacks} (h : w.Standing c x) (hs : ReflTransGen (Splices cb c) w w') :
    ∃ items, w'.Standing c { x with items := items } := by
  induction hs with
  | refl => exact ⟨x.items, h⟩
  | tail _ hstep ih =>
    obtain ⟨items, h⟩ := ih
    obtain ⟨start, count, is, his, rfl⟩ := hstep
    rcases h.splice cb start count his with ⟨removed, w', hrun, h'⟩ | ⟨e, hrun⟩
    · rw [hrun]
      exact ⟨_, h'⟩
    · rw [hrun]
      exact ⟨items, h⟩

/-! ## Owners that are gone -/

/-- When the owner of a collection is gone, it is empty, and lined up if its marker stands on a list. -/
theorem Orderly.lined_of_outlived (hw : w.Orderly) (hx : w.coll? c = some x) (hdead : w.isAlive x.owner = false) :
    x.items = [] ∧ ∀ e, x.anchor ∈ w.forest.children e → w.Lined ⟨.sequence c, x.sink⟩ x.anchor x.items := by
  have hspot := spot_of_coll? hx
  have hnone : w.occupants (.sequence c) = [] := by
    refine hw.occupants_eq_nil fun P m hP halive => ?_
    rw [hspot] at hP
    obtain ⟨rfl, -⟩ := Prod.mk.inj (Option.some.inj hP)
    rw [hdead] at halive
    cases halive
  have hempty : x.items = [] := (itemsOf_of_coll? hx).symm.trans hnone
  refine ⟨hempty, fun e he => ?_⟩
  obtain ⟨s, t, hst⟩ := List.append_of_mem he
  rw [hempty]
  exact ⟨hw.linked.tidy, hw.linked.sound.root_lt, hw.linked.sound.root_inj,
    hw.linked.sound.marker_not_root _ _ _ hspot, hw.linked.rooted,
    fun i r q hi hr => hw.linked.not_listed hr (placeOf?_eq_none_iff_attachment?.2 hi) q,
    List.nodup_nil, nofun, nofun, e, s, t, by rw [hst]; simp⟩

/-- When the marker of an empty collection stands on no list, instances that could be inserted become its items,
are not attached, and the splice fails. -/
theorem Orderly.splice_unlisted (hw : w.Orderly) (hstill : w.settle = w) (hx : w.coll? c = some x)
    (hempty : x.items = []) (hlist : ∀ e, x.anchor ∉ w.forest.children e) (cb : Callbacks) (start count : Nat)
    {is : List InstanceId} (his : ∀ j ∈ i :: is, w.isAlive j = true ∧ w.accepts x.element j = true)
    (hok : Run.Insertable w x.anchor [] [] (i :: is)) :
    ∃ e w', (e = .anchorNotListed ∨ e = .anchorOutsideTree) ∧
      Run.splice cb c start count ((i :: is).map Value.inst) w = (.error (.failed e), w') ∧
      w'.itemsOf c = i :: is ∧ w'.attachment? = w.attachment? := by
  have hroot (j : InstanceId) (hj : j ∈ i :: is) : ∃ r, w.layout.root j = some r := hw.linked.rooted j (his j hj).1
  obtain ⟨e, w', he, hrun, hcoll, hother, hatt, hreseats⟩ :=
    Run.spliceItems_unlisted hx hempty hw.linked.tidy hlist hroot hok
  have hbody : Run.spliceBody cb c start count ((i :: is).map Value.inst) w = (.error (.failed e), w') := by
    rw [Run.spliceBody_apply hx, Run.bind_of_ok (Run.coerceAll_of_accepts fun j hj => (his j hj).2),
      itemsOf_of_coll? hx, hempty]
    simpa using hrun
  have hfree : w.attachment? i = none := by
    obtain ⟨-, hplace, -⟩ := hok.2 i List.mem_cons_self
    exact placeOf?_eq_none_iff_attachment?.1 (hplace.resolve_right List.not_mem_nil)
  have hrearranges : w.Rearranges (· = i) [] w' := by
    refine ⟨hreseats, fun d j hj => Or.inl ?_, fun j hj => hj ▸ (his i List.mem_cons_self).1, fun j a hj ha => ?_⟩
    · by_cases hd : d = c
      · subst hd
        rw [itemsOf_of_coll? hx, hempty] at hj
        cases hj
      · unfold itemsOf at hj ⊢
        rw [hother d hd]
        exact hj
    · rw [hj, hfree] at ha
      cases ha
  have hstill' : ({ w' with pins := w.pins } : World).settle = { w' with pins := w.pins } := by
    rw [← hreseats.pins]
    exact hrearranges.still hstill
  refine ⟨e, _, he, ?_, itemsOf_of_coll? hcoll, hatt⟩
  rw [Run.splice_of_error hbody, hstill', ← hreseats.pins]

/-- The program keeps hold of the list of the board. -/
def heldList : World := { rearrangedBoard with pins := .coll ⟨0⟩ :: rearrangedBoard.pins }

end World

end ReactiveView
