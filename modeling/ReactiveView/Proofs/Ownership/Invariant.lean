import ReactiveView.Proofs.Ownership.Calls

/-!
# Who stands where

Three representations say who stands where: the values and items that are stored, the record that each
instance carries of its own place, and the lists of the live trees. In an orderly world they agree
(`World.WellPlaced`, `World.Orderly.wellPlaced`), hence they agree in every world that a program leaves
behind (`World.wellPlaced_of_acts`).

In each of these worlds a collection whose owner is in use behaves as a list: however it is edited, its
items change as a plain list does, and so does the row of roots behind its marker
(`World.refines_of_acts`).
-/

set_option autoImplicit false

namespace ReactiveView

open Relation

namespace World

variable {w w₀ : World}

/-- An instance occurs in a place: a slot of an instance in use stores it, or a collection lists it. -/
def Occurs (w : World) (i : InstanceId) : Place → Prop
  | .slot P name => w.isAlive P = true ∧ w.stored? P name = some (.inst i)
  | .sequence k => i ∈ w.itemsOf k

/-- Within the view of an instance, some list has a marker and directly behind it the given roots. -/
def Row (w : World) (P : InstanceId) (m : NodeId) (roots : List NodeId) : Prop :=
  ∃ r e s t, w.rootOf? P = some r ∧ ReflTransGen w.forest.Up e r ∧
    w.forest.children e = s ++ m :: roots ++ t

/-- An instance is recorded to stand in a place of another one. -/
def AttachedUnder (w : World) (i P : InstanceId) : Prop :=
  (∃ name, w.placeOf? i = some (.slot P name)) ∨
    ∃ k x, w.placeOf? i = some (.sequence k) ∧ w.coll? k = some x ∧ x.owner = P

/-- The recorded places, the stored values and items, and the live trees agree. -/
structure WellPlaced (w : World) : Prop where
  record : ∀ i pl, w.placeOf? i = some pl ↔ w.Occurs i pl
  once : ∀ i pl pl', w.Occurs i pl → w.Occurs i pl' → pl = pl'
  nodup : ∀ k, (w.itemsOf k).Nodup
  slotRow : ∀ P name i, w.Occurs i (.slot P name) →
    ∃ m r, w.slotMarker? P name = some m ∧ w.rootOf? i = some r ∧ w.Row P m [r]
  itemRow : ∀ k x, w.coll? k = some x → w.isAlive x.owner = true →
    ∃ roots, (w.itemsOf k).map w.rootOf? = roots.map some ∧ w.Row x.owner x.anchor roots
  acyclic : ∀ i, ¬ TransGen w.AttachedUnder i i

theorem mem_occupants {i : InstanceId} {pl : Place} : i ∈ w.occupants pl ↔ w.Occurs i pl := by
  cases pl with
  | sequence k => exact Iff.rfl
  | slot P name =>
    change i ∈ (if w.isAlive P then ((w.stored? P name).bind Value.inst?).toList else []) ↔ _
    unfold Occurs
    split
    · next hP =>
      rw [Option.mem_toList, Option.bind_eq_some_iff]
      refine ⟨?_, fun h => ⟨_, h.2, rfl⟩⟩
      rintro ⟨v, hv, hi⟩
      cases v with
      | inst j =>
        obtain rfl : j = i := Option.some.inj hi
        exact ⟨hP, hv⟩
      | _ => cases hi
    · next hP => exact ⟨nofun, fun h => absurd h.1 hP⟩

/-- Instances with roots have as many roots. -/
theorem map_rootOf? {is : List InstanceId} (h : ∀ i ∈ is, ∃ r, w.layout.root i = some r) :
    is.map w.rootOf? = (is.filterMap w.layout.root).map some := by
  induction is with
  | nil => rfl
  | cons i is ih =>
    obtain ⟨r, hr⟩ := h i List.mem_cons_self
    rw [List.filterMap_cons_some hr, List.map_cons, List.map_cons]
    exact congrArg₂ _ hr (ih fun j hj => h j (List.mem_cons_of_mem i hj))

namespace Orderly

variable (hw : w.Orderly)

include hw

/-- The roots of the occupants of a place stand behind its marker, within the view of its owner. -/
theorem exists_row {pl : Place} {P : InstanceId} {m : NodeId} (hP : w.isAlive P = true)
    (hspot : w.layout.spot pl = some (P, m)) :
    ∃ roots, (w.occupants pl).map w.rootOf? = roots.map some ∧ w.Row P m roots := by
  obtain ⟨e, s, t, hst⟩ := hw.linked.row pl P m hP hspot
  have hm : m ∈ w.forest.children e := by
    rw [← hst]
    simp
  obtain ⟨r, hr, hwithin⟩ := Layout.Linked.within_list hw.linked hP hspot hm
  have hroots := map_rootOf? fun i hi => hw.linked.rooted i (hw.linked.live_item i pl hi)
  exact ⟨_, hroots, r, e, s, t, hr, hwithin.reflTransGen hw.linked.tidy, hst.symm⟩

theorem under_of_attachedUnder {i P : InstanceId} (h : w.AttachedUnder i P) :
    w.layout.Under w.occupants i P := by
  rcases h with ⟨name, hpl⟩ | ⟨k, x, hpl, hx, rfl⟩
  · have hmem := (hw.linked.place_iff i _).1 hpl
    obtain ⟨Q, m, hspot, -⟩ := hw.linked.live_owner i _ hmem
    obtain ⟨m', -, hm'⟩ := Option.map_eq_some_iff.1 hspot
    obtain rfl : P = Q := congrArg Prod.fst hm'
    exact ⟨_, m, hmem, hspot⟩
  · exact ⟨_, x.anchor, (hw.linked.place_iff i _).1 hpl, spot_of_coll? hx⟩

theorem wellPlaced : w.WellPlaced where
  record i pl := (hw.linked.place_iff i pl).trans mem_occupants
  once i pl pl' h h' := by
    have hpl := (hw.linked.place_iff i pl).2 (mem_occupants.2 h)
    have hpl' := (hw.linked.place_iff i pl').2 (mem_occupants.2 h')
    exact Option.some.inj (hpl.symm.trans hpl')
  nodup k := hw.linked.nodup (.sequence k)
  slotRow P name i h := by
    have hmem := mem_occupants.2 h
    obtain ⟨Q, m, hspot, -⟩ := hw.linked.live_owner i _ hmem
    obtain ⟨m', hm', hpair⟩ := Option.map_eq_some_iff.1 hspot
    obtain ⟨rfl, rfl⟩ := Prod.mk.inj hpair
    obtain ⟨roots, hroots, hrow⟩ := hw.exists_row h.1 hspot
    have hocc : w.occupants (.slot P name) = [i] := by
      change (if w.isAlive P then ((w.stored? P name).bind Value.inst?).toList else []) = [i]
      rw [h.1, h.2]
      rfl
    rw [hocc] at hroots
    obtain ⟨r, rfl⟩ : ∃ r, roots = [r] := by
      rw [← List.length_eq_one_iff, ← List.length_map (f := some), ← hroots]
      rfl
    exact ⟨m', r, hm', (List.cons.inj hroots).1, hrow⟩
  itemRow k x hx hP := hw.exists_row hP (spot_of_coll? hx)
  acyclic i h := hw.linked.not_under_self i (TransGen.mono (fun _ _ => hw.under_of_attachedUnder) _ _ h)

end Orderly

/-! ## A small world -/

theorem idle_boardWorld : boardWorld.Idle where
  toFresh := fresh_boardWorld
  plain := plainClasses_of_all (by decide +kernel)
  tidy := by
    have hempty : boardWorld.forest = {} := by
      unfold boardWorld
      split <;> rfl
    rw [hempty]
    exact Forest.tidy_empty
  unheld := by
    unfold boardWorld
    split <;> rfl
  noObjects n ns hns := by
    unfold boardWorld at hns
    split at hns <;> simp [space?, Table.get?] at hns

/-- A program makes the board and takes hold of the tile in its slot. -/
def heldBoard : World := { board.2 with pins := .inst ⟨1⟩ :: board.2.pins }

/-- It moves the tile to the end of the list. -/
def rearrangedBoard : World :=
  let w := ((Operation.detach ⟨1⟩).run (Callbacks.ofDepth 2) heldBoard).2
  ((Operation.attach ⟨1⟩ ⟨0⟩ "items").run (Callbacks.ofDepth 2) w).2

theorem acts_rearrangedBoard : ReflTransGen Acts boardWorld rearrangedBoard := by
  have hmake : Acts boardWorld board.2 := by
    unfold board
    rw [← Run.discard_apply]
    refine @Acts.does _ 2 (.construct ⟨1⟩ _) (.construct fun v hv => ?_)
    obtain rfl := Option.some.inj hv
    exact List.nil_subset _
  have hhold : Acts board.2 heldBoard := by
    refine .holds fun j hj => ?_
    obtain rfl := Held.inst.inj hj
    decide +kernel
  refine (((ReflTransGen.single hmake).tail hhold).tail (.does 2 (.detach ⟨1⟩))).tail (.does 2 ?_)
  exact .attach (by decide +kernel) (by decide +kernel)

/-! ## Records, values and trees -/

/-- Whatever a program does after a fresh start, stored values, records and live trees agree. -/
theorem wellPlaced_of_acts (h : w₀.Idle) (hacts : ReflTransGen Acts w₀ w) : w.WellPlaced :=
  (h.atRest_of_acts hacts).orderly.wellPlaced

theorem wellPlaced_of_acts_board : rearrangedBoard.WellPlaced ∧
    rearrangedBoard.itemsOf ⟨0⟩ = [⟨2⟩, ⟨3⟩, ⟨1⟩] ∧
    (rearrangedBoard.stored? ⟨0⟩ "first").bind Value.inst? = none :=
  ⟨wellPlaced_of_acts idle_boardWorld acts_rearrangedBoard, by decide +kernel, by decide +kernel⟩

/-! ## Collections -/

/-- Behind the marker of a collection the roots of its items give way to the roots of its new items; what
stands before the marker and behind the roots stays. -/
def RowFollows (k : CollectionId) (w w' : World) : Prop :=
  ∃ x e s t before after, w.coll? k = some x ∧
    (w.itemsOf k).map w.rootOf? = before.map some ∧ (w'.itemsOf k).map w'.rootOf? = after.map some ∧
    w.forest.children e = s ++ x.anchor :: before ++ t ∧
    w'.forest.children e = s ++ x.anchor :: after ++ t

theorem Follows.rowFollows {w' : World} {k : CollectionId} (h : w.Follows k w') (hw : w.Orderly)
    (hw' : w'.Orderly) : w.RowFollows k w' := by
  obtain ⟨x, e, s, t, hx, hbefore, hafter⟩ := h
  have hroots {v : World} (hv : v.Orderly) :
      (v.itemsOf k).map v.rootOf? = ((v.itemsOf k).filterMap v.layout.root).map some :=
    map_rootOf? fun i hi => hv.linked.rooted i (hv.linked.live_item i (.sequence k) hi)
  exact ⟨x, e, s, t, _, _, hx, hroots hw, hroots hw', hbefore, hafter⟩

/-- In every world that a program leaves behind, an edit of a collection whose owner is in use is the edit
of a plain list, with the row behind the marker following it. The program may go on from there: it still
holds what it held, and the owner is still in use. -/
theorem refines_of_acts (h : w₀.Idle) (hacts : ReflTransGen Acts w₀ w) {k : CollectionId} {x : Collection}
    (hx : w.coll? k = some x) (hP : w.isAlive x.owner = true) (e : ListEdit)
    (hv : Value.instancesOfItems e.values ⊆ w.handles) (depth : Nat) {r : Except Halt Unit} {w' : World}
    (hrun : e.run (Callbacks.ofDepth depth) k w = (r, w')) :
    e.Refines k w r w' ∧ w.RowFollows k w' ∧
      (∀ source target, e = .move source target → source < (w.itemsOf k).length →
        target < (w.itemsOf k).length → r = .ok () ∧ (w'.itemsOf k)[target]? = (w.itemsOf k)[source]?) ∧
      Acts w w' ∧ w.handles ⊆ w'.handles ∧ w'.isAlive x.owner = true := by
  have hw := h.atRest_of_acts hacts
  obtain ⟨c, hready⟩ := hw.ready hP
  have hcb := Callbacks.mild_ofDepth depth
  have hrefines := ListEdit.refines hready hx hcb e hv
  have hcloses := ListEdit.closes hready hx hcb e hv hw.settled
  have hact : Acts w (e.run (Callbacks.ofDepth depth) k w).2 := .does depth (.edit hx hP hv)
  rw [hrun] at hrefines hcloses hact
  refine ⟨hrefines, hrefines.row.rowFollows hw.orderly hcloses.1.orderly, ?_, hact, hcloses.1.handles,
    hcloses.1.safe.isAlive⟩
  rintro source target rfl hs ht
  have hin : ¬ (ListEdit.move source target).OutOfRange (w.itemsOf k).length := by
    rintro (h | h) <;> omega
  have hok := hrefines.total rfl hin
  obtain ⟨new, -, hitems⟩ := hrefines.done hok
  refine ⟨hok, ?_⟩
  rw [hitems]
  exact ListEdit.getElem?_apply_move hs ht

/-- An edit that takes two tiles out and puts one of them back in, with a new one behind it. -/
theorem refines_of_acts_board : ∃ r w, rearrangedBoard.RowFollows ⟨0⟩ w ∧
    (ListEdit.splice 1 2 [.inst ⟨1⟩, tile "d"]).Refines ⟨0⟩ rearrangedBoard r w ∧
    w.itemsOf ⟨0⟩ = [⟨2⟩, ⟨1⟩, ⟨4⟩] := by
  have howner : ((rearrangedBoard.coll? ⟨0⟩).any fun x => rearrangedBoard.isAlive x.owner) = true := by
    decide +kernel
  obtain ⟨x, hx, hP⟩ := (Option.any_eq_true _ _).1 howner
  have hheld : Value.instancesOfItems [.inst ⟨1⟩, tile "d"] ⊆ rearrangedBoard.handles := by decide +kernel
  obtain ⟨hrefines, hrow, -⟩ := refines_of_acts idle_boardWorld acts_rearrangedBoard hx hP
    (.splice 1 2 [.inst ⟨1⟩, tile "d"]) hheld 2 rfl
  exact ⟨_, _, hrow, hrefines, by decide +kernel⟩

end World

end ReactiveView
