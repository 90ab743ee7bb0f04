import ReactiveView.Proofs.Ownership.Calls
import ReactiveView.Proofs.Ownership.LettingGo

/-!
# Taking an instance out of its place

In a world at rest an instance that a program holds can be detached. This takes it out of the place that holds
it and changes no other place and no value (`World.TakenOut`, `World.AtRest.detach`). What is let go of on the
way is nothing: the instance is held by the program, everybody else by the same handles and places as before
(`World.TakenOut.letGo`).
-/

set_option autoImplicit false

namespace ReactiveView

namespace World

variable {w w' w'' : World} {i P : InstanceId} {pl : Place} {m : NodeId}

/-- The instance stands in the place no longer; all else is in use, stands where it stood and holds what it
held. -/
structure TakenOut (i : InstanceId) (pl : Place) (w w' : World) : Prop where
  shape : w.SameShape w'
  registry : w'.registry = w.registry
  alive : ∀ j, w'.isAlive j = w.isAlive j
  place : w'.placeOf? = Function.update w.placeOf? i none
  occupants : w'.occupants = Function.update w.occupants pl ((w.occupants pl).erase i)
  stored : ∀ P name, Place.slot P name ≠ pl → w'.stored? P name = w.stored? P name

/-- A place that is filled with what it has held without one. -/
theorem Refills.takenOut (h : w.Refills pl P m ((w.occupants pl).erase i) w') (hw : w.Orderly)
    (hplace : w.placeOf? i = some pl) : TakenOut i pl w w' where
  shape := h.edits.shape
  registry := h.edits.handles.registry
  alive := h.edits.alive
  occupants := h.occupants
  stored := h.stored
  place := by
    funext j
    refine Option.ext fun q => ?_
    rw [h.orderly.linked.place_iff, h.occupants]
    have hnodup : (w.occupants pl).Nodup := hw.linked.nodup pl
    by_cases hj : j = i
    · rw [hj, Function.update_self]
      refine ⟨fun hmem => ?_, nofun⟩
      by_cases hq : q = pl
      · rw [hq, Function.update_self] at hmem
        exact absurd hmem hnodup.not_mem_erase
      · rw [Function.update_of_ne hq, ← hw.linked.place_iff, hplace] at hmem
        exact absurd (Option.some.inj hmem).symm hq
    · rw [Function.update_of_ne hj, hw.linked.place_iff]
      by_cases hq : q = pl
      · rw [hq, Function.update_self, List.mem_erase_of_ne hj]
      · rw [Function.update_of_ne hq]

theorem TakenOut.trans_asBefore (h : TakenOut i pl w w') (h' : w'.AsBefore w'') : TakenOut i pl w w'' where
  shape := h.shape.trans h'.shape
  registry := h'.registry.trans h.registry
  alive j := (h'.alive j).trans (h.alive j)
  place := by
    rw [← h.place]
    exact funext fun j => congrArg (Option.map Attachment.place) (h'.attachment j)
  occupants := h'.occupants.trans h.occupants
  stored P name hne := (h'.stored P name).trans (h.stored P name hne)

/-- The end of a scope in which the instance has been taken out: no more is let go. -/
theorem TakenOut.letGo (h : TakenOut i pl w w') (hw : w.AtRest) (hw' : w'.Orderly) {ps : List Held}
    (hps : w.pins ⊆ ps) (hi : i ∈ ({ w with pins := ps } : World).handles)
    (halive : ∀ j ∈ ps.filterMap Held.inst?, w.isAlive j = true) :
    ({ w' with pins := ps } : World).settle.Orderly ∧ TakenOut i pl w ({ w' with pins := ps } : World).settle := by
  have hhandles : ({ w' with pins := ps } : World).handles = ({ w with pins := ps } : World).handles := by
    unfold handles
    rw [h.registry]
  have horderly : ({ w' with pins := ps } : World).Orderly := by
    refine hw'.rehold (g := w'.registry) fun j hj => ?_
    rw [h.alive]
    rcases List.mem_append.1 (hhandles ▸ hj) with hj | hj
    · exact halive j hj
    · exact hw.orderly.handled j (List.mem_append_right _ hj)
  have hsettled : ({ w' with pins := ps } : World).Settled := by
    intro j hj
    refine ⟨hj, ?_⟩
    rw [hhandles]
    obtain ⟨-, hheld | ⟨q, P, m, hocc, hspot, hP⟩⟩ := hw.settled j ((h.alive j).symm.trans hj)
    · exact .inl ((respects_rehold hw.settled hps).handles hheld)
    · by_cases hji : j = i
      · exact .inl (hji ▸ hi)
      · have hplace : w'.placeOf? j = some q := by
          rw [h.place, Function.update_of_ne hji]
          exact (hw.orderly.linked.place_iff j q).2 hocc
        refine .inr ⟨q, P, m, (hw'.linked.place_iff j q).1 hplace, ?_, (h.alive P).trans hP⟩
        rw [← hspot, ← h.shape.layout]
        rfl
  have hpins : w'.AsBefore { w' with pins := ps } :=
    ⟨⟨rfl, fun _ => rfl, fun _ => rfl, fun _ => rfl⟩, rfl, fun _ => rfl, fun _ => rfl, rfl, fun _ _ => rfl⟩
  exact ⟨horderly.settle.1, (h.trans_asBefore hpins).trans_asBefore (horderly.asBefore_settle hsettled)⟩

/-- An instance that stands in a slot is its stored child. -/
theorem Orderly.slot_of_occupant (hw : w.Orderly) {name : String} (hi : i ∈ w.occupants (.slot P name)) :
    ∃ x c n p element, w.inst? P = some x ∧ w.class? x.classId = some c ∧
      c.descriptor.propertyIndex? name = some n ∧ c.descriptor.properties[n]? = some p ∧ p.name = name ∧
      p.kind = .slot element ∧ w.occupants (.slot P name) = [i] := by
  obtain ⟨hP, hstored⟩ := mem_occupants_slot.1 hi
  obtain ⟨x, c, n, hx, hc, hindex, hval⟩ := exists_of_stored? hstored
  obtain ⟨view, hf⟩ := hw.toBuilt.formed hx hc
  obtain ⟨p, site, hp, -, hfits⟩ := hf.exists_fits hval
  obtain ⟨p', hp', hname⟩ := Descriptor.propertyIndex?_some hindex
  obtain rfl := Option.some.inj (hp.symm.trans hp')
  obtain ⟨element, hk⟩ : ∃ element, p.kind = .slot element := by
    generalize p.kind = kind at hfits
    cases hfits with
    | primitive hprim => cases hprim
    | child => exact ⟨_, rfl⟩
  refine ⟨x, c, n, p, element, hx, hc, hindex, hp, hname, hk, ?_⟩
  unfold occupants
  dsimp only
  rw [hP, hstored]
  rfl

end World

namespace Run

open World

variable {w : World} {i P : InstanceId} {k : CollectionId} {x : Collection} {pl : Place}

theorem inScope_of_ok {α : Type} {body : Run α} {a : α} {w' : World} (h : body w = (.ok a, w')) :
    inScope body w = (.ok a, ({ w' with pins := w.pins } : World).settle) := by
  rw [inScope_apply, h]

/-- Taking one item out of a collection. -/
theorem splice_takenOut (cb : Callbacks) (hw : w.AtRest) (hx : w.coll? k = some x) {n : Nat}
    (hi : (w.itemsOf k)[n]? = some i) :
    ∃ w', splice cb k n 1 [] w = (.ok [i], w') ∧ w'.Orderly ∧ TakenOut i (.sequence k) w w' := by
  have hmem : i ∈ w.occupants (.sequence k) := List.mem_of_getElem? hi
  obtain ⟨hn, hget⟩ := List.getElem?_eq_some_iff.1 hi
  obtain ⟨P, m, hspot, hP⟩ := hw.orderly.linked.live_owner i _ hmem
  obtain ⟨rfl, rfl⟩ := Prod.mk.inj (Option.some.inj ((spot_of_coll? hx).symm.trans hspot))
  have hok : Insertable w x.anchor (((w.itemsOf k).drop n).take 1) [] [] := insertable_nil _ _ _
  obtain ⟨w', hrun, hrefills⟩ := spliceItems_ok hw.orderly hx rfl hP hn (fun j hj => by cases hj) hok
  have hremoved : ((w.itemsOf k).drop n).take 1 = [i] := by
    rw [List.drop_eq_getElem_cons hn, hget]
    rfl
  have hleft : spliced (w.itemsOf k) n 1 [] = (w.itemsOf k).erase i := by
    have hnodup : (w.itemsOf k).Nodup := hw.orderly.linked.nodup (.sequence k)
    rw [← hget, hnodup.erase_getElem n hn, List.eraseIdx_eq_take_drop_succ]
    unfold spliced
    rw [List.append_nil]
  rw [hleft] at hrefills
  rw [hremoved] at hrun
  have hplace := (hw.orderly.linked.place_iff i _).2 hmem
  have htaken : TakenOut i (.sequence k) w w' := hrefills.takenOut hw.orderly hplace
  have hbody : spliceBody cb k n 1 [] w = (.ok [i], w') := by
    rw [spliceBody_nil cb hx, Nat.min_eq_left (Nat.le_of_lt hn), Nat.min_eq_left (by omega), hrun]
  rw [splice_eq, keeping_apply, hbody]
  have hheld : i ∈ ({ w with pins := Held.inst i :: w.pins } : World).handles :=
    List.mem_append_left _ List.mem_cons_self
  have hpinned : ∀ j ∈ (Held.inst i :: w.pins).filterMap Held.inst?, w.isAlive j = true := by
    intro j hj
    rcases List.mem_cons.1 hj with rfl | hj
    · exact hw.orderly.linked.live_item j _ hmem
    · exact hw.orderly.handled j (List.mem_append_left _ hj)
  exact ⟨_, rfl, htaken.letGo hw hrefills.orderly (List.subset_cons_self _ _) hheld hpinned⟩

/-- Writing null to a slot takes the child out. -/
theorem setProperty_takenOut (cb : Callbacks) (hw : w.AtRest) {name : String} (hi : i ∈ w.handles)
    (hmem : i ∈ w.occupants (.slot P name)) :
    ∃ w', setProperty cb P name .null w = (.ok (), w') ∧ w'.Orderly ∧ TakenOut i (.slot P name) w w' := by
  obtain ⟨y, c, n, p, element, hy, hc, hindex, hp, rfl, hk, hocc⟩ := hw.orderly.slot_of_occupant hmem
  have hP := (mem_occupants_slot.1 hmem).1
  obtain ⟨m, w', hrun, -, hrefills⟩ := replaceChild_none hw.orderly hy hc hp hk hP
  have hempty : (w.occupants (.slot P p.name)).erase i = [] := by
    rw [hocc, List.erase_cons_head]
  rw [← hempty] at hrefills
  have htaken : TakenOut i (.slot P p.name) w w' :=
    hrefills.takenOut hw.orderly ((hw.orderly.linked.place_iff i _).2 hmem)
  have hset : setProperty cb P p.name .null w = setSlot cb P n p.name element .null w := by
    have hfind : propertyIndex P p.name w = (.ok n, w) := by
      unfold propertyIndex
      rw [bind_of_ok (theClassOf_of hy hc), hindex]
      rfl
    unfold setProperty
    rw [bind_of_ok hfind, bind_of_ok (theClassOf_of hy hc), hp, bind_of_ok (ofOption_some _ _), hk]
  have hbody : (slotChild cb element .null >>= fun child => replaceChild P n p.name child) w = (.ok (), w') := by
    have hnone : slotChild cb element .null w = (.ok none, w) := rfl
    rw [bind_of_ok hnone, hrun]
  rw [hset]
  have hpinned : ∀ j ∈ w.pins.filterMap Held.inst?, w.isAlive j = true := fun j hj =>
    hw.orderly.handled j (List.mem_append_left _ hj)
  exact ⟨_, inScope_of_ok hbody, htaken.letGo hw hrefills.orderly (List.Subset.refl _) hi hpinned⟩

section Place

variable {a : Attachment} (ha : w.attachment? i = some a)

include ha

theorem detach_sequence {cb : Callbacks} {n : Nat} {removed : List InstanceId} {w₁ : World} (hpl : a.place = .sequence k)
    (halive : w.isAliveColl k = true) (hn : (w.itemsOf k).idxOf? i = some n)
    (hrun : splice cb k n 1 [] { w with pins := .coll k :: w.pins } = (.ok removed, w₁)) :
    detach cb i w = (.ok (), ({ w₁ with pins := w.pins } : World).settle) := by
  unfold detach
  refine inScope_of_ok ?_
  rw [bind_of_ok (get_apply w), ha]
  dsimp only
  rw [hpl]
  dsimp only
  rw [bind_of_ok (get_apply w), halive]
  rw [if_neg (by exact Bool.false_ne_true), bind_of_ok (pin_apply _ w), bind_of_ok (get_apply _)]
  have hn' : (({ w with pins := .coll k :: w.pins } : World).itemsOf k).idxOf? i = some n := hn
  rw [hn']
  dsimp only
  rw [bind_of_ok hrun, pure_apply]

theorem detach_slot {cb : Callbacks} {name : String} {w₁ : World} (hpl : a.place = .slot P name)
    (halive : w.isAlive P = true)
    (hrun : setProperty cb P name .null { w with pins := .inst P :: w.pins } = (.ok (), w₁)) :
    detach cb i w = (.ok (), ({ w₁ with pins := w.pins } : World).settle) := by
  unfold detach
  refine inScope_of_ok ?_
  rw [bind_of_ok (get_apply w), ha]
  dsimp only
  rw [hpl]
  dsimp only
  rw [bind_of_ok (get_apply w), halive, if_neg (by exact Bool.false_ne_true), bind_of_ok (pin_apply _ w)]
  exact hrun

end Place

end Run

namespace World

variable {w w' : World} {i : InstanceId} {pl : Place}

/-- Taking hold of something hides nothing. -/
theorem TakenOut.of_pinned {ps : List Held} (h : TakenOut i pl { w with pins := ps } w') : TakenOut i pl w w' :=
  ⟨⟨h.shape.classes, h.shape.inst, h.shape.coll, h.shape.objects⟩, h.registry, h.alive, h.place, h.occupants, h.stored⟩

/-- An instance that a program holds can be taken out of its place. -/
theorem AtRest.detach (hw : w.AtRest) (cb : Callbacks) (hi : i ∈ w.handles) (hplace : w.placeOf? i = some pl) :
    ∃ w', Run.detach cb i w = (.ok (), w') ∧ TakenOut i pl w w' := by
  obtain ⟨a, ha, rfl⟩ := Option.map_eq_some_iff.1 hplace
  have hmem := (hw.orderly.linked.place_iff i a.place).1 hplace
  obtain ⟨P, m, hspot, hP⟩ := hw.orderly.linked.live_owner i a.place hmem
  have hhandled : ∀ j ∈ w.pins.filterMap Held.inst?, w.isAlive j = true := fun j hj =>
    hw.orderly.handled j (List.mem_append_left _ hj)
  cases hpl : a.place with
  | sequence k =>
    rw [hpl] at hmem hspot
    obtain ⟨x, hx, rfl, -⟩ := spot_sequence hspot
    have hpinned : ({ w with pins := .coll k :: w.pins } : World).AtRest := hw.hold fun j hj => by cases hj
    have hcoll : w.isAliveColl k = true := by
      unfold isAliveColl
      rw [hx]
      exact hw.orderly.collAlive k x hx hP
    obtain ⟨n, hn⟩ := Option.isSome_iff_exists.1 (List.isSome_idxOf?.2 hmem)
    obtain ⟨hlt, hget, -⟩ := List.idxOf?_eq_some_iff.1 hn
    have hget : (w.itemsOf k)[n]? = some i := List.getElem?_eq_some_iff.2 ⟨hlt, hget⟩
    obtain ⟨w₁, hrun, horderly, htaken⟩ := Run.splice_takenOut cb hpinned hx hget
    exact ⟨_, Run.detach_sequence ha hpl hcoll hn hrun,
      (htaken.of_pinned.letGo hw horderly (List.Subset.refl _) hi hhandled).2⟩
  | slot owner property =>
    rw [hpl] at hmem hspot
    obtain rfl := spot_slot hspot
    have hpinned : ({ w with pins := .inst P :: w.pins } : World).AtRest := hw.hold fun j hj => by cases hj; exact hP
    have hheld : i ∈ ({ w with pins := .inst P :: w.pins } : World).handles :=
      (respects_rehold hw.settled (List.subset_cons_self _ _)).handles hi
    obtain ⟨w₁, hrun, horderly, htaken⟩ := Run.setProperty_takenOut cb hpinned hheld hmem
    exact ⟨_, Run.detach_slot ha hpl hP hrun,
      (htaken.of_pinned.letGo hw horderly (List.Subset.refl _) hi hhandled).2⟩

end World

end ReactiveView
