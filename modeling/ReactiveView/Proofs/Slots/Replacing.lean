import ReactiveView.Proofs.Ownership.Invariant
import ReactiveView.Proofs.Projection.RoundTrip
import ReactiveView.Proofs.Slots.Offering

/-!
# Replacing the child of a slot

A write of a slot exchanges its child and then lets go of what nothing holds any more. The exchange concerns the new
child and the one that gives way; of all others it changes nothing, save that an object that the value gives may have
been constructed, and has taken in free instances that it names (`World.Exchanged`). Letting go concerns those whom
only the child that has given way kept in use: they go out of use with it (`World.GoesOut`), and what stood in their
places and is held elsewhere is free, with its root out of the tree. Nothing else changes (`World.ChildReplaced`,
`World.Exchanged.replaces`).

Writing the child that the slot has already changes nothing at all, and a write that is refused leaves it in place
(`World.replaces_of_acts`).
-/

set_option autoImplicit false

namespace ReactiveView

open Relation

namespace World

variable {w w' w₀ w₁ w₂ : World} {P Q i j k : InstanceId} {name : String} {child : Option InstanceId} {v : Value}
  {pl : Place} {m : NodeId}

/-! ## What was there -/

theorem Extends.ownerOf? (h : w.Extends w') (hQ : w.ownerOf? pl = some Q) : w'.ownerOf? pl = some Q := by
  cases pl with
  | slot P name => exact hQ
  | sequence c =>
    obtain ⟨x, hx, rfl⟩ := Option.map_eq_some_iff.1 hQ
    obtain ⟨y, hy, hshape⟩ := h.coll c x hx
    exact Option.map_eq_some_iff.2 ⟨y, hy, congrArg (·.2.2) hshape⟩

theorem Retains.stored? (h : w.Retains w') (hQ : w.Knows Q) (q : String) : w'.stored? Q q = w.stored? Q q := by
  obtain ⟨x, hx⟩ := hQ.exists_inst
  obtain ⟨a, ha⟩ := h.inst Q x hx
  unfold World.stored? class?
  rw [hx, ha, h.classes]
  rfl

/-- A slot with a marker is a property of the class, and holds null or an instance. -/
theorem Orderly.slot_of_spot (hw : w.Orderly) (hspot : w.layout.spot (.slot P name) = some (P, m)) :
    w.stored? P name = some .null ∨ ∃ j, w.stored? P name = some (.inst j) := by
  obtain ⟨m', hmarker, -⟩ :=
    Option.map_eq_some_iff.1 (show (w.slotMarker? P name).map (fun m => (P, m)) = _ from hspot)
  obtain ⟨x, hx, hclass⟩ := Option.bind_eq_some_iff.1 hmarker
  obtain ⟨c, hc, hindex⟩ := Option.bind_eq_some_iff.1 hclass
  obtain ⟨n, hn, hviews⟩ := Option.bind_eq_some_iff.1 hindex
  obtain ⟨view, hview, hm⟩ := Option.bind_eq_some_iff.1 hviews
  obtain ⟨view', hf⟩ := hw.toBuilt.formed hx hc
  obtain rfl := Option.some.inj (hview.symm.trans hf.view)
  obtain ⟨p, hp, rfl⟩ := Descriptor.propertyIndex?_some hn
  obtain ⟨site, val, hsite, hval, hfits⟩ := hf.exists_site hp
  rw [stored?_of_getElem? hx hc (hw.compiled.valid hc) hp, hval]
  rw [hsite] at hm
  -- the marker belongs to a site that only a slot has
  generalize p.kind = kind at hfits
  cases hfits with
  | primitive => cases hm
  | empty => exact Or.inl rfl
  | child => exact Or.inr ⟨_, rfl⟩
  | sequence => cases hm

theorem Orderly.stored?_of_spot (hw : w.Orderly) (hP : w.isAlive P = true)
    (hspot : w.layout.spot (.slot P name) = some (P, m)) (hocc : w.occupants (.slot P name) = child.toList) :
    w.stored? P name = some ((child.map Value.inst).getD .null) := by
  have hlist : ((w.stored? P name).bind Value.inst?).toList = child.toList := (if_pos hP).symm.trans hocc
  rcases hw.slot_of_spot hspot with hstored | ⟨j, hstored⟩
  · rw [hstored] at hlist ⊢
    cases child with
    | none => rfl
    | some i => cases hlist
  · rw [hstored] at hlist ⊢
    cases child with
    | none => cases hlist
    | some i =>
      obtain ⟨rfl, -⟩ := List.cons.inj hlist
      rfl

/-! ## The exchange -/

/-- The child of a slot is displaced when the slot gets another one or none. -/
def Displaced (w : World) (P : InstanceId) (name : String) (child : Option InstanceId) (i : InstanceId) : Prop :=
  w.stored? P name = some (.inst i) ∧ child ≠ some i

/-- The slot has exchanged its child, and nothing has been let go yet. -/
structure Exchanged (w : World) (P : InstanceId) (name : String) (v : Value) (child : Option InstanceId)
    (w' : World) : Prop extends Extends w w' where
  orderly : w'.Orderly
  handles : w'.handles = w.handles
  alive : ∀ k, w.Knows k → w'.isAlive k = w.isAlive k
  occupants : w'.occupants (.slot P name) = child.toList
  stored : ∀ Q q, w.Knows Q → Place.slot Q q ≠ .slot P name → w'.stored? Q q = w.stored? Q q
  items : ∀ c x, w.coll? c = some x → w'.itemsOf c = x.items
  stays : ∀ k pl, w.placeOf? k = some pl → ¬ w.Displaced P name child k → w'.placeOf? k = some pl
  record : ∀ j x, w.inst? j = some x → child ≠ some j → ¬ w.Displaced P name child j →
    w'.attachment? j = w.attachment? j ∨ w.TakenIn v j w'
  freed : ∀ i, w.Displaced P name child i → w'.placeOf? i = none ∧
    ∀ r, w.rootOf? i = some r → w'.forest.parent? r = none

/-- What is offered to a slot is put into it. -/
theorem Offers.exchanged (h : w.Offers v w₁) (hw : w.Orderly) (hP : w.isAlive P = true)
    (hr : w₁.Refills (.slot P name) P m child.toList w₂)
    (hothers : ∀ k, child ≠ some k →
      (w.stored? P name ≠ some (.inst k) → w₂.attachment? k = w₁.attachment? k) ∧
        ∀ r, w.stored? P name = some (.inst k) → w.rootOf? k = some r → w₂.forest.parent? r = none) :
    w.Exchanged P name v child { w₂ with pins := w.pins } := by
  have hext : w.Extends w₂ := h.respects.toExtends.trans (.of_sameShape hr.edits.shape)
  have hknows := knows_of_isAlive hP
  have halive (k : InstanceId) (hk : w.Knows k) : w₂.isAlive k = w.isAlive k :=
    (hr.edits.alive k).trans (h.toRetains.isAlive hk)
  have hocc (pl : Place) (hpl : pl ≠ .slot P name) : w₂.occupants pl = w₁.occupants pl := by
    rw [hr.occupants, Function.update_of_ne hpl]
  have hslot : w₂.occupants (.slot P name) = child.toList := by
    rw [hr.occupants, Function.update_self]
  have hcurrent (k : InstanceId) : k ∈ w₁.occupants (.slot P name) ↔ w.stored? P name = some (.inst k) := by
    rw [mem_occupants_slot, h.toRetains.isAlive hknows, h.toRetains.stored? hknows]
    exact ⟨And.right, fun hstored => ⟨hP, hstored⟩⟩
  have hrespects := h.respects.trans (hr.edits.respects w₁.anchored_empty id)
  obtain ⟨horderly, -⟩ : ({ w₂ with pins := [] ++ w.pins } : World).Orderly ∧ _ :=
    orderly_letGo hr.orderly hrespects fun _ hi => nomatch hi
  refine ⟨⟨hext.classes, hext.inst, hext.coll⟩, horderly, ?_, halive, hslot, fun Q q hQ hne => ?_, fun c x hx => ?_,
    fun k pl hplace hway => ?_, fun j x hx hj hway => ?_, fun i hway => ⟨?_, ?_⟩⟩
  · have hregistry : w₂.registry = w.registry := hrespects.registry
    unfold World.handles
    rw [hregistry]
  · exact (hr.stored Q q hne).trans (h.toRetains.stored? hQ q)
  · have hitems : w₂.itemsOf c = w₁.itemsOf c := hocc (.sequence c) nofun
    exact hitems.trans (itemsOf_of_coll? (h.toRetains.coll c x hx))
  · -- who had a place has not been taken in, and only an occupant of this slot can have lost it
    obtain ⟨x, hx⟩ := exists_inst?_of_isAlive (hw.linked.live_item k pl ((hw.linked.place_iff k pl).1 hplace))
    have hsame : w₁.attachment? k = w.attachment? k := by
      refine (h.named k x hx).resolve_right fun htaken => ?_
      rw [placeOf?_eq_none_iff_attachment?.2 htaken.1] at hplace
      cases hplace
    have hmem : k ∈ w₁.occupants pl :=
      (h.orderly.linked.place_iff k pl).1 ((congrArg (Option.map Attachment.place) hsame).trans hplace)
    refine (hr.orderly.linked.place_iff k pl).2 ?_
    by_cases hpl : pl = .slot P name
    · subst hpl
      rw [hslot]
      by_contra hout
      exact hway ⟨(hcurrent k).1 hmem, fun hchild => hout (Option.mem_toList.2 hchild)⟩
    · rw [hocc pl hpl]
      exact hmem
  · have hsame : w₂.attachment? j = w₁.attachment? j := (hothers j hj).1 fun hstored => hway ⟨hstored, hj⟩
    rcases h.named j x hx with hold | ⟨hfree, hnamed, a, ha, hnew⟩
    · exact Or.inl (hsame.trans hold)
    · exact Or.inr ⟨hfree, hnamed, a, hsame.trans ha, hnew⟩
  · refine (Run.placeOf?_eq_none_iff hr.orderly.linked).2 fun pl hmem => ?_
    by_cases hpl : pl = .slot P name
    · subst hpl
      rw [hslot] at hmem
      exact hway.2 (Option.mem_toList.1 hmem)
    · -- it stood in the slot, so it stands in no other place
      rw [hocc pl hpl] at hmem
      have hthere := (h.orderly.linked.place_iff i _).2 ((hcurrent i).2 hway.1)
      rw [(h.orderly.linked.place_iff i pl).2 hmem] at hthere
      exact hpl (Option.some.inj hthere)
  · exact fun r hroot => (hothers i hway.2).2 r hway.1 hroot

/-! ## Who goes out of use -/

/-- When the child is displaced and no handle holds it, it goes out of use; and so does everyone else whom only
somebody holds who goes out of use. -/
inductive GoesOut (w : World) (P : InstanceId) (name : String) (child : Option InstanceId) : InstanceId → Prop where
  | child {i : InstanceId} : w.Displaced P name child i → i ∉ w.handles → GoesOut w P name child i
  | held {Q k : InstanceId} {pl : Place} : GoesOut w P name child Q → w.placeOf? k = some pl →
      w.ownerOf? pl = some Q → k ∉ w.handles → GoesOut w P name child k

/-- The root of the instance is the next sibling behind the marker of the slot. -/
def Behind (w : World) (P : InstanceId) (name : String) (i : InstanceId) : Prop :=
  ∃ m r, w.slotMarker? P name = some m ∧ w.rootOf? i = some r ∧ w.Row P m [r]

/-- The instance is free, and its root, which it had before, is out of the tree. -/
def Released (w : World) (i : InstanceId) (w' : World) : Prop :=
  w'.attachment? i = none ∧ ∀ r, w.rootOf? i = some r → w'.forest.parent? r = none

/-- The holder of the instance goes out of use. -/
def LosesHolder (w : World) (P : InstanceId) (name : String) (child : Option InstanceId) (k : InstanceId) : Prop :=
  ∃ pl Q, w.placeOf? k = some pl ∧ w.ownerOf? pl = some Q ∧ w.GoesOut P name child Q

/-- The slot has got another child, or none, and what nothing holds any more has been let go. -/
structure ChildReplaced (w : World) (P : InstanceId) (name : String) (v : Value) (child : Option InstanceId)
    (w' : World) : Prop where
  stored : w'.stored? P name = some ((child.map Value.inst).getD .null)
  stands : ∀ i ∈ child, w'.isAlive i = true ∧ w'.placeOf? i = some (.slot P name) ∧ w'.Behind P name i
  freed : ∀ i, w.Displaced P name child i → w.Released i w'
  gone : ∀ k, w.isAlive k = true → (w'.isAlive k = false ↔ w.GoesOut P name child k)
  values : ∀ Q q, w.Knows Q → Place.slot Q q ≠ .slot P name → w'.stored? Q q = w.stored? Q q
  items : ∀ c x, w.coll? c = some x → ¬ w.GoesOut P name child x.owner → w'.itemsOf c = x.items
  emptied : ∀ c x, w.coll? c = some x → w.GoesOut P name child x.owner → w'.itemsOf c = []
  record : ∀ j x, w.inst? j = some x → child ≠ some j → ¬ w.Displaced P name child j →
    ¬ w.LosesHolder P name child j → w'.attachment? j = w.attachment? j ∨ w.TakenIn v j w'
  orphaned : ∀ j, w.LosesHolder P name child j → w.Released j w'

/-- Letting go leaves the record of an instance, or sets the instance free with its holder gone. -/
theorem Orderly.attachment?_settle (hw : w.Orderly) (j : InstanceId) : w.settle.attachment? j = w.attachment? j ∨
    w.settle.attachment? j = none ∧
      ∃ pl Q, w.placeOf? j = some pl ∧ w.ownerOf? pl = some Q ∧ w.settle.isAlive Q = false := by
  have hlets := hw.letsGo_settle
  cases hpl : w.placeOf? j with
  | none =>
    have hfree := placeOf?_eq_none_iff_attachment?.1 hpl
    exact Or.inl ((hlets.free j hfree).trans hfree.symm)
  | some pl =>
    obtain ⟨Q, m, hspot, -⟩ := hw.linked.live_owner j pl ((hw.linked.place_iff j pl).1 hpl)
    have howner := ownerOf?_of_spot hspot
    cases hQ : w.settle.isAlive Q with
    | true => exact Or.inl (hlets.held j pl Q hpl howner hQ)
    | false => exact Or.inr ⟨(hlets.freed j pl Q hpl howner hQ).1, pl, Q, rfl, howner, hQ⟩

namespace Exchanged

variable (h : w.Exchanged P name v child w₂)

include h

/-- Whoever goes out of use is let go. -/
theorem isAlive_settle_of_goesOut (hk : w.GoesOut P name child k) : w₂.settle.isAlive k = false := by
  have hlets := h.orderly.letsGo_settle
  -- nobody stays who has no handle and whose holders, if there are any, are gone
  have hgone (i : InstanceId) (hhandle : i ∉ w.handles) (hplace : ∀ pl Q, w₂.placeOf? i = some pl →
      w₂.ownerOf? pl = some Q → w₂.settle.isAlive Q = false) : w₂.settle.isAlive i = false := by
    refine Bool.eq_false_iff.2 fun hi => ?_
    obtain ⟨-, hheld | ⟨pl, Q, hpl, howner, hQ⟩⟩ := (hlets.alive_iff i).1 hi
    · rw [h.orderly.handles_settle, h.handles] at hheld
      exact hhandle hheld
    · rw [hplace pl Q hpl howner] at hQ
      cases hQ
  induction hk with
  | child hway hhandle =>
    refine hgone _ hhandle fun pl Q hpl => ?_
    rw [(h.freed _ hway).1] at hpl
    cases hpl
  | @held Q k pl hQ hpl howner hhandle ih =>
    refine hgone k hhandle fun pl' Q' hpl' howner' => ?_
    by_cases hway : w.Displaced P name child k
    · rw [(h.freed k hway).1] at hpl'
      cases hpl'
    · obtain rfl := Option.some.inj ((h.stays k pl hpl hway).symm.trans hpl')
      obtain rfl := Option.some.inj ((h.toExtends.ownerOf? howner).symm.trans howner')
      exact ih

/-- All others in use are held still: by a handle, or by somebody who stays. -/
theorem anchored (hw : w.AtRest) : w₂.Anchored fun k => w.isAlive k = true ∧ ¬ w.GoesOut P name child k := by
  rintro k ⟨halive, hout⟩
  refine ⟨(h.alive k (knows_of_isAlive halive)).trans halive, ?_⟩
  rw [h.handles]
  by_cases hhandle : k ∈ w.handles
  · exact Or.inl hhandle
  · obtain ⟨-, hheld | ⟨pl, Q, m, hocc, hspot, hQ⟩⟩ := hw.settled k halive
    · exact absurd hheld hhandle
    · -- his holder stays, for otherwise he would go out of use with the holder
      have hpl := (hw.orderly.linked.place_iff k pl).2 hocc
      have hstays := h.stays k pl hpl fun hway => hout (.child hway hhandle)
      refine Or.inr ⟨pl, Q, m, (h.orderly.linked.place_iff k pl).1 hstays, h.toExtends.spot hspot, hQ, fun hgone => ?_⟩
      exact hout (.held hgone hpl (ownerOf?_of_spot hspot) hhandle)

theorem isAlive_settle (hw : w.AtRest) (hk : w.isAlive k = true) :
    w₂.settle.isAlive k = false ↔ w.GoesOut P name child k := by
  refine ⟨fun hgone => ?_, h.isAlive_settle_of_goesOut⟩
  by_contra hout
  rw [(h.orderly.settle.2.1 _ (h.anchored hw)).alive k ⟨hk, hout⟩] at hgone
  cases hgone

/-- Who is free with the root out of the tree stays so. -/
theorem released (hplace : w₂.placeOf? i = none) (hout : ∀ r, w.rootOf? i = some r → w₂.forest.parent? r = none) :
    w.Released i w₂.settle := by
  constructor
  · exact h.orderly.letsGo_settle.free i (placeOf?_eq_none_iff_attachment?.1 hplace)
  · intro r hr
    apply Option.eq_none_iff_forall_ne_some.2
    intro p hp
    have hup : w₂.forest.parent? r = some p := (thins_settle w₂).up r p hp
    rw [hout r hr] at hup
    cases hup

/-- Whoever loses the holder is released. -/
theorem released_of_losesHolder (hi : w.LosesHolder P name child i) : w.Released i w₂.settle := by
  obtain ⟨pl, Q, hpl, howner, hQ⟩ := hi
  by_cases hway : w.Displaced P name child i
  · exact h.released (h.freed i hway).1 (h.freed i hway).2
  · have hstays := h.stays i pl hpl hway
    have hgone := h.isAlive_settle_of_goesOut hQ
    obtain ⟨hfree, hparted⟩ := h.orderly.letsGo_settle.freed i pl Q hstays (h.toExtends.ownerOf? howner) hgone
    exact ⟨hfree, fun r hr => hparted r (h.toExtends.root hr)⟩

/-- All others have the record that they had, or have been taken in. -/
theorem attachment?_settle (hw : w.AtRest) {x : Instance} (hx : w.inst? i = some x) (hi : child ≠ some i)
    (hway : ¬ w.Displaced P name child i) (hholder : ¬ w.LosesHolder P name child i) :
    w₂.settle.attachment? i = w.attachment? i ∨ w.TakenIn v i w₂.settle := by
  rcases h.orderly.attachment?_settle i with hsame | ⟨hnone, pl, Q, hpl, howner, hQ⟩
  · rcases h.record i x hx hi hway with hold | ⟨hfree, hnamed, a, ha, hnew⟩
    · exact Or.inl (hsame.trans hold)
    · exact Or.inr ⟨hfree, hnamed, a, hsame.trans ha, hnew⟩
  · rcases h.record i x hx hi hway with hold | ⟨hfree, -⟩
    · -- he stood there before, so he has lost his holder
      have hthere : w.placeOf? i = some pl := (congrArg (Option.map Attachment.place) hold).symm.trans hpl
      have hmem := (hw.orderly.linked.place_iff i pl).1 hthere
      obtain ⟨Q', m', hspot, halive⟩ := hw.orderly.linked.live_owner i pl hmem
      have howner' := ownerOf?_of_spot hspot
      obtain rfl := Option.some.inj ((h.toExtends.ownerOf? howner').symm.trans howner)
      exact absurd ⟨pl, Q', hthere, howner', (h.isAlive_settle hw halive).1 hQ⟩ hholder
    · exact Or.inl (hnone.trans hfree.symm)

/-- A collection keeps its items unless its owner goes out of use. -/
theorem itemsOf_settle (hw : w.AtRest) {d : CollectionId} {x : Collection} (hx : w.coll? d = some x)
    (hout : ¬ w.GoesOut P name child x.owner) : w₂.settle.itemsOf d = x.items := by
  obtain ⟨y, hy, hshape⟩ := h.coll d x hx
  have howner : y.owner = x.owner := congrArg (·.2.2) hshape
  have hitems : y.items = x.items := (itemsOf_of_coll? hy).symm.trans (h.items d x hx)
  rw [h.orderly.letsGo_settle.items d y hy, howner, hitems]
  split
  · rfl
  · next hdead =>
    -- if the owner was not in use before either, then there were no items
    have hbefore : w.isAlive x.owner ≠ true := by
      intro halive
      exact hout ((h.isAlive_settle hw halive).1 (Bool.eq_false_iff.2 hdead))
    have hempty : w.occupants (.sequence d) = [] := by
      apply hw.orderly.occupants_eq_nil
      intro Q m' hspot halive
      rw [spot_of_coll? hx] at hspot
      obtain ⟨rfl, -⟩ := Prod.mk.inj (Option.some.inj hspot)
      exact hbefore halive
    exact hempty.symm.trans (itemsOf_of_coll? hx)

theorem itemsOf_settle_of_goesOut {d : CollectionId} {x : Collection} (hx : w.coll? d = some x)
    (hout : w.GoesOut P name child x.owner) : w₂.settle.itemsOf d = [] := by
  obtain ⟨y, hy, hshape⟩ := h.coll d x hx
  have howner : y.owner = x.owner := congrArg (·.2.2) hshape
  rw [h.orderly.letsGo_settle.items d y hy, howner, h.isAlive_settle_of_goesOut hout]
  rfl

/-- The child is exchanged, and then what nothing holds any more is let go. -/
theorem replaces (hw : w.AtRest) (hspot : w.layout.spot (.slot P name) = some (P, m))
    (hP' : w₂.settle.isAlive P = true) : w.ChildReplaced P name v child w₂.settle := by
  have hw' := h.orderly.settle.1
  have hspot₂ := h.toExtends.spot hspot
  have hslot : w₂.settle.occupants (.slot P name) = child.toList :=
    (h.orderly.respects_settle.occ (.slot P name) P m hP' hspot₂).trans h.occupants
  have hspot' : w₂.settle.layout.spot (.slot P name) = some (P, m) := by
    rw [(wanes_settle w₂).shape.layout]
    exact hspot₂
  refine { stored := hw'.stored?_of_spot hP' hspot' hslot, stands := ?_, freed := ?_, gone := ?_, values := ?_,
           items := ?_, emptied := ?_, record := ?_, orphaned := ?_ }
  · intro i hi
    have hmem : i ∈ w₂.settle.occupants (.slot P name) := by
      rw [hslot]
      exact Option.mem_toList.2 hi
    have hbehind := hw'.wellPlaced.slotRow P name i (mem_occupants.1 hmem)
    exact ⟨hw'.linked.live_item i _ hmem, (hw'.linked.place_iff i _).2 hmem, hbehind⟩
  · intro i hway
    exact h.released (h.freed i hway).1 (h.freed i hway).2
  · intro k hk
    exact h.isAlive_settle hw hk
  · intro Q q hQ hne
    obtain ⟨x, hx⟩ := hQ.exists_inst
    obtain ⟨y, hy, -⟩ := h.inst Q x hx
    have hintact : w₂.Intact (fun _ => False) w₂.settle := h.orderly.intact_settle
    exact (hintact.stored Q y q hy id).trans (h.stored Q q hQ hne)
  · intro d x hx hout
    exact h.itemsOf_settle hw hx hout
  · intro d x hx hout
    exact h.itemsOf_settle_of_goesOut hx hout
  · intro i x hx hi hway hholder
    exact h.attachment?_settle hw hx hi hway hholder
  · intro i hholder
    exact h.released_of_losesHolder hholder

end Exchanged

end World

namespace Run

open World

variable {w w' w₁ : World} {T i : InstanceId} {y : Instance} {c : Class} {n : Nat} {p : PropertyDescriptor}
  {element : ElementType} {v : Value} {child : Option InstanceId} {depth : Nat}

/-! ## Writing a slot -/

theorem setSlot_of_slotChild {cb : Callbacks} {name : String} {w₂ : World}
    (hchild : slotChild cb element v w = (.ok child, w₁)) (hrun : replaceChild T n name child w₁ = (.ok (), w₂)) :
    setSlot cb T n name element v w = (.ok (), ({ w₂ with pins := w.pins } : World).settle) :=
  inScope_of_ok ((bind_of_ok hchild).trans hrun)

/-- The child that a slot has already is not replaced. -/
theorem replaceChild_current {name : String} (hy : w.inst? T = some y) (hval : y.values[n]? = some (.inst i)) :
    replaceChild T n name (some i) w = (.ok (), w) := by
  unfold replaceChild
  rw [bind_of_ok (theInstance_of hy), hval, bind_of_ok (ofOption_some _ _), if_pos]
  · rfl
  · rw [Bool.and_eq_true, beq_iff_eq]
    exact ⟨rfl, rfl⟩

section Slot

variable (hw : w.Quiet) (hy : w.inst? T = some y) (hc : w.class? y.classId = some c)
  (hp : c.descriptor.properties[n]? = some p) (hk : p.kind = .slot element)

include hw hy hc hp hk

/-- Writing the child that the slot has already only lets go of what nothing holds. -/
theorem setSlot_current {cb : Callbacks} (hstored : w.stored? T p.name = some (.inst i)) :
    setSlot cb T n p.name element (.inst i) w = (.ok (), w.settle) := by
  have hval : y.values[n]? = some (.inst i) :=
    (stored?_of_getElem? hy hc (hw.orderly.compiled.valid hc) hp).symm.trans hstored
  have hacc : w.accepts element i = true := by
    obtain ⟨c', hc', hfills⟩ := hw.sound.inst T y hy
    obtain rfl := Option.some.inj (hc.symm.trans hc')
    obtain ⟨val, hval', hsuits⟩ := getElem?_of_forall₂ hfills.values hp
    obtain rfl := Option.some.inj (hval.symm.trans hval')
    cases hsuits with
    | primitive hprim => rw [hk] at hprim; cases hprim
    | child hk' hacc =>
      obtain rfl := PropertyKind.slot.inj (hk.symm.trans hk')
      exact hacc
  refine setSlot_of_slotChild ?_ (replaceChild_current hy hval)
  change (some <$> coerce cb element (.inst i)) w = _
  rw [map_eq_pure_bind, bind_of_ok (coerce_inst hacc)]
  rfl

variable (hrest : w.Resting) (hT : w.isAlive T = true) (hv : v.instances ⊆ w.handles)

include hrest hT hv

/-- What is not refused is exchanged. -/
theorem exchanged_of_slotChild (hchild : slotChild (Callbacks.ofDepth depth) element v w = (.ok child, w₁))
    (hnot : ¬ SlotRefused (Callbacks.ofDepth depth) w T p.name element v) : ∃ m w₂,
      w.layout.spot (.slot T p.name) = some (T, m) ∧ replaceChild T n p.name child w₁ = (.ok (), w₂) ∧
        w.Exchanged T p.name v child { w₂ with pins := w.pins } := by
  have hoffers := offers_slotChild hw.toAtRest hrest hv hchild
  have hknows := knows_of_isAlive hT
  obtain ⟨-, m, w₂, hspot₁, hok, hr⟩ := (replaceChild_of_slotChild (Callbacks.mild_ofDepth depth) hw.toAtRest hT hy hc
    hp hk hv hchild).resolve_right fun hrefused => hnot hrefused.1
  obtain ⟨view, m', sink, val, -, -, hval, -, hspot⟩ := slot_spec hw.orderly hy hc hp hk hT
  obtain rfl : m' = m := congrArg Prod.snd (Option.some.inj ((hoffers.respects.toExtends.spot hspot).symm.trans hspot₁))
  have hstored : w.stored? T p.name = some val :=
    (stored?_of_getElem? hy hc (hw.orderly.compiled.valid hc) hp).trans hval
  -- making the child may have attached the instance, but has left its values
  obtain ⟨a, hy₁⟩ := hoffers.toRetains.inst T y hy
  refine ⟨m', w₂, hspot, hok, hoffers.exchanged hw.orderly hT hr fun k hk' => ?_⟩
  obtain ⟨hsame, hparted⟩ := replaceChild_others hy₁ hval hok hk'
  refine ⟨fun hother => hsame fun hinst => hother ?_, fun r hcurrent hroot => ?_⟩
  · rw [hstored]
    cases val with
    | inst j => exact congrArg some (congrArg Value.inst (Option.some.inj hinst))
    | _ => cases hinst
  · have hmem : k ∈ w₁.occupants (.slot T p.name) := by
      rw [mem_occupants_slot, hoffers.toRetains.isAlive hknows, hoffers.toRetains.stored? hknows]
      exact ⟨hT, hcurrent⟩
    obtain rfl := Option.some.inj (hstored.symm.trans hcurrent)
    refine hparted r rfl ?_ (hoffers.respects.toExtends.root hroot)
    rw [(hoffers.orderly.linked.place_iff k _).2 hmem]
    exact nofun

/-- A write that is not refused replaces the child. -/
theorem replaces_of_setSlot (hrun : setSlot (Callbacks.ofDepth depth) T n p.name element v w = (.ok (), w')) :
    ∃ child, StandsFor (Callbacks.ofDepth depth) element w v child ∧
      (w'.isAlive T = true → w.ChildReplaced T p.name v child w') := by
  have hcb := Callbacks.mild_ofDepth depth
  have hnot : ¬ SlotRefused (Callbacks.ofDepth depth) w T p.name element v := by
    rw [← setSlot_eq_error_iff hcb hw.toAtRest hT hy hc hp hk hv]
    rintro ⟨e, w'', herror⟩
    rw [hrun] at herror
    cases herror
  rcases hchild : slotChild (Callbacks.ofDepth depth) element v w with ⟨e | child, w₁⟩
  · obtain ⟨hnull, hcoerce⟩ := slotChild_eq_error_iff.1 ⟨e, w₁, hchild⟩
    exact absurd (.uncoerced hnull hcoerce) hnot
  · obtain ⟨m, w₂, hspot, hok, hexchanged⟩ := exchanged_of_slotChild hw hy hc hp hk hrest hT hv hchild hnot
    obtain ⟨-, rfl⟩ := Prod.mk.inj (hrun.symm.trans (setSlot_of_slotChild hchild hok))
    exact ⟨child, standsFor_of_slotChild hcb hw.orderly hv hchild, hexchanged.replaces hw.toAtRest hspot⟩

end Slot

end Run

namespace World

variable {w w' w₀ : World} {P : InstanceId} {y : Instance} {c : Class} {n : Nat} {p : PropertyDescriptor}
  {element : ElementType} {v : Value} {depth : Nat} {r : Except Halt Unit}

open Run

theorem Untouched.stored? (h : w.Untouched w') (hext : w.Extends w') (hP : w.Knows P) (q : String) :
    w'.stored? P q = w.stored? P q := by
  obtain ⟨x, hx⟩ := hP.exists_inst
  unfold World.stored? class?
  rw [hx, h.inst P x hx, hext.classes]

/-- What writing a slot does in a world that a program has left behind. It fails only for the reasons that are given.
If it succeeds then the child that the value stands for has replaced the one that was there, and what nothing holds
any more has been let go; if this is the same child then nothing changes. If it fails then nothing changes either, and
the child that was there stands behind the marker. -/
theorem replaces_of_acts (h : w₀.Idle) (hrest : w₀.Resting) (hacts : ReflTransGen Acts w₀ w)
    (hP : w.isAlive P = true) (hy : w.inst? P = some y) (hc : w.class? y.classId = some c)
    (hp : c.descriptor.properties[n]? = some p) (hk : p.kind = .slot element) (hv : v.instances ⊆ w.handles)
    (hrun : setProperty (Callbacks.ofDepth depth) P p.name v w = (r, w')) :
    ((∃ e, r = .error e) ↔ SlotRefused (Callbacks.ofDepth depth) w P p.name element v) ∧
      (r = .ok () → ∃ child, StandsFor (Callbacks.ofDepth depth) element w v child ∧
        w.ChildReplaced P p.name v child w') ∧
      (∀ i, v = .inst i → w.stored? P p.name = some (.inst i) →
        r = .ok () ∧ w.AsBefore w' ∧ (w₀.settle = w₀ → w' = w)) ∧
      ∀ e, r = .error e → w.Untouched w' ∧ (∀ Q q, w.Knows Q → w'.stored? Q q = w.stored? Q q) ∧
        ∀ i, w.stored? P p.name = some (.inst i) → w'.Behind P p.name i := by
  have hw := h.quiet_of_acts hacts
  have hresting := h.resting_of_acts hrest hacts
  have hcb := Callbacks.gentle_ofDepth depth
  obtain ⟨hquiet, hP'⟩ := hw.setProperty hcb hP p.name hv
  rw [hrun] at hquiet hP'
  have hset : setSlot (Callbacks.ofDepth depth) P n p.name element v w = (r, w') := by
    rw [← hrun, setProperty_apply _ hw.orderly hy hc hp v, hk]
  refine ⟨?_, ?_, ?_, ?_⟩
  · rw [← setSlot_eq_error_iff hcb.mild hw.toAtRest hP hy hc hp hk hv, hset]
    constructor
    · rintro ⟨e, rfl⟩
      exact ⟨e, w', rfl⟩
    · rintro ⟨e, w'', heq⟩
      exact ⟨e, congrArg Prod.fst heq⟩
  · rintro rfl
    obtain ⟨child, hstands, hreplaces⟩ := replaces_of_setSlot hw hy hc hp hk hresting hP hv hset
    exact ⟨child, hstands, hreplaces hP'⟩
  · -- nothing is written, and there is nothing to let go of
    rintro i rfl hstored
    obtain ⟨rfl, rfl⟩ := Prod.mk.inj (hset.symm.trans (setSlot_current hw hy hc hp hk hstored))
    exact ⟨rfl, hw.orderly.asBefore_settle hw.settled, fun hstill => h.still_of_acts hstill hacts⟩
  · -- all records are as they were, so the child still occurs in the slot
    rintro e rfl
    have huntouched := hw.toAtRest.untouched_of_refused hresting hP hv hrun
    obtain ⟨d, hready⟩ := hw.toAtRest.ready hP
    have hclosing := @closing_setProperty P d w.handles w _ hcb.mild v p.name hv
    have hext := hclosing.tends.extends hready
    rw [hrun] at hext
    refine ⟨huntouched, fun Q q hQ => huntouched.stored? hext hQ q, fun i hstored => ?_⟩
    exact hquiet.orderly.wellPlaced.slotRow P p.name i
      ⟨hP', (huntouched.stored? hext (knows_of_isAlive hP) p.name).trans hstored⟩

/-! ## A small world -/

/-- A world that has classes, a queue for what they write, and nothing else. -/
def ofShelf (s : Class.Shelf) : World := { screen := (({} : Screen).addQueue 16).2, classes := s.classes }

theorem idle_ofShelf {s : Class.Shelf} (hs : Compiled s.classes) (hplain : PlainClasses s.classes) :
    (ofShelf s).Idle where
  toFresh := ⟨hs, rfl, rfl⟩
  plain := hplain
  tidy := Forest.tidy_empty
  unheld := rfl
  noObjects n ns hns := by cases hns

/-- There is nothing to let go of. -/
theorem still_ofShelf (s : Class.Shelf) : (ofShelf s).settle = ofShelf s :=
  settle_eq_iff.2 ⟨rfl, rfl, rfl, rfl⟩

theorem Acts.construct {id : ClassId} {init : Option Value} (hinit : ∀ v ∈ init, v.instances ⊆ w.handles) :
    w.Acts (constructInstance (Callbacks.ofDepth depth) id init w).2 := by
  rw [← discard_apply]
  exact @Acts.does _ depth (.construct id init) (.construct hinit)

end World

/-- The template of a crate, which holds an instance of any class. -/
def crateTemplate : Markup :=
  .element (.html "template") [⟨.plain "ooml-class", "Crate"⟩] false
    [.element (.html "p") [] false [.text "\x7b Element this.inner \x7d"]]

/-- The template of a stand, which holds a crate. -/
def standTemplate : Markup :=
  .element (.html "template") [⟨.plain "ooml-class", "Stand"⟩] false
    [.element (.html "section") [] false [.text "\x7b Crate this.crate \x7d"]]

/-- The two templates, compiled one after the other. -/
def crateShelf : Except Error Class.Shelf := do
  let (_, s) ← Class.Shelf.add {} true [] crateTemplate
  let (_, s) ← s.add true [] standTemplate
  return s

theorem compiled_crateShelf : Compiled (crateShelf.toOption.getD {}).classes := by
  unfold crateShelf
  simp only [bind, Except.bind, pure, Except.pure]
  split
  · exact .empty
  · next crate hcrate =>
    split
    · exact .empty
    · next stand hstand =>
      exact Class.Shelf.compiled_add (Class.Shelf.compiled_add .empty hcrate) hstand

/-- A world that knows the two classes. -/
def crateWorld : World := .ofShelf (crateShelf.toOption.getD {})

/-- An object that makes a crate with something in it. -/
def crateWith (i : InstanceId) : Value := .object [("inner", .inst i)]

/-- A program makes two crates, and a stand with a third crate, into which it puts the second one. -/
def laden : World :=
  let w := (Run.constructInstance (Callbacks.ofDepth 2) ⟨0⟩ none crateWorld).2
  let w := (Run.constructInstance (Callbacks.ofDepth 2) ⟨0⟩ none w).2
  (Run.constructInstance (Callbacks.ofDepth 2) ⟨1⟩ (some (.object [("crate", crateWith ⟨1⟩)])) w).2

/-- Then it gives the stand an object that names the first one. -/
def reladen : Except Halt Unit × World :=
  Run.setProperty (Callbacks.ofDepth 2) ⟨2⟩ "crate" (crateWith ⟨0⟩) laden

namespace World

theorem idle_crateWorld : crateWorld.Idle :=
  idle_ofShelf compiled_crateShelf (plainClasses_of_all (by decide +kernel))

theorem acts_laden : ReflTransGen Acts crateWorld laden := by
  have hmake : ReflTransGen Acts crateWorld _ := .single (@Acts.construct crateWorld 2 ⟨0⟩ none nofun)
  refine (hmake.tail (@Acts.construct _ 2 ⟨0⟩ none nofun)).tail (.construct fun v hv => ?_)
  obtain rfl := Option.some.inj hv
  decide +kernel

theorem reladen_eq_ok : reladen = (.ok (), reladen.2) := by
  have hok : reladen.1.toOption = some () := by decide +kernel
  refine Prod.ext ?_ rfl
  cases hr : reladen.1 with
  | error e =>
    rw [hr] at hok
    cases hok
  | ok u => rfl

/-- The fourth crate has replaced the third one, which goes out of use. Putting the second crate into the third one
once more changes nothing. -/
theorem replaces_of_acts_crate : laden.ChildReplaced ⟨2⟩ "crate" (crateWith ⟨0⟩) (some ⟨4⟩) reladen.2 ∧
    laden.isAlive ⟨3⟩ = true ∧ reladen.2.isAlive ⟨3⟩ = false ∧
    Run.setProperty (Callbacks.ofDepth 2) ⟨3⟩ "inner" (.inst ⟨1⟩) laden = (.ok (), laden) := by
  have hw := idle_crateWorld.atRest_of_acts acts_laden
  have hrest := idle_crateWorld.resting rfl rfl
  refine ⟨?_, by decide +kernel, by decide +kernel, ?_⟩
  · have hthere : laden.placeOf? ⟨3⟩ = some (.slot ⟨2⟩ "crate") := by decide +kernel
    obtain ⟨y, c, n, p, element, hy, hc, -, hp, hname, hk, -⟩ :=
      hw.orderly.slot_of_occupant ((hw.orderly.linked.place_iff _ _).1 hthere)
    have hP : laden.isAlive ⟨2⟩ = true := by decide +kernel
    have hv : (crateWith ⟨0⟩).instances ⊆ laden.handles := by decide +kernel
    have hrun : Run.setProperty (Callbacks.ofDepth 2) ⟨2⟩ p.name (crateWith ⟨0⟩) laden = (.ok (), reladen.2) := by
      rw [hname]
      exact reladen_eq_ok
    obtain ⟨-, hreplaces, -⟩ := replaces_of_acts idle_crateWorld hrest acts_laden hP hy hc hp hk hv hrun
    obtain ⟨child, -, hreplaces⟩ := hreplaces rfl
    rw [hname] at hreplaces
    have hchild : (reladen.2.stored? ⟨2⟩ "crate").bind Value.inst? = some ⟨4⟩ := by decide +kernel
    obtain rfl : child = some ⟨4⟩ := by
      rw [hreplaces.stored, Option.bind_some] at hchild
      cases child with
      | none => cases hchild
      | some j => exact hchild
    exact hreplaces
  · have hthere : laden.placeOf? ⟨1⟩ = some (.slot ⟨3⟩ "inner") := by decide +kernel
    have hmem := (hw.orderly.linked.place_iff _ _).1 hthere
    obtain ⟨y, c, n, p, element, hy, hc, -, hp, hname, hk, -⟩ := hw.orderly.slot_of_occupant hmem
    obtain ⟨hP, hstored⟩ := mem_occupants_slot.1 hmem
    rw [← hname] at hstored ⊢
    have hv : (Value.inst ⟨1⟩).instances ⊆ laden.handles := by decide +kernel
    obtain ⟨-, -, hcurrent, -⟩ := replaces_of_acts idle_crateWorld hrest acts_laden hP hy hc hp hk hv (Prod.ext rfl rfl)
    obtain ⟨hok, -, hsame⟩ := hcurrent ⟨1⟩ rfl hstored
    exact Prod.ext hok (hsame (still_ofShelf _))

/-- What stands in the crates moves as well: the first crate, which was free, stands in the new one, and the second
crate, which stood in the old one, is free. -/
theorem places_change_with_crate : ReflTransGen Acts crateWorld laden ∧ reladen = (.ok (), reladen.2) ∧
    (laden.stored? ⟨2⟩ "crate").bind Value.inst? = some ⟨3⟩ ∧
    (reladen.2.stored? ⟨2⟩ "crate").bind Value.inst? = some ⟨4⟩ ∧
    laden.placeOf? ⟨0⟩ = none ∧ reladen.2.placeOf? ⟨0⟩ = some (.slot ⟨4⟩ "inner") ∧
    laden.placeOf? ⟨1⟩ = some (.slot ⟨3⟩ "inner") ∧ reladen.2.placeOf? ⟨1⟩ = none :=
  ⟨acts_laden, reladen_eq_ok, by decide +kernel⟩

end World

end ReactiveView
