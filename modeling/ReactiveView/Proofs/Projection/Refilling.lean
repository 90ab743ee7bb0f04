import ReactiveView.Proofs.Projection.Arising
import ReactiveView.Proofs.Ownership.Detach

/-!
# Filling places with new instances

Data that is written to a slot or to an array property makes instances, which take the place of what was
there; then what nobody holds any more is let go. All three steps are described together: they hit the one
place that is written, its occupants are the new instances, and these show the data that they were made
from (`World.Spawns.refilled`). None of the steps can fail: a new instance stands nowhere, and its root stands
above no marker of an older instance (`Run.setProperty_slot_of_describes`,
`Run.setProperty_sequence_of_describes`).
-/

set_option autoImplicit false

namespace ReactiveView

open Relation (ReflTransGen)

namespace World

variable {w w' w'' : World} {i T : InstanceId} {pl : Place} {m : NodeId} {level : Nat} {is : List InstanceId}
  {js : List Json}

/-! ## Letting go at the end of a scope -/

/-- What is not held is let go, and the rest stays as it is. -/
structure Subsides (w w' : World) : Prop extends Aloof w w' where
  orderly : w'.Orderly
  intact : w.Intact (fun _ => False) w'
  back : ∀ P, w'.isAlive P = true → w.isAlive P = true

theorem Subsides.trans (h : w.Subsides w') (h' : w'.Subsides w'') : w.Subsides w'' where
  toAloof := h.toAloof.trans h'.toAloof
  orderly := h'.orderly
  intact := h.intact.trans h'.intact fun P _ hP => h'.back P hP
  back P hP := h.back P (h'.back P hP)

/-- The end of a scope. -/
theorem subsides_settle {ps : List Held} (h : ({ w with pins := ps } : World).Orderly) :
    w.Subsides ({ w with pins := ps } : World).settle where
  classes := h.aloof_settle.classes
  inst := h.aloof_settle.inst
  coll := h.aloof_settle.coll
  free := h.aloof_settle.free
  adopts := ⟨h.aloof_settle.adopts.size_le, h.aloof_settle.adopts.up⟩
  orderly := h.settle.1
  intact := by
    obtain ⟨hextends, hstored, hocc⟩ : World.Intact (fun _ => False) _ _ := h.intact_settle
    exact ⟨⟨hextends.classes, hextends.inst, hextends.coll⟩, hstored, hocc⟩
  back P hP := ((h.letsGo_settle.alive_iff P).1 hP).1

/-! ## A place with new occupants -/

/-- A place of an instance has got new occupants, which show certain data; all else stays as it is. -/
structure Refilled (T : InstanceId) (pl : Place) (level : Nat) (js : List Json) (w w' : World) : Prop
    extends Aloof w w' where
  orderly : w'.Orderly
  intact : w.Intact (· = pl) w'
  shows : List.Forall₂ (fun i j => T.index < i.index ∧ w'.Shows level i j) (w'.occupants pl) js

/-- New instances have been made, put into a place, and what is no longer held has been let go. -/
theorem Spawns.refilled {w₁ w₂ : World} (hs : w.Spawns w₁) (hr : w₁.Refills pl T m is w₂)
    (hbrings : w₁.Brings w.forest.size is w₂) (hsub : w₂.Subsides w')
    (hall : List.Forall₂ (w.Arises w₁ level) is js) (hspot : w.layout.spot pl = some (T, m))
    (hT : w.isAlive T = true) (hT' : w'.isAlive T = true) : w.Refilled T pl level js w' := by
  have hspot₁ := hs.toExtends.spot hspot
  have halive₂ (P : InstanceId) : w₂.isAlive P = w₁.isAlive P := hr.edits.alive P
  have hocc : w'.occupants pl = is := by
    rw [hsub.intact.occ pl T m ((Extends.of_sameShape hr.edits.shape).spot hspot₁) id
      ((halive₂ T).trans (hs.alive T hT)) hT', hr.occupants, Function.update_self]
  refine { toAloof := ?_, orderly := hsub.orderly, intact := ?_, shows := ?_ }
  · refine (hs.toAloof.refills hs.orderly hr hbrings (fun i hi => ?_) fun i hi r hroot => ?_).trans hsub.toAloof
    · obtain ⟨j, harises⟩ := exists_arises hall hi
      exact harises.new
    · obtain ⟨j, harises⟩ := exists_arises hall hi
      exact harises.root r hroot
  · refine ((hs.intact.mono fun _ hin => hin.elim).trans hr.intact fun P hP _ => hs.alive P hP).trans
      (hsub.intact.mono fun _ hin => hin.elim) fun P _ hP => hsub.back P hP
  · rw [hocc]
    refine List.forall₂_iff_get.2 ⟨hall.length_eq, fun n hn hn' => ?_⟩
    have harises := (List.forall₂_iff_get.1 hall).2 n hn hn'
    have hlt := lt_of_inst?_none harises.new hT
    have hmem : is.get ⟨n, hn⟩ ∈ w'.occupants pl := by
      rw [hocc]
      exact List.get_mem is ⟨n, hn⟩
    have hi' := Layout.Linked.live_item hsub.orderly.linked _ pl hmem
    have hi₂ := (halive₂ _).trans harises.alive
    refine ⟨hlt, (harises.shows.intact hr.intact hs.orderly hr.orderly ?_ harises.alive hi₂).intact hsub.intact
      hr.orderly hsub.orderly (fun _ hin => hin.elim) hi₂ hi'⟩
    rintro _ rfl
    exact ⟨T, ownerOf?_of_spot hspot₁, hlt⟩

/-- Writing a property leaves the world quiet and the instance in use. -/
theorem Quiet.setProperty {cb : Callbacks} (hcb : cb.Gentle) (hw : w.Quiet) (hT : w.isAlive T = true)
    (name : String) {v : Value} (hv : v.instances ⊆ w.handles) :
    (Run.setProperty cb T name v w).2.Quiet ∧ (Run.setProperty cb T name v w).2.isAlive T = true := by
  obtain ⟨c, hready⟩ := hw.toAtRest.ready hT
  have hclosing := @Run.closing_setProperty T c w.handles w cb hcb.mild v name hv
  have hsteps := Run.proceeds_setProperty (Callbacks.steady_iff.1 hcb.steady) T name v w hw.sound
  exact ⟨⟨hclosing.atRest hready hw.settled, hsteps.sound hw.sound⟩, (hclosing.tends.ready hready).safe.isAlive⟩

end World

/-- What the instances of a slot or of an array property show when the property shows some data. -/
def Json.parts : Json → List Json
  | .null => []
  | .array js => js
  | j => [j]

theorem Describes.parts {T : Table Class} {level : Nat} {id : ClassId} {j : Json} (h : Describes T level id j) :
    j.parts = [j] := by
  cases level with
  | zero => cases h
  | succ level =>
    obtain ⟨c, js, -, -, rfl⟩ := h
    rfl

namespace Run

variable {w : World} {T : InstanceId} {y : Instance} {c : Class} {n : Nat} {p : PropertyDescriptor}
  {element : ElementType}

theorem setProperty_apply (cb : Callbacks) (hw : w.Orderly) (hy : w.inst? T = some y)
    (hc : w.class? y.classId = some c) (hp : c.descriptor.properties[n]? = some p) (v : Value) :
    setProperty cb T p.name v w = (match p.kind with
      | .primitive types => setPrimitive cb T n p.name types v
      | .slot element => setSlot cb T n p.name element v
      | .sequence _ => setSequence cb T n v : Run Unit) w := by
  have hindex := (hw.compiled.valid hc).descriptor.propertyIndex?_name hp
  have hfind : propertyIndex T p.name w = (.ok n, w) := by
    unfold propertyIndex
    rw [bind_of_ok (theClassOf_of hy hc), hindex]
    rfl
  unfold setProperty
  rw [bind_of_ok hfind, bind_of_ok (theClassOf_of hy hc), hp]
  refine (bind_of_ok (ofOption_some _ _)).trans ?_
  cases p.kind with
  | primitive types => rfl
  | slot element => rfl
  | sequence element => rfl

variable {cb : Callbacks} {T' : Table Class} {level : Nat} {j : Json} {js : List Json}

section Slot

variable (hcb : cb.Gentle) (hw : w.Quiet) (hy : w.inst? T = some y) (hc : w.class? y.classId = some c)
  (hp : c.descriptor.properties[n]? = some p) (hk : p.kind = .slot element) (hT : w.isAlive T = true)

include hcb hw hy hc hp hk hT

/-- The write of a slot whose child has been made. -/
theorem setProperty_slot {w₁ w₂ : World} {v : Value} {child : Option InstanceId} {m : NodeId}
    (hv : v.instances ⊆ w.handles) (hs : w.Spawns w₁) (hchild : slotChild cb element v w = (.ok child, w₁))
    (hrun : replaceChild T n p.name child w₁ = (.ok (), w₂))
    (hspot₁ : w₁.layout.spot (.slot T p.name) = some (T, m))
    (hr : w₁.Refills (.slot T p.name) T m child.toList w₂)
    (hall : List.Forall₂ (w.Arises w₁ level) child.toList js) :
    ∃ w', setProperty cb T p.name v w = (.ok (), w') ∧ w.Refilled T (.slot T p.name) level js w' := by
  have hset : setProperty cb T p.name v w = (.ok (), ({ w₂ with pins := w.pins } : World).settle) := by
    rw [setProperty_apply cb hw.orderly hy hc hp v, hk]
    refine inScope_of_ok ?_
    rw [bind_of_ok hchild, hrun]
  obtain ⟨view, m', sink, val, -, -, -, -, hspot⟩ := slot_spec hw.orderly hy hc hp hk hT
  obtain rfl : m' = m := by
    have hsame := (hs.toExtends.spot hspot).symm.trans hspot₁
    exact congrArg Prod.snd (Option.some.inj hsame)
  obtain ⟨-, hT'⟩ := hw.setProperty hcb hT p.name hv
  have hbrings := brings_replaceChild (N := w.forest.size) T n p.name child w₁
  rw [hset] at hT'
  rw [hrun] at hbrings
  have hrespects := hs.respects.trans (hr.edits.respects w₁.anchored_empty id)
  obtain ⟨horderly, -⟩ : ({ w₂ with pins := [] ++ w.pins } : World).Orderly ∧ _ :=
    World.orderly_letGo hr.orderly hrespects fun _ hi => nomatch hi
  exact ⟨_, hset, hs.refilled hr hbrings (World.subsides_settle horderly) hall hspot hT hT'⟩

/-- Data that describes a child, or null, can be written to a slot. -/
theorem setProperty_slot_of_describes (hreal : cb.Realizes T' level) (hT' : w.classes = T')
    (hj : (PropertyKind.slot element).Takes (Describes T' level) j) :
    ∃ w', setProperty cb T p.name (.ofJson j) w = (.ok (), w') ∧
      w.Refilled T (.slot T p.name) level j.parts w' := by
  have hv : (Value.ofJson j).instances ⊆ w.handles := by
    rw [Value.instances_ofJson]
    exact List.nil_subset _
  cases hj with
  | none =>
    obtain ⟨m, w₂, hrun, hspot, hr⟩ := replaceChild_none hw.orderly hy hc hp hk hT
    exact setProperty_slot hcb hw hy hc hp hk hT hv (.rfl hw.orderly) rfl hrun hspot hr .nil
  | @child ref _ hj =>
    obtain ⟨i, w₁, hcoerce, hquiet, hs, harises, -⟩ := coerce_of_describes hcb hreal hw hT' hj
    have hchild : slotChild cb (.ofClass ref) (.ofJson j) w = (.ok (some i), w₁) := by
      cases level with
      | zero => cases hj
      | succ level =>
        obtain ⟨d, ds, -, -, rfl⟩ := hj
        change (some <$> coerce cb (.ofClass ref) (.ofJson (d.dataOf ds))) w = _
        rw [map_eq_pure_bind, bind_of_ok hcoerce, pure_apply]
    obtain ⟨y₁, hy₁, hshape⟩ := hs.inst T y hy
    have hc₁ : w₁.class? y₁.classId = some c := by
      rw [show y₁.classId = y.classId from congrArg Prod.fst hshape, hs.toExtends.class?]
      exact hc
    obtain ⟨view, m₀, sink, val, -, -, -, -, hspot₀⟩ := slot_spec hw.orderly hy hc hp hk hT
    obtain ⟨m, w₂, hrun, hspot, hr⟩ := replaceChild_some hquiet.orderly hy₁ hc₁ hp hk (hs.alive T hT)
      harises.alive harises.free fun m r hspot hr => by
        obtain rfl := congrArg Prod.snd (Option.some.inj ((hs.toExtends.spot hspot₀).symm.trans hspot))
        exact hs.toAloof.not_above hw.orderly hspot₀ (harises.root r hr)
    rw [hj.parts]
    exact setProperty_slot hcb hw hy hc hp hk hT hv hs hchild hrun hspot hr (.cons harises .nil)

end Slot

/-! ## Array properties -/

section Sequence

variable {k : CollectionId} {x : Collection} {is : List InstanceId}

/-- New instances can replace all items of a collection. -/
theorem spliceItems_spawned {w₁ : World} (hw : w.Orderly) (hx : w.coll? k = some x)
    (hT : w.isAlive x.owner = true) (hs : w.Spawns w₁) (hnodup : is.Nodup)
    (hall : List.Forall₂ (w.Arises w₁ level) is js) (haccepts : ∀ i ∈ is, w₁.accepts x.element i = true) :
    ∃ w₂, spliceItems k x 0 (w.itemsOf k).length is w₁ = (.ok (w.itemsOf k), w₂) ∧
      w₁.Refills (.sequence k) x.owner x.anchor is w₂ := by
  have hspot := World.spot_of_coll? hx
  obtain ⟨x₁, hx₁, hshape⟩ := hs.coll k x hx
  have howner : x₁.owner = x.owner := congrArg (·.2.2) hshape
  have hanchor : x₁.anchor = x.anchor := congrArg (·.2.1) hshape
  have helement : x₁.element = x.element := congrArg (·.1) hshape
  have hitems : w₁.itemsOf k = w.itemsOf k :=
    hs.intact.occ (.sequence k) x.owner x.anchor hspot id hT (hs.alive _ hT)
  have hok : Insertable w₁ x₁.anchor (((w₁.itemsOf k).drop 0).take (w.itemsOf k).length) [] is := by
    refine ⟨hnodup, fun i hi => ?_⟩
    obtain ⟨j, harises⟩ := World.exists_arises hall hi
    refine ⟨List.not_mem_nil, .inl harises.free, fun r hr => ?_⟩
    rw [hanchor]
    exact hs.toAloof.not_above hw hspot (harises.root r hr)
  obtain ⟨w₂, hrun, hr⟩ : ∃ w₂, spliceItems k x 0 (w.itemsOf k).length is w₁ = _ ∧ _ := spliceItems_ok hs.orderly
    hx₁ hshape.symm (by rw [howner]; exact hs.alive _ hT) (by rw [hitems, Nat.zero_add]) (fun i hi => by
      obtain ⟨j, harises⟩ := World.exists_arises hall hi
      exact ⟨harises.alive, helement ▸ haccepts i hi⟩) hok
  have hspliced : spliced (w.itemsOf k) 0 (w.itemsOf k).length is = is := by
    unfold spliced
    rw [List.take_zero, List.nil_append, Nat.zero_add, List.drop_length, List.append_nil]
  rw [hitems, List.drop_zero, List.take_length] at hrun
  rw [hitems, hspliced, howner, hanchor] at hr
  exact ⟨w₂, hrun, hr⟩

variable (hcb : cb.Gentle) (hw : w.Quiet)

include hcb hw

/-- Items of one declared class, or none at all. -/
theorem coerceAll_of_items (hreal : cb.Realizes T' level) (hT' : w.classes = T')
    (hjs : ∀ j ∈ js, ∃ ref, element = .ofClass ref ∧ Describes T' level ref.id j) : ∃ is w',
      coerceAll cb element (js.map .ofJson) w = (.ok is, w') ∧ w.Spawns w' ∧ is.Nodup ∧
        List.Forall₂ (w.Arises w' level) is js ∧ ∀ i ∈ is, w'.accepts element i = true := by
  cases js with
  | nil => exact ⟨[], w, rfl, .rfl hw.orderly, List.nodup_nil, .nil, fun _ hi => nomatch hi⟩
  | cons j rest =>
    obtain ⟨ref, rfl, -⟩ := hjs j List.mem_cons_self
    obtain ⟨is, w', hcoerce, -, hrest⟩ := coerceAll_of_describes hcb hreal hw hT' fun j' hj' => by
      obtain ⟨ref', helement, hdescribes⟩ := hjs j' hj'
      obtain rfl := ElementType.ofClass.inj helement
      exact hdescribes
    exact ⟨is, w', hcoerce, hrest⟩

variable (hy : w.inst? T = some y) (hc : w.class? y.classId = some c) (hp : c.descriptor.properties[n]? = some p)
  (hk : p.kind = .sequence element) (hT : w.isAlive T = true)

include hy hc hp hk hT

/-- Data that describes items can be written to an array property. -/
theorem setProperty_sequence_of_describes (hreal : cb.Realizes T' level) (hT' : w.classes = T')
    (hj : (PropertyKind.sequence element).Takes (Describes T' level) j) :
    ∃ k w', y.values[n]? = some (.coll k) ∧ setProperty cb T p.name (.ofJson j) w = (.ok (), w') ∧
      w.Refilled T (.sequence k) level j.parts w' := by
  cases hj with
  | @items _ js hjs =>
  obtain ⟨view, hf⟩ := hw.orderly.toBuilt.formed hy hc
  obtain ⟨k, x, hsite, hval, hx, rfl, rfl⟩ := hf.exists_sequence hp hk
  obtain ⟨is, w₁, hcoerce, hs, hnodup, hall, haccepts⟩ := coerceAll_of_items hcb hw hreal hT' hjs
  obtain ⟨w₂, hrun, hr⟩ := spliceItems_spawned hw.orderly hx hT hs hnodup hall haccepts
  have hbrings : w₁.Brings w.forest.size is (spliceItems k x 0 (w.itemsOf k).length is w₁).2 :=
    brings_spliceItems k x 0 (w.itemsOf k).length w₁
  rw [hrun] at hbrings
  have hrespects := hs.respects.trans (hr.edits.respects w₁.anchored_empty id)
  -- the end of the splice, which keeps the old items
  have hsplice : splice cb k 0 (w.itemsOf k).length (js.map .ofJson) w =
      (.ok (w.itemsOf k), ({ w₂ with pins := (w.itemsOf k).map Held.inst ++ w.pins } : World).settle) := by
    refine splice_of_ok ?_
    rw [spliceBody_apply hx, Nat.zero_min, Nat.sub_zero, Nat.min_self, bind_of_ok hcoerce, hrun]
  obtain ⟨horderly₂, hkeeps₂⟩ : ({ w₂ with pins := (w.itemsOf k).map Held.inst ++ w.pins } : World).Orderly ∧ _ :=
    World.orderly_letGo hr.orderly hrespects fun i hi => by
      rw [filterMap_inst?_map_inst] at hi
      rw [hr.edits.alive]
      exact hs.alive i (Layout.Linked.live_item hw.orderly.linked i (.sequence k) hi)
  have hrespects₃ := (hkeeps₂ _ hrespects).trans (horderly₂.settle.2.1 _ (World.anchored_empty _))
  -- the end of the write
  obtain ⟨horderly₃, -⟩ : (World.Orderly { (World.settle _) with pins := [] ++ w.pins }) ∧ _ :=
    World.orderly_letGo horderly₂.settle.1 hrespects₃ fun _ hi => nomatch hi
  have hset := setProperty_apply cb hw.orderly hy hc hp (.ofJson (.array js))
  rw [hk] at hset
  have hdone := hset.trans (inScope_of_ok (by
    rw [bind_of_ok (theView_of hy hf.view), hsite]
    change (replaceAll cb k (Value.ofJsonItems js) >>= fun _ => pure ()) w = _
    rw [Value.ofJsonItems_eq, bind_of_ok (show replaceAll cb k (js.map .ofJson) w = _ from hsplice), pure_apply]))
  obtain ⟨-, halive'⟩ := hw.setProperty hcb hT p.name (v := .ofJson (.array js)) (by
    rw [Value.instances_ofJson]
    exact List.nil_subset _)
  rw [hdone] at halive'
  exact ⟨k, _, hval, hdone, hs.refilled hr hbrings
    ((World.subsides_settle horderly₂).trans (World.subsides_settle horderly₃)) hall (World.spot_of_coll? hx) hT
    halive'⟩

end Sequence

end Run

end ReactiveView
