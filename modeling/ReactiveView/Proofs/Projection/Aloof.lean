import ReactiveView.Proofs.Ownership.Calls
import ReactiveView.Proofs.Ownership.LettingGo
import ReactiveView.Proofs.Ownership.Thin

/-!
# What is new stays apart

An instance that has just been constructed stands nowhere, and no node that was there before stands below
its root. The first is said of the records and the second of the nodes: operations on new instances put new
nodes only into the tree (`World.Adopts`), and an older instance that stands nowhere goes on to stand nowhere
(`World.Aloof`). So a new instance can be put into every place of an older one.
-/

set_option autoImplicit false

namespace ReactiveView

open Relation (ReflTransGen)

namespace Forest

variable {f : Forest} {n m p q a : NodeId}

/-- A node that is put somewhere is the only one with a new parent. -/
theorem up_of_insertAfter (h : (f.insertAfter a n).2.Up m q) (hne : m ≠ n) : f.Up m q := by
  unfold insertAfter at h
  split at h
  · exact h
  · dsimp only at h
    split at h
    · exact (up_of_unlink h).2
    · have hup : (f.unlink n).Up m q := (parent?_place_of_ne (f.unlink n) _ hne).symm.trans h
      exact (up_of_unlink hup).2

end Forest

namespace World

variable {w w' w'' : World} {N : Nat} {i : InstanceId} {is : List InstanceId}

/-! ## Nodes that are put somewhere -/

/-- No node below a number has got a parent that it did not have. -/
structure Adopts (N : Nat) (w w' : World) : Prop where
  size_le : w.forest.size ≤ w'.forest.size
  up : ∀ n p, n.index < N → w'.forest.Up n p → w.forest.Up n p

namespace Adopts

theorem rfl : w.Adopts N w := ⟨Nat.le_refl _, fun _ _ _ h => h⟩

theorem trans (h : w.Adopts N w') (h' : w'.Adopts N w'') : w.Adopts N w'' :=
  ⟨h.size_le.trans h'.size_le, fun n p hn hp => h.up n p hn (h'.up n p hn hp)⟩

theorem mono {M : Nat} (h : w.Adopts N w') (hle : M ≤ N) : w.Adopts M w' :=
  ⟨h.size_le, fun n p hn => h.up n p (Nat.lt_of_lt_of_le hn hle)⟩

/-- What stood above a node that was there before stood above it already. -/
theorem above (h : w.Adopts w.forest.size w') (ht : w.forest.Tidy) {m n : NodeId}
    (hm : m.index < w.forest.size) (hup : ReflTransGen w'.forest.Up m n) :
    n.index < w.forest.size ∧ ReflTransGen w.forest.Up m n := by
  induction hup with
  | refl => exact ⟨hm, .refl⟩
  | @tail b c _ hbc ih =>
    have hold := h.up b c ih.1 hbc
    have hparent : w.forest.parent? b = some c := hold
    rw [Forest.parent?_eq] at hparent
    exact ⟨ht.recorded_lt b c (Option.filter_eq_some_iff.1 hparent).1, ih.2.tail hold⟩

/-- A new node stands above no node that was there before. -/
theorem not_above (h : w.Adopts w.forest.size w') (ht : w.forest.Tidy) {m n : NodeId}
    (hm : m.index < w.forest.size) (hn : w.forest.size ≤ n.index) : ¬ ReflTransGen w'.forest.Up m n :=
  fun hup => Nat.not_lt.2 hn (h.above ht hm hup).1

end Adopts

/-- When the roots of some instances are new nodes, no other node gets a parent. -/
def Brings (N : Nat) (is : List InstanceId) (w w' : World) : Prop :=
  (∀ i ∈ is, ∀ r, w.rootOf? i = some r → N ≤ r.index) →
    (∀ i, w'.rootOf? i = w.rootOf? i) ∧ w.Adopts N w'

/-- A step that keeps the roots and the parents. -/
theorem brings_of_up (hroot : ∀ i, w'.rootOf? i = w.rootOf? i) (hsize : w'.forest.size = w.forest.size)
    (hup : ∀ n p, w'.forest.Up n p → w.forest.Up n p) : w.Brings N is w' :=
  fun _ => ⟨hroot, Nat.le_of_eq hsize.symm, fun n p _ => hup n p⟩

instance : IsPreorder World (Brings N is) where
  refl _ := brings_of_up (fun _ => .refl _) (.refl _) fun _ _ h => h
  trans _ _ _ h h' hnew := by
    obtain ⟨hroot, hadopts⟩ := h hnew
    obtain ⟨hroot', hadopts'⟩ := h' fun i hi r hr => hnew i hi r ((hroot i).symm.trans hr)
    exact ⟨fun i => (hroot' i).trans (hroot i), hadopts.trans hadopts'⟩

theorem rootOf?_modifyInstance (w : World) (i : InstanceId) {f : Instance → Instance}
    (hf : ∀ x, (f x).shape = x.shape) (j : InstanceId) : (w.modifyInstance i f).rootOf? j = w.rootOf? j :=
  (sameShape_modifyInstance w i hf).rootOf? j

instance : IsLettingGo (Brings N is) where
  unlink w n := brings_of_up (fun _ => .refl _) (w.forest.size_unlink n) fun _ _ h => (Forest.up_of_unlink h).2
  sweep w held := brings_of_up (fun _ => .refl _) (w.forest.size_sweep held _) fun _ _ => Forest.up_of_sweep
  free w i := brings_of_up (rootOf?_modifyInstance w i fun _ => .refl _) (.refl _) fun _ _ h => h
  retire w i := brings_of_up (rootOf?_modifyInstance w i fun _ => .refl _) (.refl _) fun _ _ h => h
  retireColl _ _ := brings_of_up (fun _ => .refl _) (.refl _) fun _ _ h => h
  retireSpace _ _ := brings_of_up (fun _ => .refl _) (.refl _) fun _ _ h => h
  clear _ _ := brings_of_up (fun _ => .refl _) (.refl _) fun _ _ h => h

end World

namespace Run

variable {w : World} {N : Nat} {i : InstanceId} {is : List InstanceId}

/-- The node that is put behind another one is the root of the instance. -/
theorem brings_attachAfter (hi : i ∈ is) (anchor : NodeId) (a : Attachment) :
    Keeps (World.Brings N is) (attachAfter i anchor a) := by
  refine .attachAfter (fun w r hr => ?_) fun w =>
    World.brings_of_up (World.rootOf?_modifyInstance w i fun _ => .refl _) (.refl _) fun _ _ h => h
  rw [edit_apply]
  refine World.upkeep_trans (b := w.mapForest fun _ => (w.forest.insertAfter anchor r).2) ?_ (keeps_ofExcept _ _)
  refine fun hnew => ⟨fun _ => .refl _, Nat.le_of_eq (Forest.size_insertAfter _ _ _).symm, ?_⟩
  intro n p hn hp
  refine Forest.up_of_insertAfter hp ?_
  rintro rfl
  exact Nat.not_lt.2 (hnew i hi n hr) hn

theorem brings_attachInOrder (a : Attachment) (previous : NodeId) {js : List InstanceId} (hjs : js ⊆ is) :
    Keeps (World.Brings N is) (attachInOrder a previous js) :=
  .attachInOrder (fun _ hj anchor => brings_attachAfter (hjs hj) anchor a) previous

theorem brings_replaceChild (T : InstanceId) (n : Nat) (name : String) (child : Option InstanceId) :
    Keeps (World.Brings N child.toList) (replaceChild T n name child) :=
  .replaceChild (fun _ hj anchor _ => brings_attachAfter (Option.mem_toList.2 hj) anchor _) fun w _ =>
    World.brings_of_up (World.rootOf?_modifyInstance w T fun _ => .refl _) (.refl _) fun _ _ h => h

theorem brings_spliceItems (k : CollectionId) (coll : Collection) (start count : Nat) :
    Keeps (World.Brings N is) (spliceItems k coll start count is) := by
  refine (keeps_ask _).bind fun items => ?_
  refine (keeps_checkInserted _ _ _ _).bind fun _ => (Keeps.forM keeps_release _).bind fun _ => ?_
  refine Keeps.bind (fun w => World.brings_of_up (fun _ => .refl _) (.refl _) fun _ _ h => h) fun _ => ?_
  refine (keeps_nodeBefore _ _ _).bind fun anchor => ?_
  exact (brings_attachInOrder _ _ (List.Subset.refl is)).bind fun _ => keeps_pure _

end Run

namespace World

variable {w w' w'' : World} {i : InstanceId}

/-! ## Instances that stand nowhere -/

/-- What is there before and stands nowhere goes on to stand nowhere, and only new nodes are put anywhere. -/
structure Aloof (w w' : World) : Prop extends Extends w w' where
  free : ∀ i x, w.inst? i = some x → w.placeOf? i = none → w'.placeOf? i = none
  adopts : w.Adopts w.forest.size w'

namespace Aloof

theorem rfl : w.Aloof w := ⟨.rfl, fun _ _ _ h => h, .rfl⟩

theorem trans (h : w.Aloof w') (h' : w'.Aloof w'') : w.Aloof w'' where
  toExtends := h.toExtends.trans h'.toExtends
  free i x hx hfree := by
    obtain ⟨y, hy, -⟩ := h.inst i x hx
    exact h'.free i y hy (h.free i x hx hfree)
  adopts := h.adopts.trans (h'.adopts.mono h.adopts.size_le)

end Aloof

theorem Calm.aloof (h : w.Calm w') : w.Aloof w' where
  toExtends := .of_sameShape h.shape
  free i _ _ hfree := (h.place i).trans hfree
  adopts := ⟨Nat.le_of_eq h.links.size.symm, fun n _ _ hp => (h.links.parent? n).symm.trans hp⟩

theorem Orderly.aloof_settle (hw : w.Orderly) : w.Aloof w.settle where
  toExtends := hw.respects_settle.toExtends
  free i _ _ hfree := by
    have hthins := thins_settle w
    cases hplace : w.settle.placeOf? i with
    | none => exact .refl _
    | some pl => exact hfree ▸ (hthins.place i pl hplace).symm
  adopts := ⟨Nat.le_of_eq (wanes_settle w).size.symm, fun n p _ => (thins_settle w).up n p⟩

theorem Joins.aloof {id : ClassId} {c : Class} {view : View} {b b' : Building} (h : w.Joins w' i id c view b b')
    (hw : w.Orderly) (hc : w.class? id = some c) : w.Aloof w' where
  toExtends := h.toExtends
  free j _ _ hfree := (h.placeOf? j).trans hfree
  adopts := by
    have hgrown := (h.adds hw.toBuilt hc).grown
    exact ⟨hgrown.size_le, fun n p hn hp => (hgrown.parent?_old (Layout.Linked.tidy hw.linked) hn).symm.trans hp⟩

/-- Filling a place of an older instance with new ones. -/
theorem Aloof.refills (h : w.Aloof w') (hw' : w'.Orderly) {pl : Place} {P : InstanceId} {m : NodeId}
    {is : List InstanceId} (hr : w'.Refills pl P m is w'') (hbrings : w'.Brings w.forest.size is w'')
    (hnew : ∀ i ∈ is, w.inst? i = none)
    (hroot : ∀ i ∈ is, ∀ r, w'.rootOf? i = some r → w.forest.size ≤ r.index) : w.Aloof w'' where
  toExtends := h.toExtends.trans (.of_sameShape hr.edits.shape)
  free i x hx hfree := by
    refine (Run.placeOf?_eq_none_iff hr.orderly.linked).2 fun pl' hmem => ?_
    rw [hr.occupants] at hmem
    by_cases hpl : pl' = pl
    · rw [hpl, Function.update_self] at hmem
      rw [hnew i hmem] at hx
      cases hx
    · rw [Function.update_of_ne hpl] at hmem
      exact (Run.placeOf?_eq_none_iff hw'.linked).1 (h.free i x hx hfree) pl' hmem
  adopts := h.adopts.trans (hbrings hroot).2

/-- A new instance can be put behind every marker of an older one. -/
theorem Aloof.not_above (h : w.Aloof w') (hw : w.Orderly) {pl : Place} {P : InstanceId} {m r : NodeId}
    (hspot : w.layout.spot pl = some (P, m)) (hr : w.forest.size ≤ r.index) :
    ¬ ReflTransGen w'.forest.Up m r :=
  h.adopts.not_above (Layout.Linked.tidy hw.linked)
    ((Layout.Linked.sound hw.linked).marker_lt pl P m hspot) hr

end World

end ReactiveView
