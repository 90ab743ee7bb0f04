import ReactiveView.Proofs.Steps.Commands

/-!
# Where nodes stand

Elementary changes put nothing somewhere but roots of instances and new nodes, and bring no node back into use
(`World.Steps.putsOnlyRoots`). So a node that is there, is the root of no instance and stands nowhere is a *stray*:
it stands nowhere for good (`World.Stray.steps`).
-/

set_option autoImplicit false

namespace ReactiveView.World

variable {w w' w'' : World} {n : NodeId}

/-! ## What is put somewhere -/

/-- The roots of views are there. -/
def Rooted (w : World) : Prop := ∀ i r, w.rootOf? i = some r → r.index < w.forest.size

/-- Apart from roots of instances and new nodes no node has got another parent, no node that was there has become a
root, and none has come back into use. -/
structure PutsOnlyRoots (w w' : World) : Prop where
  size : w.forest.size ≤ w'.forest.size
  root : ∀ i n, n.index < w.forest.size → w'.rootOf? i = some n → w.rootOf? i = some n
  rooted : w.Rooted → w'.Rooted
  recorded : ∀ n p, n.index < w.forest.size → (∀ i, w.rootOf? i ≠ some n) → w'.forest.recorded? n = some p →
    w.forest.recorded? n = some p
  alive : ∀ n, n.index < w.forest.size → w.forest.isAlive n = false → w'.forest.isAlive n = false

namespace PutsOnlyRoots

theorem of_sameLinks (hroot : ∀ i, w'.rootOf? i = w.rootOf? i) (h : w.forest.SameLinks w'.forest) :
    w.PutsOnlyRoots w' where
  size := Nat.le_of_eq h.size.symm
  root i _ _ hr := (hroot i).symm.trans hr
  rooted hw i r hr := h.size ▸ hw i r ((hroot i).symm.trans hr)
  recorded n _ _ _ hp := (h.recorded? n).symm.trans hp
  alive n _ hdead := (h.isAlive n).trans hdead

theorem trans (h : w.PutsOnlyRoots w') (h' : w'.PutsOnlyRoots w'') : w.PutsOnlyRoots w'' where
  size := Nat.le_trans h.size h'.size
  root i n hn hr := h.root i n hn (h'.root i n (Nat.lt_of_lt_of_le hn h.size) hr)
  rooted hw := h'.rooted (h.rooted hw)
  recorded n p hn hfree hp := by
    refine h.recorded n p hn hfree (h'.recorded n p (Nat.lt_of_lt_of_le hn h.size) (fun i hr => ?_) hp)
    exact hfree i (h.root i n hn hr)
  alive n hn hdead := h'.alive n (Nat.lt_of_lt_of_le hn h.size) (h.alive n hn hdead)

/-- A record is changed, but not its view. -/
theorem modifyInstance (w : World) (i : InstanceId) {f : Instance → Instance} (hf : ∀ x, (f x).view = x.view) :
    w.PutsOnlyRoots (w.modifyInstance i f) := by
  refine of_sameLinks (fun j => ?_) .rfl
  unfold rootOf?
  by_cases hij : i = j
  · subst hij
    rw [inst?_modifyInstance_self]
    cases w.inst? i with
    | none => rfl
    | some x => simp only [Option.map_some, Option.bind_some, hf x]
  · rw [inst?_modifyInstance_of_ne w f hij]

/-- A new instance comes with new nodes. -/
theorem create {id : ClassId} {c : Class} {i : InstanceId} (h : w.createInstance id c.descriptor = .ok (i, w')) :
    w.PutsOnlyRoots w' := by
  obtain ⟨-, view, b, b', hjoins⟩ := createInstance_joins h
  obtain ⟨attrs, hself⟩ := hjoins.self
  have hgrown : w.forest.Grown w'.forest := by
    rw [hjoins.forest]
    exact hjoins.sturdy.grown
  have hroot : w'.rootOf? i = some view.root := by
    unfold rootOf?
    rw [hself]
    rfl
  have hother (j : InstanceId) (hj : j ≠ i) : w'.rootOf? j = w.rootOf? j := by
    unfold rootOf?
    rw [hjoins.other j hj]
  refine ⟨hgrown.size_le, fun j n hn hr => ?_, fun hw j r hr => ?_,
    fun n p hn _ hp => (hgrown.old_recorded n hn).symm.trans hp, fun n hn hdead => (hgrown.old_alive n hn).trans hdead⟩
  · by_cases hj : j = i
    · have hindex := hjoins.planted.index
      rw [hj, hroot] at hr
      rw [Option.some.inj hr, hjoins.start] at hindex
      exact absurd hn (by rw [hindex]; exact Nat.lt_irrefl _)
    · exact (hother j hj).symm.trans hr
  · by_cases hj : j = i
    · rw [hj, hroot] at hr
      rw [← Option.some.inj hr, hjoins.forest]
      exact hjoins.planted.lt
    · exact Nat.lt_of_lt_of_le (hw j r ((hother j hj).symm.trans hr)) hgrown.size_le

end PutsOnlyRoots

theorem Step.putsOnlyRoots (h : w.Step w') : w.PutsOnlyRoots w' := by
  cases h with
  | quiet screen classes instances =>
    refine .of_sameLinks (fun i => ?_) ?_
    · unfold rootOf? inst?
      rw [instances]
    · unfold forest
      rw [screen]
      exact .rfl
  | moves f hf hputs =>
    refine ⟨hf.size_le, fun _ _ _ hr => hr, fun hw i r hr => Nat.lt_of_lt_of_le (hw i r hr) hf.size_le,
      fun n p hn hfree hp => ?_, fun n hn => hf.isAlive hn⟩
    rcases hputs n p hp with hold | hnew | ⟨i, hr⟩
    · exact hold
    · exact absurd hn (Nat.not_lt.2 hnew)
    · exact absurd hr (hfree i)
  | mark => exact .of_sameLinks (fun _ => rfl) (Forest.sameLinks_setAttr _ _ _ _)
  | space | addSpace | addClass | contents => exact .of_sameLinks (fun _ => rfl) .rfl
  | record i f hf => exact .modifyInstance w i fun x => (hf x).2.1
  | finish i => exact .modifyInstance w i fun _ => rfl
  | @slot i => exact .modifyInstance w i fun _ => rfl
  | create hc hcreate => exact .create hcreate
  | @write i x c view n p types v =>
    have hrendered : w.PutsOnlyRoots (w.rendered c view.sites[n]? (.property p.name) v.outputText) := by
      unfold rendered
      split
      · exact .of_sameLinks (fun _ => rfl) (Screen.sameLinks_render _ _ _ _ _)
      · exact .of_sameLinks (fun _ => rfl) .rfl
    exact hrendered.trans (.modifyInstance _ i fun _ => rfl)
  | @attr i x c view n a v =>
    refine PutsOnlyRoots.trans ?_ (.modifyInstance _ i fun _ => rfl)
    refine .of_sameLinks (fun _ => rfl) ?_
    exact (Screen.sameLinks_render w.screen c.queue _ _ _).trans (Forest.sameLinks_setAttr _ _ _ _)
  | flush q => exact .of_sameLinks (fun _ => rfl) (Screen.sameLinks_flush _ _)

/-- However many changes there are, only roots of instances and new nodes are put somewhere. -/
theorem Steps.putsOnlyRoots (h : w.Steps w') : w.PutsOnlyRoots w' := by
  induction h with
  | refl => exact .of_sameLinks (fun _ => rfl) .rfl
  | tail _ hstep ih => exact ih.trans hstep.putsOnlyRoots

/-! ## Nodes that stand nowhere for good -/

/-- The node is there, and it is the root of no instance. -/
structure Rootless (w : World) (n : NodeId) : Prop where
  there : n.index < w.forest.size
  not_root : ∀ i, w.rootOf? i ≠ some n

theorem Rootless.putsOnlyRoots (h : w.Rootless n) (hputs : w.PutsOnlyRoots w') : w'.Rootless n where
  there := Nat.lt_of_lt_of_le h.there hputs.size
  not_root i hr := h.not_root i (hputs.root i n h.there hr)

/-- A new node is the root of no instance. -/
theorem Rooted.rootless {f : Forest} (hw : w.Rooted) (hnew : w.forest.size ≤ n.index) (hn : n.index < f.size) :
    (w.mapForest fun _ => f).Rootless n where
  there := hn
  not_root i hr := Nat.not_lt.2 hnew (hw i n hr)

/-- Moreover, the parent that it has recorded, if any, is out of use. -/
structure Stray (w : World) (n : NodeId) : Prop extends Rootless w n where
  parent : ∀ p, w.forest.recorded? n = some p → p.index < w.forest.size ∧ w.forest.isAlive p = false

namespace Stray

theorem parent?_eq_none (h : w.Stray n) : w.forest.parent? n = none := by
  rw [Forest.parent?_eq]
  cases hp : w.forest.recorded? n with
  | none => rfl
  | some p => rw [Option.filter_some, (h.parent p hp).2, if_neg Bool.false_ne_true]

/-- A stray stays one. -/
theorem putsOnlyRoots (h : w.Stray n) (hputs : w.PutsOnlyRoots w') : w'.Stray n where
  toRootless := h.toRootless.putsOnlyRoots hputs
  parent p hp := by
    obtain ⟨hlt, hdead⟩ := h.parent p (hputs.recorded n p h.there h.not_root hp)
    exact ⟨Nat.lt_of_lt_of_le hlt hputs.size, hputs.alive p hlt hdead⟩

theorem steps (h : w.Stray n) (hsteps : w.Steps w') : w'.Stray n := h.putsOnlyRoots hsteps.putsOnlyRoots

end Stray

end ReactiveView.World
