import ReactiveView.Proofs.Forest.Growth
import ReactiveView.Proofs.Forest.Kinds

/-!
# Nodes that are moved

Most edits of a forest move nodes, add new ones or take some out of use, while what a node is stays
(`Forest.Moves`). Attributes of elements are set as well; still no node comes back into use, no text
changes, and no attribute is lost (`Forest.Recast`). Only `Forest.setText` is not of this kind.
-/

set_option autoImplicit false

namespace ReactiveView

/-- Nodes may be moved, go out of use, and be added; what a node is stays. -/
structure Forest.Moves (f f' : Forest) : Prop where
  node : ∀ n node, f.node? n = some node → ∃ node', f'.node? n = some node' ∧
    (node'.alive = true → node.alive = true) ∧ node'.kind = node.kind

/-- The same but for the values of attributes; none is lost. -/
structure NodeKind.Alike (k k' : NodeKind) : Prop where
  tag : k'.tag? = k.tag?
  attr : ∀ t, (k.attr? t).isSome = true → (k'.attr? t).isSome = true
  other : k.tag? = none → k' = k

theorem NodeKind.Alike.rfl {k : NodeKind} : k.Alike k := ⟨.refl _, fun _ => id, fun _ => .refl _⟩

theorem NodeKind.Alike.trans {k k' k'' : NodeKind} (h : k.Alike k') (h' : k'.Alike k'') : k.Alike k'' where
  tag := h'.tag.trans h.tag
  attr t ht := h'.attr t (h.attr t ht)
  other ht := (h'.other (h.tag.trans ht)).trans (h.other ht)

theorem NodeKind.Alike.withAttr (name : QName) (value : String) (k : NodeKind) :
    k.Alike (k.withAttr name value) where
  tag := tag?_withAttr name value k
  attr t ht := by
    by_cases hname : name.tag = t
    · cases k with
      | element tag attrs apart =>
        rw [← hname, attr?_withAttr_self (.refl _) name value]
        exact .refl _
      | _ => cases ht
    · rw [attr?_withAttr_of_ne hname value k]
      exact ht
  other ht := by
    cases k with
    | element => cases ht
    | _ => exact .refl _

/-- Nodes may be moved, go out of use, be added, and have their attributes changed; texts stay. -/
structure Forest.Recast (f f' : Forest) : Prop where
  node : ∀ n node, f.node? n = some node → ∃ node', f'.node? n = some node' ∧
    (node'.alive = true → node.alive = true) ∧ node.kind.Alike node'.kind

namespace Forest.Moves

variable {f f' f'' : Forest}

theorem rfl : f.Moves f := ⟨fun _ node h => ⟨node, h, id, .refl _⟩⟩

theorem trans (h : f.Moves f') (h' : f'.Moves f'') : f.Moves f'' := by
  refine ⟨fun n node hn => ?_⟩
  obtain ⟨node', hn', halive, hkind⟩ := h.node n node hn
  obtain ⟨node'', hn'', halive', hkind'⟩ := h'.node n node' hn'
  exact ⟨node'', hn'', fun ha => halive (halive' ha), hkind'.trans hkind⟩

theorem recast (h : f.Moves f') : f.Recast f' := by
  refine ⟨fun n node hn => ?_⟩
  obtain ⟨node', hn', halive, hkind⟩ := h.node n node hn
  exact ⟨node', hn', halive, hkind ▸ .rfl⟩

/-- A node that was there is what it was. -/
theorem kind? (h : f.Moves f') {n : NodeId} {k : NodeKind} (hk : f.kind? n = some k) : f'.kind? n = some k := by
  obtain ⟨node, hn, rfl⟩ := Option.map_eq_some_iff.1 hk
  obtain ⟨node', hn', -, hkind⟩ := h.node n node hn
  unfold Forest.kind?
  rw [hn', Option.map_some, hkind]

theorem tag? (h : f.Moves f') {n : NodeId} (hn : (f.tag? n).isSome = true) : f'.tag? n = f.tag? n := by
  rw [Forest.tag?_eq] at hn ⊢
  rw [Forest.tag?_eq]
  cases hk : f.kind? n with
  | none =>
    rw [hk] at hn
    cases hn
  | some k => rw [h.kind? hk]

/-- The attributes of an element are not touched. -/
theorem attr? (h : f.Moves f') {n : NodeId} (hn : (f.tag? n).isSome = true) (t : String) :
    f'.attr? n t = f.attr? n t := by
  rw [Forest.tag?_eq] at hn
  rw [Forest.attr?_eq, Forest.attr?_eq]
  cases hk : f.kind? n with
  | none =>
    rw [hk] at hn
    cases hn
  | some k => rw [h.kind? hk]

/-- A change of one node that does not bring it back into use and leaves what it is. -/
theorem modify (f : Forest) (n : NodeId) (g : Node → Node)
    (halive : ∀ node, (g node).alive = true → node.alive = true) (hkind : ∀ node, (g node).kind = node.kind) :
    f.Moves (f.modify n g) := by
  refine ⟨fun m node hm => ?_⟩
  by_cases hnm : n = m
  · subst hnm
    refine ⟨g node, ?_, halive node, hkind node⟩
    rw [Forest.node?_modify_self, hm]
    rfl
  · exact ⟨node, by rw [Forest.node?_modify_of_ne f g (Ne.symm hnm)]; exact hm, id, .refl _⟩

theorem foldl {α : Type} {g : Forest → α → Forest} (hg : ∀ f a, Forest.Moves f (g f a)) (as : List α)
    (f : Forest) : f.Moves (as.foldl g f) := by
  induction as generalizing f with
  | nil => exact rfl
  | cons a as ih => exact (hg f a).trans (ih (g f a))

theorem create (f : Forest) (kind : NodeKind) : f.Moves (f.create kind).2 := by
  refine ⟨fun n node hn => ⟨node, ?_, id, .refl _⟩⟩
  have hlt : n.index < f.nodes.size := (Array.getElem?_eq_some_iff.1 hn).1
  change (f.nodes.push _).get? n.index = some node
  rw [Table.get?_push_of_lt _ _ _ hlt]
  exact hn

theorem unlink (f : Forest) (n : NodeId) : f.Moves (f.unlink n) := by
  unfold Forest.unlink
  dsimp only
  split
  · refine trans (modify f _ _ ?_ ?_) (modify _ _ _ ?_ ?_)
    all_goals first | exact fun _ => id | exact fun _ => .refl _
  · refine modify _ _ _ ?_ ?_
    all_goals first | exact fun _ => id | exact fun _ => .refl _

theorem place (f : Forest) (parent : NodeId) (position : Nat) (n : NodeId) :
    f.Moves (f.place parent position n) := by
  unfold Forest.place
  refine trans (modify f _ _ ?_ ?_) (modify _ _ _ ?_ ?_)
  all_goals first | exact fun _ => id | exact fun _ => .refl _

theorem append (f : Forest) (parent n : NodeId) : f.Moves (f.append parent n) :=
  (unlink f n).trans (place _ _ _ _)

theorem insertAfter (f : Forest) (anchor n : NodeId) : f.Moves (f.insertAfter anchor n).2 := by
  unfold Forest.insertAfter
  split
  · exact rfl
  · dsimp only
    split
    · exact unlink f n
    · exact (unlink f n).trans (place _ _ _ _)

theorem release (f : Forest) (dead : List NodeId) : f.Moves (f.release dead) := by
  unfold Forest.release
  refine trans (foldl (fun f n => modify f n _ ?_ ?_) dead f) (foldl (fun f n => modify f n _ ?_ ?_) _ _)
  · intro node h
    cases h
  all_goals first | exact fun _ => id | exact fun _ => .refl _

theorem sweep (f : Forest) (held : NodeId → Bool) (fuel : Nat) : f.Moves (f.sweep held fuel) := by
  induction fuel generalizing f with
  | zero => exact rfl
  | succ fuel ih =>
    unfold Forest.sweep
    split
    · exact rfl
    · exact (release f _).trans (ih _)

mutual

theorem plant : ∀ (f : Forest) (m : Markup), f.Moves (f.plant m).2
  | f, .text _ => create f _
  | f, .comment _ => create f _
  | f, .element _ _ _ children => (create f _).trans (plantBelow _ _ children)

theorem plantBelow : ∀ (f : Forest) (parent : NodeId) (ms : List Markup),
    f.Moves (f.plantBelow parent ms)
  | _, _, [] => rfl
  | f, parent, m :: ms => by
    unfold Forest.plantBelow
    exact (plant f m).trans ((append _ parent _).trans (plantBelow _ parent ms))

end

theorem plantDocument (f : Forest) (trees : List Markup) : f.Moves (f.plantDocument trees).2 :=
  (create f _).trans (plantBelow _ _ trees)

end Forest.Moves

/-! ## Nodes that were there -/

namespace Forest

variable {k : NodeId}

theorem Moves.lt_size {f f' : Forest} (h : f.Moves f') (hk : k.index < f.size) : k.index < f'.size := by
  obtain ⟨node, hnode⟩ := exists_node?_of_lt hk
  obtain ⟨node', hnode', -⟩ := h.node k node hnode
  exact lt_size_of_node? hnode'

theorem Moves.size_le {f f' : Forest} (h : f.Moves f') : f.size ≤ f'.size := by
  by_contra hlt
  exact Nat.lt_irrefl _ (h.lt_size (k := ⟨f'.size⟩) (Nat.not_le.1 hlt))

theorem Moves.isAlive {f f' : Forest} (h : f.Moves f') (hk : k.index < f.size) (hdead : f.isAlive k = false) :
    f'.isAlive k = false := by
  obtain ⟨node, hnode⟩ := exists_node?_of_lt hk
  obtain ⟨node', hnode', halive, -⟩ := h.node k node hnode
  unfold Forest.isAlive at hdead ⊢
  rw [hnode] at hdead
  rw [hnode']
  exact Bool.eq_false_iff.2 fun hon => Bool.eq_false_iff.1 hdead (halive hon)

theorem index_plant (f : Forest) (m : Markup) : (f.plant m).1.index = f.size := by
  cases m <;> rfl

mutual

theorem recorded?_plant : ∀ (f : Forest) (m : Markup), k.index < f.size →
    (f.plant m).2.recorded? k = f.recorded? k
  | f, .text _, _ | f, .comment _, _ => recorded?_create f _ k
  | f, .element name attrs apart children, hk => by
    refine (recorded?_plantBelow _ _ children ?_).trans (recorded?_create f (.element name attrs apart) k)
    exact (Moves.create f _).lt_size hk

theorem recorded?_plantBelow : ∀ (f : Forest) (parent : NodeId) (ms : List Markup), k.index < f.size →
    (f.plantBelow parent ms).recorded? k = f.recorded? k
  | _, _, [], _ => rfl
  | f, parent, m :: ms, hk => by
    have hne : k ≠ (f.plant m).1 := fun h => Nat.ne_of_lt hk (h ▸ index_plant f m)
    have happend : ((f.plant m).2.append parent (f.plant m).1).recorded? k = (f.plant m).2.recorded? k :=
      (recorded?_place_of_ne _ hne).trans (recorded?_unlink_of_ne _ hne)
    unfold plantBelow
    refine ((recorded?_plantBelow _ parent ms ?_).trans happend).trans (recorded?_plant f m hk)
    exact ((Moves.plant f m).trans (.append _ parent _)).lt_size hk

end

/-- Planting a document leaves the parents of the nodes that were there. -/
theorem recorded?_plantDocument (f : Forest) (trees : List Markup) (hk : k.index < f.size) :
    (f.plantDocument trees).2.recorded? k = f.recorded? k :=
  (recorded?_plantBelow _ _ trees ((Moves.create f _).lt_size hk)).trans (recorded?_create f _ k)

end Forest

namespace Forest.Recast

variable {f f' f'' : Forest} {n : NodeId}

theorem rfl : f.Recast f := Moves.rfl.recast

theorem trans (h : f.Recast f') (h' : f'.Recast f'') : f.Recast f'' := by
  refine ⟨fun n node hn => ?_⟩
  obtain ⟨node', hn', halive, hkind⟩ := h.node n node hn
  obtain ⟨node'', hn'', halive', hkind'⟩ := h'.node n node' hn'
  exact ⟨node'', hn'', fun ha => halive (halive' ha), hkind.trans hkind'⟩

/-- No node is lost. -/
theorem lt_size (h : f.Recast f') (hn : n.index < f.size) : n.index < f'.size := by
  obtain ⟨node', hn', -⟩ := h.node n _ (Array.getElem?_eq_getElem hn)
  exact (Array.getElem?_eq_some_iff.1 hn').1

/-- A node in use has been in use before. -/
theorem isAlive (h : f.Recast f') (hn : n.index < f.size) (halive : f'.isAlive n = true) :
    f.isAlive n = true := by
  have hnode : f.node? n = some _ := Array.getElem?_eq_getElem hn
  obtain ⟨node', hn', hback, -⟩ := h.node n _ hnode
  unfold Forest.isAlive at halive ⊢
  rw [hn'] at halive
  rw [hnode]
  exact hback halive

theorem alike (h : f.Recast f') {k : NodeKind} (hk : f.kind? n = some k) :
    ∃ k', f'.kind? n = some k' ∧ k.Alike k' := by
  obtain ⟨node, hn, rfl⟩ := Option.map_eq_some_iff.1 hk
  obtain ⟨node', hn', -, hkind⟩ := h.node n node hn
  exact ⟨node'.kind, by unfold Forest.kind?; rw [hn']; exact .refl _, hkind⟩

/-- A node that is no element is what it was. -/
theorem kind? (h : f.Recast f') {k : NodeKind} (hk : f.kind? n = some k) (ht : k.tag? = none) :
    f'.kind? n = some k := by
  obtain ⟨k', hk', hkk⟩ := h.alike hk
  rw [hk', hkk.other ht]

/-- Elements stay elements. -/
theorem tag? (h : f.Recast f') {t : String} (ht : f.tag? n = some t) : f'.tag? n = some t := by
  rw [Forest.tag?_eq] at ht ⊢
  obtain ⟨k, hk, hkt⟩ := Option.bind_eq_some_iff.1 ht
  obtain ⟨k', hk', hkk⟩ := h.alike hk
  rw [hk', Option.bind_some, hkk.tag, hkt]

/-- No attribute is lost. -/
theorem isSome_attr? (h : f.Recast f') {t : String} (ht : (f.attr? n t).isSome = true) :
    (f'.attr? n t).isSome = true := by
  rw [Forest.attr?_eq] at ht ⊢
  cases hk : f.kind? n with
  | none =>
    rw [hk] at ht
    cases ht
  | some k =>
    rw [hk] at ht
    obtain ⟨k', hk', hkk⟩ := h.alike hk
    rw [hk']
    exact hkk.attr t ht

theorem setAttr (f : Forest) (n : NodeId) (name : QName) (value : String) :
    f.Recast (f.setAttr n name value) := by
  refine ⟨fun m node hm => ?_⟩
  unfold Forest.setAttr
  by_cases hnm : n = m
  · subst hnm
    rw [Forest.node?_modify_self, hm]
    refine ⟨_, .refl _, fun h => ?_, ?_⟩
    · dsimp only at h
      split at h <;> exact h
    · have halike := NodeKind.Alike.withAttr name value node.kind
      dsimp only
      cases hk : node.kind <;> rw [hk] at halike <;> simp only [hk] <;> exact halike
  · rw [Forest.node?_modify_of_ne f _ (Ne.symm hnm)]
    exact ⟨node, hm, id, .rfl⟩

end Forest.Recast

end ReactiveView
