import ReactiveView.Screen.Basic
import Mathlib.Logic.Relation
import Mathlib.Data.List.Perm.Subperm

/-!
# Links between live nodes

What an edit of a forest does is said by four look-ups: the children that a node lists, the parent of a
node, the parent that it has recorded, and whether a node is in use. This module gives their answers after
each edit. Edits of texts and attributes change none of them (`SameLinks`), and so rendering into the
live trees changes none (`Screen.sameLinks_render`).
-/

set_option autoImplicit false

namespace ReactiveView.Forest

open Relation

variable {f : Forest} {n m p q a : NodeId}

/-! ## Look-ups after a change of one node -/

theorem node?_modify_self (f : Forest) (n : NodeId) (g : Node → Node) :
    (f.modify n g).node? n = (f.node? n).map g :=
  Table.get?_modify_self _ _ _

theorem node?_modify_of_ne (f : Forest) (g : Node → Node) (h : m ≠ n) :
    (f.modify n g).node? m = f.node? m :=
  Table.get?_modify_of_ne _ _ _ _ fun hi => h (congrArg NodeId.mk hi.symm)

@[simp] theorem size_modify (f : Forest) (n : NodeId) (g : Node → Node) :
    (f.modify n g).size = f.size :=
  Table.size_modify _ _ _

theorem node?_eq_none_iff : f.node? n = none ↔ f.size ≤ n.index :=
  Array.getElem?_eq_none_iff

theorem lt_size_of_node? {node : Node} (h : f.node? n = some node) : n.index < f.size :=
  (Array.getElem?_eq_some_iff.1 h).1

theorem exists_node?_of_lt (h : n.index < f.size) : ∃ node, f.node? n = some node :=
  ⟨_, Array.getElem?_eq_some_iff.2 ⟨h, rfl⟩⟩

/-- The parent that a node has recorded, whether or not that is in use. -/
def recorded? (f : Forest) (n : NodeId) : Option NodeId := (f.node? n).bind (·.parent)

theorem parent?_eq (f : Forest) (n : NodeId) : f.parent? n = (f.recorded? n).filter f.isAlive := by
  unfold parent? recorded?
  cases f.node? n <;> rfl

theorem lt_size_of_parent? (h : f.parent? n = some p) : n.index < f.size := by
  unfold parent? at h
  split at h
  · next hn => exact lt_size_of_node? hn
  · cases h

theorem isAlive_of_parent? (h : f.parent? n = some p) : f.isAlive p = true := by
  unfold parent? at h
  split at h
  · exact (Option.filter_eq_some_iff.1 h).2
  · cases h

theorem lt_size_of_isAlive (h : f.isAlive n = true) : n.index < f.size := by
  unfold isAlive at h
  split at h
  · next hn => exact lt_size_of_node? hn
  · cases h

theorem lt_size_of_mem_children (h : n ∈ f.children p) : p.index < f.size := by
  unfold children at h
  split at h
  · next hp => exact lt_size_of_node? hp
  · cases h

theorem isAlive_modify {g : Node → Node} (hg : ∀ node, (g node).alive = node.alive) :
    (f.modify n g).isAlive m = f.isAlive m := by
  unfold isAlive
  by_cases h : m = n
  · subst h
    rw [node?_modify_self]
    cases f.node? m with
    | none => rfl
    | some node => exact hg node
  · rw [node?_modify_of_ne f g h]

theorem children_modify {g : Node → Node} (hg : ∀ node, (g node).children = node.children) :
    (f.modify n g).children m = f.children m := by
  unfold children
  by_cases h : m = n
  · subst h
    rw [node?_modify_self]
    cases f.node? m with
    | none => rfl
    | some node => exact hg node
  · rw [node?_modify_of_ne f g h]

/-- A change that keeps the uses of nodes changes no parent but that of the node itself. -/
theorem parent?_modify {g : Node → Node} (ha : ∀ node, (g node).alive = node.alive)
    (h : m ≠ n ∨ ∀ node, (g node).parent = node.parent) :
    (f.modify n g).parent? m = f.parent? m := by
  have halive : (f.modify n g).isAlive = f.isAlive := funext fun k => isAlive_modify ha
  unfold parent?
  by_cases hm : m = n
  · subst hm
    rw [node?_modify_self]
    cases f.node? m with
    | none => rfl
    | some node =>
      have hg := h.resolve_left fun hne => hne rfl
      simp only [Option.map_some, hg node, halive]
  · rw [node?_modify_of_ne f g hm, halive]

theorem recorded?_modify {g : Node → Node} (hg : m ≠ n ∨ ∀ node, (g node).parent = node.parent) :
    (f.modify n g).recorded? m = f.recorded? m := by
  unfold recorded?
  by_cases h : m = n
  · subst h
    rw [node?_modify_self]
    cases f.node? m with
    | none => rfl
    | some node => exact (hg.resolve_left fun hne => hne rfl) node
  · rw [node?_modify_of_ne f g h]

/-! ## Edits of texts and attributes -/

/-- Two forests with the same nodes, linked in the same way. -/
structure SameLinks (f f' : Forest) : Prop where
  size : f'.size = f.size
  children : ∀ n, f'.children n = f.children n
  recorded? : ∀ n, f'.recorded? n = f.recorded? n
  isAlive : ∀ n, f'.isAlive n = f.isAlive n

namespace SameLinks

theorem rfl {f : Forest} : f.SameLinks f := ⟨.refl _, fun _ => .refl _, fun _ => .refl _, fun _ => .refl _⟩

theorem parent? {f f' : Forest} (h : f.SameLinks f') (n : NodeId) : f'.parent? n = f.parent? n := by
  rw [parent?_eq, parent?_eq, h.recorded?, funext h.isAlive]

theorem trans {f g h : Forest} (hfg : f.SameLinks g) (hgh : g.SameLinks h) : f.SameLinks h where
  size := hgh.size.trans hfg.size
  children n := (hgh.children n).trans (hfg.children n)
  recorded? n := (hgh.recorded? n).trans (hfg.recorded? n)
  isAlive n := (hgh.isAlive n).trans (hfg.isAlive n)

theorem modify {f : Forest} {n : NodeId} {g : Node → Node}
    (hg : ∀ node, (g node).parent = node.parent ∧ (g node).children = node.children ∧
      (g node).alive = node.alive) : f.SameLinks (f.modify n g) where
  size := size_modify f n g
  children _ := children_modify fun node => (hg node).2.1
  recorded? _ := recorded?_modify (Or.inr fun node => (hg node).1)
  isAlive _ := isAlive_modify fun node => (hg node).2.2

end SameLinks

theorem sameLinks_setText (f : Forest) (n : NodeId) (s : String) : f.SameLinks (f.setText n s) := by
  refine SameLinks.modify fun node => ?_
  cases node.kind <;> exact ⟨rfl, rfl, rfl⟩

theorem sameLinks_setAttr (f : Forest) (n : NodeId) (name : QName) (value : String) :
    f.SameLinks (f.setAttr n name value) := by
  refine SameLinks.modify fun node => ?_
  cases node.kind <;> exact ⟨rfl, rfl, rfl⟩

/-! ## Taking a node out and putting it in -/

theorem parent?_of_node {node : Node} (h : f.node? n = some node) :
    f.parent? n = node.parent.filter f.isAlive := by
  unfold parent?
  rw [h]

theorem children_of_node {node : Node} (h : f.node? n = some node) :
    f.children n = node.children := by
  unfold children
  rw [h]

/-- The part of `unlink` that takes the node off the list of its parent. -/
theorem unlink_eq (f : Forest) (n : NodeId) : ∃ g : Forest,
    f.unlink n = g.modify n (fun node => { node with parent := none }) ∧ g.size = f.size ∧
      (∀ m, g.isAlive m = f.isAlive m) ∧ (∀ m, g.parent? m = f.parent? m) ∧
      ∀ m, g.children m = if f.parent? n = some m then (f.children m).erase n else f.children m := by
  unfold unlink
  cases hp : f.parent? n with
  | none => exact ⟨f, rfl, rfl, fun _ => rfl, fun _ => rfl, fun m => by rw [if_neg (by simp)]⟩
  | some p =>
    refine ⟨_, rfl, size_modify _ _ _, fun m => isAlive_modify fun _ => rfl,
      fun m => parent?_modify (fun _ => rfl) (Or.inr fun _ => rfl), fun m => ?_⟩
    by_cases hm : p = m
    · subst hm
      obtain ⟨node, hnode⟩ := exists_node?_of_lt (lt_size_of_isAlive (isAlive_of_parent? hp))
      rw [if_pos rfl, children_of_node hnode]
      unfold children
      rw [node?_modify_self, hnode]
      rfl
    · rw [if_neg fun h => hm (Option.some.inj h)]
      unfold children
      rw [node?_modify_of_ne _ _ (Ne.symm hm)]

@[simp] theorem size_unlink (f : Forest) (n : NodeId) : (f.unlink n).size = f.size := by
  obtain ⟨g, hg, hsize, -⟩ := unlink_eq f n
  rw [hg, size_modify, hsize]

@[simp] theorem isAlive_unlink (f : Forest) (n m : NodeId) :
    (f.unlink n).isAlive m = f.isAlive m := by
  obtain ⟨g, hg, -, halive, -⟩ := unlink_eq f n
  rw [hg, isAlive_modify (by exact fun _ => rfl), halive]

theorem children_unlink (f : Forest) (n m : NodeId) :
    (f.unlink n).children m =
      if f.parent? n = some m then (f.children m).erase n else f.children m := by
  obtain ⟨g, hg, -, -, -, hchildren⟩ := unlink_eq f n
  rw [hg, children_modify (by exact fun _ => rfl), hchildren]

@[simp] theorem parent?_unlink_self (f : Forest) (n : NodeId) : (f.unlink n).parent? n = none := by
  obtain ⟨g, hg, -⟩ := unlink_eq f n
  rw [hg]
  unfold parent?
  rw [node?_modify_self]
  cases g.node? n <;> rfl

theorem parent?_unlink_of_ne (f : Forest) (h : m ≠ n) :
    (f.unlink n).parent? m = f.parent? m := by
  obtain ⟨g, hg, -, -, hparent, -⟩ := unlink_eq f n
  rw [hg, parent?_modify (by exact fun _ => rfl) (Or.inl h), hparent]

theorem recorded?_unlink_self (f : Forest) (n : NodeId) : (f.unlink n).recorded? n = none := by
  obtain ⟨g, hg, -⟩ := unlink_eq f n
  rw [hg]
  unfold recorded?
  rw [node?_modify_self]
  cases g.node? n <;> rfl

theorem recorded?_unlink_of_ne (f : Forest) (h : m ≠ n) : (f.unlink n).recorded? m = f.recorded? m := by
  unfold unlink
  rw [recorded?_modify (Or.inl h)]
  cases f.parent? n with
  | none => rfl
  | some p => exact recorded?_modify (Or.inr (by exact fun _ => rfl))

theorem recorded?_of_unlink (h : (f.unlink n).recorded? m = some p) : f.recorded? m = some p := by
  by_cases hm : m = n
  · subst hm
    rw [recorded?_unlink_self] at h
    cases h
  · rwa [recorded?_unlink_of_ne f hm] at h

@[simp] theorem size_place (f : Forest) (p : NodeId) (i : Nat) (n : NodeId) :
    (f.place p i n).size = f.size := by
  unfold place
  simp only [size_modify]

@[simp] theorem isAlive_place (f : Forest) (p : NodeId) (i : Nat) (n m : NodeId) :
    (f.place p i n).isAlive m = f.isAlive m := by
  unfold place
  rw [isAlive_modify (by exact fun _ => rfl), isAlive_modify (by exact fun _ => rfl)]

theorem recorded?_place_of_ne (i : Nat) (h : m ≠ n) : (f.place p i n).recorded? m = f.recorded? m := by
  unfold place
  rw [recorded?_modify (Or.inr (by exact fun _ => rfl)), recorded?_modify (Or.inl h)]

theorem recorded?_of_place {i : Nat} (h : (f.place p i n).recorded? m = some q) :
    f.recorded? m = some q ∨ q = p := by
  unfold place at h
  rw [recorded?_modify (Or.inr (by exact fun _ => rfl))] at h
  by_cases hm : m = n
  · subst hm
    unfold recorded? at h
    rw [node?_modify_self] at h
    obtain ⟨node, hnode, hq⟩ := Option.bind_eq_some_iff.1 h
    obtain ⟨node', -, rfl⟩ := Option.map_eq_some_iff.1 hnode
    exact Or.inr (Option.some.inj hq).symm
  · rw [recorded?_modify (Or.inl hm)] at h
    exact Or.inl h

theorem children_place_self (hp : p.index < f.size) (i : Nat) (n : NodeId) :
    (f.place p i n).children p = (f.children p).insertIdx i n := by
  unfold place
  have hkeep : (f.modify n fun node => { node with parent := some p }).children p = f.children p :=
    children_modify fun _ => rfl
  obtain ⟨node, hnode⟩ := exists_node?_of_lt
    (f := f.modify n fun node => { node with parent := some p }) (by rw [size_modify]; exact hp)
  rw [← hkeep, children_of_node hnode]
  unfold children
  rw [node?_modify_self, hnode]
  rfl

theorem children_place_of_ne (f : Forest) (i : Nat) (n : NodeId) (h : m ≠ p) :
    (f.place p i n).children m = f.children m := by
  have hkeep : (f.modify n fun node => { node with parent := some p }).children m = f.children m :=
    children_modify fun _ => rfl
  rw [← hkeep]
  unfold place children
  rw [node?_modify_of_ne _ _ h]

theorem parent?_place_self (hn : n.index < f.size) (hp : f.isAlive p = true) (i : Nat) :
    (f.place p i n).parent? n = some p := by
  obtain ⟨node, hnode⟩ := exists_node?_of_lt hn
  have hself : (f.modify n fun node => { node with parent := some p }).node? n =
      some { node with parent := some p } := by
    rw [node?_modify_self, hnode]
    rfl
  have halive : (f.modify n fun node => { node with parent := some p }).isAlive p = true := by
    rw [isAlive_modify (by exact fun _ => rfl), hp]
  have hset : (f.modify n fun node => { node with parent := some p }).parent? n = some p := by
    rw [parent?_of_node hself]
    simp only [Option.filter_some, halive, if_true]
  unfold place
  rw [parent?_modify (by exact fun _ => rfl) (Or.inr (by exact fun _ => rfl)), hset]

theorem parent?_place_of_ne (f : Forest) (i : Nat) (h : m ≠ n) :
    (f.place p i n).parent? m = f.parent? m := by
  have hset : (f.modify n fun node => { node with parent := some p }).parent? m = f.parent? m :=
    parent?_modify (by exact fun _ => rfl) (Or.inl h)
  unfold place
  rw [parent?_modify (by exact fun _ => rfl) (Or.inr (by exact fun _ => rfl)), hset]

theorem size_insertAfter (f : Forest) (a n : NodeId) : (f.insertAfter a n).2.size = f.size := by
  unfold insertAfter
  split
  · rfl
  · dsimp only
    split
    · exact size_unlink f n
    · exact (size_place _ _ _ _).trans (size_unlink f n)

/-- Only the node that is put somewhere gets another parent. -/
theorem recorded?_insertAfter_of_ne (f : Forest) (hm : m ≠ n) :
    (f.insertAfter a n).2.recorded? m = f.recorded? m := by
  unfold insertAfter
  split
  · rfl
  · dsimp only
    split
    · exact recorded?_unlink_of_ne f hm
    · rw [recorded?_place_of_ne _ hm, recorded?_unlink_of_ne f hm]

end ReactiveView.Forest

/-! ## Rendering -/

namespace ReactiveView.Screen

variable (s : Screen)

theorem forest_mark (q : QueueId) (b : BindingId) : (s.mark q b).forest = s.forest := by
  unfold mark
  dsimp only
  split
  · split <;> rfl
  · rfl

theorem sameLinks_renderAt (q : QueueId) (source : Source) (text : String) (n : BoundNode) :
    s.forest.SameLinks (s.renderAt q source text n).forest := by
  unfold renderAt
  split
  · exact Forest.sameLinks_setText _ _ _
  · rw [forest_mark]
    exact .rfl

theorem sameLinks_render (q : QueueId) (nodes : NodeSet) (source : Source) (text : String) :
    s.forest.SameLinks (s.render q nodes source text).forest := by
  unfold render
  induction nodes generalizing s with
  | nil => exact .rfl
  | cons n nodes ih => exact (s.sameLinks_renderAt q source text n).trans (ih _)

theorem sameLinks_write (b : BindingId) : s.forest.SameLinks (s.write b).2.forest := by
  unfold write
  split
  · exact .rfl
  · split
    · exact Forest.sameLinks_setAttr _ _ _ _
    · exact .rfl

theorem sameLinks_writeAll (bs : List BindingId) : s.forest.SameLinks (s.writeAll bs).2.forest := by
  induction bs generalizing s with
  | nil => exact .rfl
  | cons b bs ih =>
    have hwrite := (s.modifyBinding b fun binding => { binding with pending := false }).sameLinks_write b
    exact hwrite.trans (ih _)

theorem sameLinks_flush (q : QueueId) : s.forest.SameLinks (s.flush q).2.forest := by
  unfold flush
  split
  · exact .rfl
  · next queue _ =>
    dsimp only
    have hall := (s.modifyQueue q fun queue => { queue with pending := [], deadline := none }).sameLinks_writeAll
      queue.pending
    split
    · exact hall
    · exact hall

end ReactiveView.Screen
