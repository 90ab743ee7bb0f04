import ReactiveView.Proofs.Forest.Links
import Mathlib.Data.List.Nodup

/-!
# Tidy forests

A forest is *tidy* when a listed child knows its parent, no child is listed twice, and climbing never
comes back (`Tidy`). This is weaker than `WellFormed`: after a sweep a node that is still in use may have
lost its children, although they still know it. Taking a node out keeps a forest tidy (`Tidy.unlink`), and
so does putting a free node behind another one, as long as it does not stand above that one
(`PutBehind.tidy`). Where climbing never comes back, the bounded climb of `isInclusiveAncestor` finds every
ancestor (`isInclusiveAncestor_iff_of_acyclic`).
-/

set_option autoImplicit false

namespace ReactiveView.Forest

open Relation

variable {f f' : Forest} {n m p q a : NodeId}

/-- The step from a node to its parent. -/
def Up (f : Forest) (n p : NodeId) : Prop := f.parent? n = some p

/-- Listed children know their parents, no child is listed twice, and climbing never comes back. -/
structure Tidy (f : Forest) : Prop where
  parent_of_mem : ∀ n p, n ∈ f.children p → f.parent? n = some p
  nodup : ∀ p, (f.children p).Nodup
  acyclic : ∀ n, ¬ TransGen f.Up n n
  recorded_lt : ∀ n p, f.recorded? n = some p → p.index < f.size

theorem Up.unique (hp : f.Up n p) (hq : f.Up n q) : p = q :=
  Option.some.inj (hp.symm.trans hq)

/-- Forests with the same links are tidy together. -/
theorem Tidy.congr (ht : f.Tidy) (h : f.SameLinks f') : f'.Tidy where
  parent_of_mem n p hn := by
    rw [h.children] at hn
    rw [h.parent?]
    exact ht.parent_of_mem n p hn
  nodup p := by
    rw [h.children]
    exact ht.nodup p
  acyclic n hn := by
    refine ht.acyclic n (TransGen.mono ?_ _ _ hn)
    intro a b hab
    exact (h.parent? a).symm.trans hab
  recorded_lt n p hp := by
    rw [h.recorded?] at hp
    rw [h.size]
    exact ht.recorded_lt n p hp

theorem tidy_empty : ({} : Forest).Tidy where
  parent_of_mem _ _ hn := nomatch hn
  nodup _ := List.nodup_nil
  acyclic n hn := by
    obtain ⟨p, hp, -⟩ := TransGen.head'_iff.1 hn
    cases hp
  recorded_lt _ _ hp := nomatch hp

/-- A node has one parent. -/
theorem Tidy.parent_unique (ht : f.Tidy) (hp : n ∈ f.children p) (hq : n ∈ f.children q) : p = q :=
  Up.unique (ht.parent_of_mem n p hp) (ht.parent_of_mem n q hq)

/-! ## Taking a node out -/

/-- In a tidy forest a node is taken off the one list that it may stand on. -/
theorem Tidy.children_unlink (ht : f.Tidy) (n m : NodeId) :
    (f.unlink n).children m = (f.children m).erase n := by
  rw [Forest.children_unlink]
  split
  · rfl
  · next hp =>
    have hn : n ∉ f.children m := fun hn => hp (ht.parent_of_mem n m hn)
    rw [List.erase_of_not_mem hn]

theorem up_of_unlink (h : (f.unlink n).Up m p) : m ≠ n ∧ f.Up m p := by
  have hne : m ≠ n := by
    rintro rfl
    unfold Up at h
    rw [parent?_unlink_self] at h
    cases h
  exact ⟨hne, (parent?_unlink_of_ne f hne).symm.trans h⟩

theorem acyclic_unlink (hacyclic : ∀ m, ¬ TransGen f.Up m m) (n m : NodeId) : ¬ TransGen (f.unlink n).Up m m :=
  fun hm => hacyclic m (TransGen.mono (fun _ _ h => (up_of_unlink h).2) _ _ hm)

theorem Tidy.unlink (ht : f.Tidy) (n : NodeId) : (f.unlink n).Tidy where
  parent_of_mem m p hm := by
    rw [ht.children_unlink] at hm
    obtain ⟨hne, hmem⟩ := (ht.nodup p).mem_erase_iff.1 hm
    rw [parent?_unlink_of_ne f hne]
    exact ht.parent_of_mem m p hmem
  nodup p := by
    rw [ht.children_unlink]
    exact (ht.nodup p).erase n
  acyclic := acyclic_unlink ht.acyclic n
  recorded_lt m p hp := by
    rw [size_unlink]
    exact ht.recorded_lt m p (recorded?_of_unlink hp)

/-! ## One new parent -/

/-- `n` has got the parent `p`, and all other nodes have the parents that they had. -/
structure Adopts (f f' : Forest) (p n : NodeId) : Prop where
  parent_self : f'.parent? n = some p
  parent_other : ∀ m, m ≠ n → f'.parent? m = f.parent? m

namespace Adopts

variable (h : f.Adopts f' p n)

include h

theorem up_cases (hup : f'.Up m q) : f.Up m q ∨ m = n ∧ q = p := by
  by_cases hm : m = n
  · subst hm
    exact Or.inr ⟨rfl, Up.unique hup h.parent_self⟩
  · exact Or.inl ((h.parent_other m hm).symm.trans hup)

/-- A climb goes through the new link at most once. -/
theorem transGen_cases (hout : ¬ ReflTransGen f.Up p n) {b : NodeId} (hb : TransGen f'.Up m b) :
    TransGen f.Up m b ∨ ReflTransGen f.Up m n ∧ ReflTransGen f.Up p b := by
  induction hb with
  | single hup =>
    rcases h.up_cases hup with hup | ⟨rfl, rfl⟩
    · exact Or.inl (.single hup)
    · exact Or.inr ⟨.refl, .refl⟩
  | tail _ hup ih =>
    rcases h.up_cases hup with hup | ⟨rfl, rfl⟩
    · rcases ih with hold | ⟨hto, hfrom⟩
      · exact Or.inl (hold.tail hup)
      · exact Or.inr ⟨hto, hfrom.tail hup⟩
    · rcases ih with hold | ⟨-, hfrom⟩
      · exact Or.inr ⟨hold.to_reflTransGen, .refl⟩
      · exact absurd hfrom hout

/-- No cycle comes up when the new parent does not stand below the node. -/
theorem acyclic (hacyclic : ∀ m, ¬ TransGen f.Up m m) (hout : ¬ ReflTransGen f.Up p n) (m : NodeId) :
    ¬ TransGen f'.Up m m := by
  intro hm
  rcases h.transGen_cases hout hm with hold | ⟨hto, hfrom⟩
  · exact hacyclic m hold
  · exact hout (hfrom.trans hto)

end Adopts

/-! ## Putting a node behind another one -/

theorem idxOf?_split {s t : List NodeId} (h : a ∉ s) : (s ++ a :: t).idxOf? a = some s.length := by
  induction s with
  | nil => simp [List.idxOf?_cons]
  | cons b s ih =>
    simp only [List.mem_cons, not_or] at h
    have hb : (b == a) = false := beq_eq_false_iff_ne.2 (Ne.symm h.1)
    rw [List.cons_append, List.idxOf?_cons, hb, ih h.2]
    rfl

theorem insertIdx_length_append (s t : List NodeId) (n : NodeId) :
    (s ++ t).insertIdx s.length n = s ++ n :: t := by
  induction s with
  | nil => rfl
  | cons b s ih => rw [List.cons_append, List.length_cons, List.insertIdx_succ_cons, ih, List.cons_append]

theorem insertIdx_split (s t : List NodeId) (a n : NodeId) :
    (s ++ a :: t).insertIdx (s.length + 1) n = s ++ a :: n :: t := by
  simpa using insertIdx_length_append (s ++ [a]) t n

/-- `f'` is `f` with the free node `n` put behind `a` on the list of `p`. -/
structure PutBehind (f f' : Forest) (p a n : NodeId) : Prop where
  size : f'.size = f.size
  isAlive : ∀ m, f'.isAlive m = f.isAlive m
  row : ∃ s t, f.children p = s ++ a :: t ∧ f'.children p = s ++ a :: n :: t
  other : ∀ q, q ≠ p → f'.children q = f.children q
  parent_self : f'.parent? n = some p
  parent_other : ∀ m, m ≠ n → f'.parent? m = f.parent? m
  recorded : ∀ m q, f'.recorded? m = some q → f.recorded? m = some q ∨ q = p

/-- A free node can be put behind every listed one. -/
theorem Tidy.insertAfter (ht : f.Tidy) (hn : n.index < f.size) (hfree : ∀ q, n ∉ f.children q)
    (ha : a ∈ f.children p) : ∃ f', f.insertAfter a n = (.ok (), f') ∧ f.PutBehind f' p a n := by
  have hp := ht.parent_of_mem a p ha
  have halive := isAlive_of_parent? hp
  have hlist (q : NodeId) : (f.unlink n).children q = f.children q := by
    rw [ht.children_unlink, List.erase_of_not_mem (hfree q)]
  obtain ⟨s, t, hst⟩ := List.append_of_mem ha
  have hs : a ∉ s := by
    intro hmem
    have hnd := ht.nodup p
    rw [hst, List.nodup_append] at hnd
    exact hnd.2.2 a hmem a List.mem_cons_self rfl
  have hidx : (f.children p).idxOf? a = some s.length := by
    rw [hst, idxOf?_split hs]
  refine ⟨(f.unlink n).place p (s.length + 1) n, ?_, ?_, ?_, ⟨s, t, hst, ?_⟩, ?_, ?_, ?_, ?_⟩
  · unfold Forest.insertAfter
    simp only [hp, hlist, hidx]
  · rw [size_place, size_unlink]
  · intro m
    rw [isAlive_place, isAlive_unlink]
  · rw [children_place_self (by rw [size_unlink]; exact lt_size_of_isAlive halive), hlist, hst,
      insertIdx_split]
  · intro q hq
    rw [children_place_of_ne _ _ _ hq, hlist]
  · refine parent?_place_self ?_ ?_ _
    · rw [size_unlink]
      exact hn
    · rw [isAlive_unlink]
      exact halive
  · intro m hm
    rw [parent?_place_of_ne _ _ hm, parent?_unlink_of_ne f hm]
  · intro m q hq
    exact (recorded?_of_place hq).imp_left recorded?_of_unlink

namespace PutBehind

variable (h : f.PutBehind f' p a n)

include h

theorem mem_children : n ∈ f'.children p := by
  obtain ⟨s, t, -, hst⟩ := h.row
  rw [hst]
  exact List.mem_append_right _ (List.mem_cons_of_mem _ List.mem_cons_self)

/-- The lists stay as they are, apart from the node that is put in. -/
theorem mem_children_iff (hm : m ≠ n) : m ∈ f'.children q ↔ m ∈ f.children q := by
  by_cases hq : q = p
  · subst hq
    obtain ⟨s, t, hst, hst'⟩ := h.row
    rw [hst, hst']
    simp only [List.mem_append, List.mem_cons, hm, false_or]
  · rw [h.other q hq]

theorem adopts : f.Adopts f' p n := ⟨h.parent_self, h.parent_other⟩

theorem transGen_cases (hout : ¬ ReflTransGen f.Up p n) {b : NodeId} (hb : TransGen f'.Up m b) :
    TransGen f.Up m b ∨ ReflTransGen f.Up m n ∧ ReflTransGen f.Up p b :=
  h.adopts.transGen_cases hout hb

/-- A forest stays tidy when a free node is put behind one that does not stand below it. -/
theorem tidy (ht : f.Tidy) (hfree : ∀ q, n ∉ f.children q) (hout : ¬ ReflTransGen f.Up p n) :
    f'.Tidy where
  parent_of_mem m q hm := by
    by_cases hmn : m = n
    · subst hmn
      by_cases hq : q = p
      · rw [hq]
        exact h.parent_self
      · rw [h.other q hq] at hm
        exact absurd hm (hfree q)
    · rw [h.parent_other m hmn]
      exact ht.parent_of_mem m q ((h.mem_children_iff hmn).1 hm)
  nodup q := by
    by_cases hq : q = p
    · subst hq
      obtain ⟨s, t, hst, hst'⟩ := h.row
      have hnd := ht.nodup q
      have hn := hfree q
      rw [hst] at hnd hn
      rw [hst']
      have hperm : (s ++ a :: n :: t).Perm (n :: (s ++ a :: t)) := by
        have hmove : (s ++ [a] ++ n :: t).Perm (n :: (s ++ [a] ++ t)) := List.perm_middle
        simpa using hmove
      exact hperm.nodup_iff.2 (List.nodup_cons.2 ⟨hn, hnd⟩)
    · rw [h.other q hq]
      exact ht.nodup q
  acyclic := h.adopts.acyclic ht.acyclic hout
  recorded_lt m q hq := by
    rw [h.size]
    rcases h.recorded m q hq with hold | rfl
    · exact ht.recorded_lt m q hold
    · obtain ⟨s, t, hst, -⟩ := h.row
      have ha : a ∈ f.children q := by
        rw [hst]
        exact List.mem_append_right _ List.mem_cons_self
      exact lt_size_of_mem_children ha

end PutBehind

/-! ## Ancestors -/

/-- A bounded climb that meets a node has climbed to it. -/
theorem reflTransGen_of_climbs {k : Nat} (h : f.climbs a k n = true) : ReflTransGen f.Up n a := by
  induction k generalizing n with
  | zero =>
    obtain rfl := beq_iff_eq.1 h
    exact .refl
  | succ k ih =>
    unfold climbs at h
    rcases Bool.or_eq_true_iff.1 h with h | h
    · obtain rfl := beq_iff_eq.1 h
      exact .refl
    · cases hp : f.parent? n with
      | none =>
        rw [hp] at h
        cases h
      | some p =>
        rw [hp] at h
        exact .head hp (ih h)

/-- Different nodes of a forest are not more than the forest has. -/
theorem length_le_size {ns : List NodeId} (hnd : ns.Nodup) (hlt : ∀ n ∈ ns, n.index < f.size) :
    ns.length ≤ f.size := by
  have hinj : Function.Injective NodeId.index := fun a b hab => by
    cases a
    cases b
    exact congrArg NodeId.mk hab
  have hsub : ns.map NodeId.index ⊆ List.range f.size := by
    intro k hk
    obtain ⟨n, hn, rfl⟩ := List.mem_map.1 hk
    exact List.mem_range.2 (hlt n hn)
  have hle := (List.subperm_of_subset ((List.nodup_map_iff hinj).2 hnd) hsub).length_le
  rwa [List.length_map, List.length_range] at hle

/-- Each node of a climb that does not end is a node not seen before, so the forest has more nodes than
there have been steps. -/
theorem lt_size_of_not_endsWithin (hacyclic : ∀ n, ¬ TransGen f.Up n n) {k : Nat} {seen : List NodeId}
    (hn : ¬ f.EndsWithin k n) (hnd : seen.Nodup)
    (hseen : ∀ v ∈ seen, v.index < f.size ∧ TransGen f.Up v n) : seen.length + k < f.size := by
  induction k generalizing n seen with
  | zero =>
    obtain ⟨p, hp⟩ := Option.ne_none_iff_exists'.1 hn
    have hmem : n ∉ seen := fun hn => hacyclic n (hseen n hn).2
    have hle := length_le_size (f := f) (List.nodup_cons.2 ⟨hmem, hnd⟩) fun v hv => by
      rcases List.mem_cons.1 hv with rfl | hv
      · exact lt_size_of_parent? hp
      · exact (hseen v hv).1
    rw [List.length_cons] at hle
    omega
  | succ k ih =>
    simp only [EndsWithin, not_forall] at hn
    obtain ⟨p, hp, hrest⟩ := hn
    have hmem : n ∉ seen := fun hn => hacyclic n (hseen n hn).2
    have hlt := ih hrest (List.nodup_cons.2 ⟨hmem, hnd⟩) fun v hv => by
      rcases List.mem_cons.1 hv with rfl | hv
      · exact ⟨lt_size_of_parent? hp, .single hp⟩
      · exact ⟨(hseen v hv).1, (hseen v hv).2.tail hp⟩
    rw [List.length_cons] at hlt
    omega

/-- Where climbing never comes back, it ends. -/
theorem endsWithin_size (hacyclic : ∀ n, ¬ TransGen f.Up n n) (n : NodeId) : f.EndsWithin f.size n := by
  by_contra hn
  have hlt := lt_size_of_not_endsWithin hacyclic hn List.nodup_nil fun v hv => by cases hv
  rw [List.length_nil] at hlt
  omega

/-- A climb that ends within its bound meets every ancestor. -/
theorem climbs_of_endsWithin {k : Nat} (hk : f.EndsWithin k n) (hup : ReflTransGen f.Up n a) :
    f.climbs a k n = true := by
  induction k generalizing n with
  | zero =>
    rcases ReflTransGen.cases_head hup with rfl | ⟨p, hp, -⟩
    · simp [climbs]
    · cases hk.symm.trans hp
  | succ k ih =>
    rcases ReflTransGen.cases_head hup with rfl | ⟨p, hp, hpa⟩
    · simp [climbs]
    · have hstep : f.parent? n = some p := hp
      have hrest := ih (hk p hp) hpa
      simp [climbs, hstep, hrest]

/-- Where climbing never comes back, the bounded climb finds every ancestor. -/
theorem isInclusiveAncestor_iff_of_acyclic (hacyclic : ∀ n, ¬ TransGen f.Up n n) :
    f.isInclusiveAncestor a n = true ↔ ReflTransGen f.Up n a :=
  ⟨reflTransGen_of_climbs, climbs_of_endsWithin (endsWithin_size hacyclic n)⟩

theorem Tidy.isInclusiveAncestor_iff (ht : f.Tidy) :
    f.isInclusiveAncestor a n = true ↔ ReflTransGen f.Up n a :=
  isInclusiveAncestor_iff_of_acyclic ht.acyclic

end ReactiveView.Forest
