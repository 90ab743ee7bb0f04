import ReactiveView.Proofs.Forest.Tidy

/-!
# What a sweep leaves in place

A sweep takes nodes out of use that nothing holds, and clears the lists of all nodes below them. A set of
nodes *stands* when each of its nodes is held or listed, and whatever lists one of its nodes belongs to
the set as well (`Stands`). A sweep leaves the lists of such a set as they are, adds nothing to any list,
and leaves the forest tidy (`Stands.sweep`).
-/

set_option autoImplicit false

namespace ReactiveView.Forest

open Relation

variable {f : Forest} {n m p q : NodeId} {dead ns : List NodeId}

/-! ## One round -/

theorem node?_foldl_modify (g : Node → Node) (hg : ∀ node, g (g node) = g node) (ns : List NodeId)
    (f : Forest) (m : NodeId) :
    (ns.foldl (fun f n => f.modify n g) f).node? m =
      if m ∈ ns then (f.node? m).map g else f.node? m := by
  induction ns generalizing f with
  | nil => rfl
  | cons n ns ih =>
    rw [List.foldl_cons, ih]
    by_cases hmn : m = n
    · subst hmn
      rw [node?_modify_self, if_pos List.mem_cons_self]
      cases f.node? m with
      | none => split <;> rfl
      | some node =>
        simp only [Option.map_some, hg]
        split <;> rfl
    · rw [node?_modify_of_ne f g hmn]
      simp only [List.mem_cons, hmn, false_or]

theorem size_foldl_modify (g : Node → Node) (ns : List NodeId) (f : Forest) :
    (ns.foldl (fun f n => f.modify n g) f).size = f.size := by
  induction ns generalizing f with
  | nil => rfl
  | cons n ns ih => rw [List.foldl_cons, ih, size_modify]

theorem size_release (f : Forest) (dead : List NodeId) : (f.release dead).size = f.size := by
  unfold release
  rw [size_foldl_modify, size_foldl_modify]

theorem size_sweep (held : NodeId → Bool) (fuel : Nat) (f : Forest) : (f.sweep held fuel).size = f.size := by
  induction fuel generalizing f with
  | zero => rfl
  | succ fuel ih =>
    unfold sweep
    split
    · rfl
    · rw [ih, size_release]

/-- The nodes that lose their children when nodes go out of use. -/
def belowAll (f : Forest) (dead : List NodeId) : List NodeId :=
  dead.flatMap (f.nodesBelow true f.size)

theorem node?_release (f : Forest) (dead : List NodeId) (m : NodeId) :
    (f.release dead).node? m = (f.node? m).map fun node => { node with
      alive := if m ∈ dead then false else node.alive
      children := if m ∈ f.belowAll dead then [] else node.children } := by
  unfold release
  dsimp only
  rw [node?_foldl_modify _ (by exact fun _ => rfl), node?_foldl_modify _ (by exact fun _ => rfl)]
  change (if m ∈ f.belowAll dead then _ else _) = _
  cases f.node? m with
  | none => split <;> split <;> rfl
  | some node => split <;> split <;> rfl

theorem children_release (f : Forest) (dead : List NodeId) (m : NodeId) :
    (f.release dead).children m = if m ∈ f.belowAll dead then [] else f.children m := by
  unfold children
  rw [node?_release]
  cases f.node? m with
  | none => simp
  | some node => rfl

theorem isAlive_release (f : Forest) (dead : List NodeId) (m : NodeId) :
    (f.release dead).isAlive m = (f.isAlive m && decide (m ∉ dead)) := by
  unfold isAlive
  rw [node?_release]
  cases f.node? m with
  | none => rfl
  | some node => by_cases hm : m ∈ dead <;> simp [hm]

theorem parent?_release (f : Forest) (dead : List NodeId) (m : NodeId) :
    (f.release dead).parent? m = (f.parent? m).filter fun p => decide (p ∉ dead) := by
  unfold parent?
  rw [node?_release]
  cases f.node? m with
  | none => rfl
  | some node =>
    have halive : (f.release dead).isAlive = fun p => f.isAlive p && decide (p ∉ dead) :=
      funext (isAlive_release f dead)
    simp only [Option.map_some, halive]
    rw [Option.filter_filter]

theorem recorded?_release (f : Forest) (dead : List NodeId) (m : NodeId) :
    (f.release dead).recorded? m = f.recorded? m := by
  unfold recorded?
  rw [node?_release]
  cases f.node? m <;> rfl

theorem recorded?_sweep (held : NodeId → Bool) (fuel : Nat) (f : Forest) (m : NodeId) :
    (f.sweep held fuel).recorded? m = f.recorded? m := by
  induction fuel generalizing f with
  | zero => rfl
  | succ fuel ih =>
    unfold sweep
    split
    · rfl
    · rw [ih, recorded?_release]

theorem mem_nodesBelow_self (f : Forest) (k : Nat) (n : NodeId) : n ∈ f.nodesBelow true k n := by
  cases k with
  | zero => exact List.mem_singleton_self n
  | succ k =>
    unfold nodesBelow
    split
    · exact List.mem_cons_self
    · exact List.mem_singleton_self n

theorem subset_belowAll (f : Forest) (dead : List NodeId) : dead ⊆ f.belowAll dead := by
  intro n hn
  exact List.mem_flatMap.2 ⟨n, hn, mem_nodesBelow_self f _ n⟩

/-- A property that goes from a child to what lists it goes up from every node below. -/
theorem of_mem_nodesBelow {Good : NodeId → Prop}
    (hup : ∀ n q, n ∈ f.children q → Good n → Good q) {k : Nat} (h : m ∈ f.nodesBelow true k n)
    (hm : Good m) : Good n := by
  induction k generalizing n with
  | zero =>
    obtain rfl := List.mem_singleton.1 h
    exact hm
  | succ k ih =>
    unfold nodesBelow at h
    cases hnode : f.node? n with
    | none =>
      rw [hnode] at h
      obtain rfl := List.mem_singleton.1 h
      exact hm
    | some node =>
      rw [hnode] at h
      rcases List.mem_cons.1 h with rfl | h
      · exact hm
      · -- the walk enters elements that stand apart as well
        have hall : m ∈ node.children.flatMap (f.nodesBelow true k) := by
          cases hk : node.kind <;> simpa only [hk, Bool.true_or, if_true] using h
        obtain ⟨child, hchild, hbelow⟩ := List.mem_flatMap.1 hall
        refine hup child n ?_ (ih hbelow)
        rw [children_of_node hnode]
        exact hchild

/-! ## All rounds -/

/-- Every node of the set is held or listed, and what lists one of them belongs to the set. -/
structure Stands (f : Forest) (held : NodeId → Bool) (Good : NodeId → Prop) : Prop where
  kept : ∀ n, Good n → held n = true ∨ ∃ q, n ∈ f.children q
  up : ∀ n q, n ∈ f.children q → Good n → Good q

/-- The lists of the set are the same, and no list has grown. -/
structure Prunes (f f' : Forest) (Good : NodeId → Prop) : Prop where
  size : f'.size = f.size
  tidy : f'.Tidy
  good : ∀ n, Good n → f'.children n = f.children n
  subset : ∀ q, f'.children q ⊆ f.children q

variable {held : NodeId → Bool} {Good : NodeId → Prop}

/-- A round in which no node of the set goes out of use. -/
theorem Stands.release (h : f.Stands held Good) (ht : f.Tidy) (dead : List NodeId)
    (hdead : ∀ n ∈ dead, ¬ Good n) :
    f.Prunes (f.release dead) Good where
  size := size_release f dead
  tidy := by
    have hmem (n p : NodeId) (hn : n ∈ (f.release dead).children p) :
        n ∈ f.children p ∧ p ∉ dead := by
      rw [children_release] at hn
      split at hn
      · cases hn
      · next hp => exact ⟨hn, fun hpd => hp (subset_belowAll f dead hpd)⟩
    have hsize : (f.release dead).size = f.size :=
      size_release f dead
    refine ⟨fun n p hn => ?_, fun p => ?_, fun n hn => ?_, fun n p hp => ?_⟩
    · obtain ⟨hn, hp⟩ := hmem n p hn
      rw [parent?_release, ht.parent_of_mem n p hn]
      simp [hp]
    · rw [children_release]
      split
      · exact List.nodup_nil
      · exact ht.nodup p
    · refine ht.acyclic n (TransGen.mono (fun a b hab => ?_) _ _ hn)
      unfold Up at hab
      rw [parent?_release] at hab
      exact (Option.filter_eq_some_iff.1 hab).1
    · rw [hsize]
      refine ht.recorded_lt n p ?_
      unfold recorded? at hp ⊢
      rw [node?_release] at hp
      obtain ⟨node, hnode, hpar⟩ := Option.bind_eq_some_iff.1 hp
      obtain ⟨node', hnode', rfl⟩ := Option.map_eq_some_iff.1 hnode
      rw [hnode']
      exact hpar
  good n hn := by
    rw [children_release, if_neg]
    intro hbelow
    obtain ⟨d, hd, hnd⟩ := List.mem_flatMap.1 hbelow
    exact hdead d hd (of_mem_nodesBelow h.up hnd hn)
  subset q := by
    rw [children_release]
    split
    · exact List.nil_subset _
    · exact List.Subset.refl _

theorem Stands.not_mem_unheld (h : f.Stands held Good) (ht : f.Tidy) (hn : Good n) :
    n ∉ f.unheld held := by
  intro hmem
  obtain ⟨-, htest⟩ := List.mem_filter.1 hmem
  simp only [Bool.and_eq_true, Bool.not_eq_true', Bool.or_eq_false_iff] at htest
  obtain ⟨-, hlisted, hheld⟩ := htest
  rcases h.kept n hn with hk | ⟨q, hq⟩
  · rw [hk] at hheld
    cases hheld
  · unfold isListed at hlisted
    rw [ht.parent_of_mem n q hq] at hlisted
    have hcontains : (f.children q).contains n = false := hlisted
    rw [List.contains_iff_mem.2 hq] at hcontains
    cases hcontains

theorem Stands.congr {f' : Forest} (h : f.Stands held Good) (hp : f.Prunes f' Good) :
    f'.Stands held Good where
  kept n hn := by
    rcases h.kept n hn with hk | ⟨q, hq⟩
    · exact Or.inl hk
    · refine Or.inr ⟨q, ?_⟩
      rw [hp.good q (h.up n q hq hn)]
      exact hq
  up n q hn := h.up n q (hp.subset q hn)

/-- A sweep leaves the lists of a set that stands. -/
theorem Stands.sweep (h : f.Stands held Good) (ht : f.Tidy) (fuel : Nat) :
    f.Prunes (f.sweep held fuel) Good := by
  induction fuel generalizing f with
  | zero => exact ⟨rfl, ht, fun _ _ => rfl, fun _ => List.Subset.refl _⟩
  | succ fuel ih =>
    unfold Forest.sweep
    split
    · exact ⟨rfl, ht, fun _ _ => rfl, fun _ => List.Subset.refl _⟩
    · next hdead =>
      have hround := h.release ht (f.unheld held) fun n hn hgood =>
        h.not_mem_unheld ht hgood hn
      have hrest := ih (h.congr hround) hround.tidy
      exact ⟨hrest.size.trans hround.size, hrest.tidy,
        fun n hn => (hrest.good n hn).trans (hround.good n hn),
        fun q => List.Subset.trans (hrest.subset q) (hround.subset q)⟩

end ReactiveView.Forest
