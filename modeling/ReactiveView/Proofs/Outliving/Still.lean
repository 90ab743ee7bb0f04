import ReactiveView.Proofs.Closed.Sessions

/-!
# Worlds with nothing left to let go of

Settling takes out of use whatever nothing holds. It ends when nothing of the kind is left, so settling once
more changes nothing (`World.settle_settle`): the worlds that settling leaves as they are are those in which no
namespace, no instance, no collection and no node in use is held by nothing (`World.settle_eq_iff`). None comes to be
held by nothing while what was held is held on (`World.HoldsOn`).
-/

set_option autoImplicit false

namespace ReactiveView

namespace Forest

variable {f : Forest} {held : NodeId → Bool} {n : NodeId}

theorem lt_size_of_mem_unheld (h : n ∈ f.unheld held) : f.isAlive n = true ∧ n.index < f.size := by
  obtain ⟨-, htest⟩ := List.mem_filter.1 h
  obtain ⟨halive, -⟩ := Bool.and_eq_true_iff.1 htest
  exact ⟨halive, lt_size_of_isAlive halive⟩

/-- The number of nodes in use. -/
def inUse (f : Forest) : Nat := ((Finset.range f.size).filter fun k => f.isAlive ⟨k⟩ = true).card

theorem inUse_le_size (f : Forest) : f.inUse ≤ f.size := by
  have hle := Finset.card_filter_le (Finset.range f.size) fun k => f.isAlive ⟨k⟩ = true
  rwa [Finset.card_range] at hle

/-- A round in which a node goes out of use leaves fewer in use. -/
theorem inUse_release_lt {dead : List NodeId} (hn : n ∈ dead) (halive : f.isAlive n = true) :
    (f.release dead).inUse < f.inUse := by
  unfold inUse
  rw [size_release]
  have hsub : ((Finset.range f.size).filter fun k => (f.release dead).isAlive ⟨k⟩ = true) ⊆
      (Finset.range f.size).filter fun k => f.isAlive ⟨k⟩ = true := by
    refine Finset.monotone_filter_right _ fun k _ hk => ?_
    rw [isAlive_release, Bool.and_eq_true] at hk
    exact hk.1
  refine Finset.card_lt_card (Finset.ssubset_iff_of_subset hsub |>.2 ⟨n.index, ?_, fun hmem => ?_⟩)
  · exact Finset.mem_filter.2 ⟨Finset.mem_range.2 (lt_size_of_isAlive halive), halive⟩
  · have hdead := (Finset.mem_filter.1 hmem).2
    rw [isAlive_release, decide_eq_false (not_not.2 hn), Bool.and_false] at hdead
    cases hdead

/-- With enough rounds a sweep leaves no node in use that nothing holds. -/
theorem unheld_sweep {fuel : Nat} (hfuel : f.inUse < fuel) : (f.sweep held fuel).unheld held = [] := by
  induction fuel generalizing f with
  | zero => omega
  | succ fuel ih =>
    unfold sweep
    split
    · next hnone => exact hnone
    · next hne =>
      obtain ⟨n, hn⟩ := List.exists_mem_of_ne_nil _ hne
      have hlt := inUse_release_lt hn (lt_size_of_mem_unheld hn).1
      exact ih (by omega)

theorem sweep_of_unheld (h : f.unheld held = []) (fuel : Nat) : f.sweep held fuel = f := by
  cases fuel with
  | zero => rfl
  | succ fuel =>
    unfold sweep
    rw [h]

end Forest

namespace World

variable {w : World}

theorem mem_liveInstances_iff {x : Instance} : x ∈ w.liveInstances ↔ ∃ i, w.inst? i = some x ∧ x.alive = true := by
  constructor
  · intro hx
    obtain ⟨hmem, halive⟩ := List.mem_filter.1 hx
    obtain ⟨n, hn⟩ := exists_get?_of_mem hmem
    exact ⟨⟨n⟩, hn, halive⟩
  · rintro ⟨i, hx, halive⟩
    exact List.mem_filter.2 ⟨Array.mem_toList_iff.2 (Array.mem_of_getElem? hx), halive⟩

/-- Settling leaves no node in use that nothing holds. -/
theorem unheld_settle (w : World) : w.settle.forest.unheld w.settle.heldNodes.contains = [] := by
  unfold World.settle
  dsimp only
  generalize w.idleSpaces.foldl (fun w n => w.modifySpace n fun ns => { ns with alive := false }) w = w₁
  generalize w₁.dropIdle (w₁.instances.size + w₁.collections.size + 1) = w₂
  exact Forest.unheld_sweep (Nat.lt_succ_of_le (Forest.inUse_le_size w₂.forest))

/-- Settling changes nothing if and only if everything in use is held by something. -/
theorem settle_eq_iff : w.settle = w ↔ w.idleSpaces = [] ∧ w.idleInstances = [] ∧ w.idleCollections = [] ∧
    w.forest.unheld w.heldNodes.contains = [] := by
  constructor
  · intro h
    have hidle := idle_settle w
    have hspaces := idleSpaces_settle w
    have hnodes := unheld_settle w
    rw [h] at hidle hspaces hnodes
    exact ⟨hspaces, hidle.1, hidle.2, hnodes⟩
  · rintro ⟨hspaces, his, hcs, hnodes⟩
    unfold World.settle
    rw [hspaces]
    dsimp only [List.foldl_nil]
    have hdrop : w.dropIdle (w.instances.size + w.collections.size + 1) = w := by
      unfold World.dropIdle
      rw [his, hcs]
    rw [hdrop]
    have hsweep := Forest.sweep_of_unheld hnodes (w.forest.size + 1)
    exact congrArg (fun f => w.mapForest fun _ => f) hsweep

/-- Settling once more changes nothing. -/
theorem settle_settle (w : World) : w.settle.settle = w.settle :=
  settle_eq_iff.2 ⟨idleSpaces_settle w, (idle_settle w).1, (idle_settle w).2, unheld_settle w⟩

/-! ## What is held stays held -/

/-- Nothing comes into use, and what was held still is. -/
structure HoldsOn (w w' : World) : Prop where
  spaces : w'.spaces = w.spaces
  registry : w'.registry = w.registry
  pins : w.pins ⊆ w'.pins
  coll : ∀ k, (w'.coll? k).map (fun x => (x.owner, x.alive)) = (w.coll? k).map fun x => (x.owner, x.alive)
  alive : ∀ i, w.isAlive i = true → w'.isAlive i = true
  nodes : w.heldNodes ⊆ w'.heldNodes
  inUse : ∀ n, w'.forest.isAlive n = w.forest.isAlive n
  listed : ∀ n, n ∉ w.heldNodes → w'.forest.isListed n = w.forest.isListed n

namespace HoldsOn

variable {w' : World} (h : w.HoldsOn w')

include h

/-- A collection that is idle was idle before. -/
theorem idleCollections_subset : w'.idleCollections ⊆ w.idleCollections := by
  intro k hk
  obtain ⟨-, htest⟩ := List.mem_filter.1 hk
  cases hy : w'.coll? k with
  | none =>
    rw [hy] at htest
    cases htest
  | some y =>
    have hsame := h.coll k
    rw [hy, Option.map_some] at hsame
    obtain ⟨x, hx, hxy⟩ := Option.map_eq_some_iff.1 hsame.symm
    obtain ⟨howner, halive⟩ := Prod.mk.inj hxy
    rw [hy] at htest
    refine List.mem_filter.2 ⟨List.mem_map.2 ⟨k.index, List.mem_range.2 (index_lt_of_coll? hx), rfl⟩, ?_⟩
    rw [hx]
    dsimp only at htest ⊢
    rw [Bool.and_eq_true, Bool.not_eq_true'] at htest ⊢
    refine ⟨halive.trans htest.1, ?_⟩
    have hnot := htest.2
    unfold holdsCollection at hnot ⊢
    rw [h.registry, ← howner] at hnot
    simp only [Bool.or_eq_false_iff, List.contains_eq_mem, decide_eq_false_iff_not] at hnot ⊢
    refine ⟨⟨Bool.eq_false_iff.2 fun hP => ?_, fun hpin => hnot.1.2 (h.pins hpin)⟩, hnot.2⟩
    rw [h.alive _ hP] at hnot
    cases hnot.1.1

/-- A namespace that is idle was idle before. -/
theorem idleSpaces_subset : w'.idleSpaces ⊆ w.idleSpaces := by
  intro n hn
  obtain ⟨halive, hidle⟩ := mem_idleSpaces.1 hn
  unfold space? at halive
  rw [h.spaces] at halive
  refine mem_idleSpaces.2 ⟨halive, ?_⟩
  unfold holdsSpace at hidle ⊢
  rw [h.registry] at hidle
  simp only [Bool.or_eq_false_iff, List.contains_eq_mem, decide_eq_false_iff_not] at hidle ⊢
  exact ⟨fun hpin => hidle.1 (h.pins hpin), hidle.2⟩

/-- A node that nothing holds was held by nothing before. -/
theorem unheld_subset : w'.forest.unheld w'.heldNodes.contains ⊆ w.forest.unheld w.heldNodes.contains := by
  intro n hn
  obtain ⟨-, htest⟩ := List.mem_filter.1 hn
  simp only [Bool.and_eq_true, Bool.not_eq_true', Bool.or_eq_false_iff, List.contains_eq_mem,
    decide_eq_false_iff_not] at htest
  obtain ⟨halive, hlisted, hheld⟩ := htest
  rw [h.inUse] at halive
  have hnot : n ∉ w.heldNodes := fun hmem => hheld (h.nodes hmem)
  rw [h.listed n hnot] at hlisted
  refine List.mem_filter.2 ⟨List.mem_map.2 ⟨n.index, List.mem_range.2 (Forest.lt_size_of_isAlive halive), rfl⟩, ?_⟩
  simp only [Bool.and_eq_true, Bool.not_eq_true', Bool.or_eq_false_iff, List.contains_eq_mem,
    decide_eq_false_iff_not]
  exact ⟨halive, hlisted, hnot⟩

end HoldsOn

end World

end ReactiveView
