import ReactiveView.Proofs.Forest.Tidy

/-!
# Forests that grow

A live view is planted node by node into a forest: a node is added, and later made the last child of one
that was added before it. `Forest.Grown` says what holds of the forest all along, compared to the forest at
the beginning: what was there is as it was, and added nodes know added parents with smaller numbers. That
the numbers decrease is why no cycle comes up, so a grown forest is tidy if the first one was
(`Grown.tidy`). `Forest.Grows` compares two moments on the way: lists have become longer, and what was
there knows the parent it knew.
-/

set_option autoImplicit false

namespace ReactiveView.Forest

open Relation

variable {f₀ f f' : Forest} {n m p q : NodeId}

/-! ## Adding a node -/

theorem node?_create_of_ne (f : Forest) (kind : NodeKind) (h : m.index ≠ f.size) :
    (f.create kind).2.node? m = f.node? m := by
  unfold create node? Table.get? Table.push
  dsimp only
  rw [Array.getElem?_push]
  exact if_neg h

theorem size_create (f : Forest) (kind : NodeKind) : (f.create kind).2.size = f.size + 1 := by
  simp [create, size, Table.size, Table.push]

/-- A look-up that finds nothing at a new node answers as before. -/
theorem node?_bind_create {α : Type} (f : Forest) (kind : NodeKind) (g : Node → Option α)
    (hg : g { kind := kind } = none) (m : NodeId) :
    ((f.create kind).2.node? m).bind g = (f.node? m).bind g := by
  by_cases hm : m.index = f.size
  · have hnew : (f.create kind).1 = m := by
      cases m
      exact congrArg NodeId.mk hm.symm
    have hnone : f.node? m = none := node?_eq_none_iff.2 (Nat.le_of_eq hm.symm)
    rw [hnone, ← hnew, node?_create, Option.bind_some, hg, Option.bind_none]
  · rw [node?_create_of_ne f kind hm]

theorem recorded?_create (f : Forest) (kind : NodeKind) (m : NodeId) :
    (f.create kind).2.recorded? m = f.recorded? m :=
  node?_bind_create f kind _ rfl m

theorem children_create (f : Forest) (kind : NodeKind) (m : NodeId) :
    (f.create kind).2.children m = f.children m := by
  have hlist (g : Forest) : g.children m =
      ((g.node? m).bind fun node => if node.children = [] then none else some node.children).getD [] := by
    unfold children
    cases g.node? m with
    | none => rfl
    | some node =>
      by_cases hc : node.children = []
      · simp only [Option.bind_some, if_pos hc, Option.getD_none]
        exact hc
      · simp only [Option.bind_some, if_neg hc, Option.getD_some]
  rw [hlist, hlist, node?_bind_create f kind _ (if_pos (Eq.refl _))]

theorem isAlive_create_of_lt (f : Forest) (kind : NodeKind) (h : m.index < f.size) :
    (f.create kind).2.isAlive m = f.isAlive m := by
  unfold isAlive
  rw [node?_create_of_ne f kind (Nat.ne_of_lt h)]

theorem isAlive_create_self (f : Forest) (kind : NodeKind) :
    (f.create kind).2.isAlive (f.create kind).1 = true := by
  unfold isAlive
  rw [node?_create]

/-! ## Appending a node -/

/-- `f'` is `f` with the node `n`, which had no parent, as the last child of `p`. -/
structure Appended (f f' : Forest) (p n : NodeId) : Prop where
  size : f'.size = f.size
  isAlive : ∀ m, f'.isAlive m = f.isAlive m
  row : f'.children p = f.children p ++ [n]
  other : ∀ q, q ≠ p → f'.children q = f.children q
  recorded_self : f'.recorded? n = some p
  recorded_other : ∀ m, m ≠ n → f'.recorded? m = f.recorded? m

theorem Appended.children_subset (h : f.Appended f' p n) (q : NodeId) :
    f.children q ⊆ f'.children q := by
  by_cases hq : q = p
  · subst hq
    rw [h.row]
    exact List.subset_append_left _ _
  · rw [h.other q hq]
    exact List.Subset.refl _

theorem appended_append (hn : n.index < f.size) (hp : p.index < f.size) (hfree : f.recorded? n = none) :
    f.Appended (f.append p n) p n := by
  have hparent : f.parent? n = none := by
    rw [parent?_eq, hfree]
    rfl
  have hunlink : f.unlink n = f.modify n fun node => { node with parent := none } := by
    unfold unlink
    rw [hparent]
  have hlist (q : NodeId) : (f.unlink n).children q = f.children q := by
    rw [children_unlink, hparent, if_neg (fun h => by cases h)]
  have hsize : (f.unlink n).size = f.size := size_unlink f n
  unfold append
  dsimp only
  refine ⟨?_, ?_, ?_, ?_, ?_, ?_⟩
  · rw [size_place, hsize]
  · intro m
    rw [isAlive_place, isAlive_unlink]
  · rw [children_place_self (by rw [hsize]; exact hp), hlist, List.insertIdx_length_self]
  · intro q hq
    rw [children_place_of_ne _ _ _ hq, hlist]
  · unfold place
    rw [recorded?_modify (Or.inr (by exact fun _ => rfl))]
    obtain ⟨node, hnode⟩ := exists_node?_of_lt (f := f.unlink n) (by rw [hsize]; exact hn)
    unfold recorded?
    rw [node?_modify_self, hnode]
    rfl
  · intro m hm
    unfold place
    rw [recorded?_modify (Or.inr (by exact fun _ => rfl)), recorded?_modify (Or.inl hm), hunlink,
      recorded?_modify (Or.inl hm)]

/-! ## Compared to the beginning -/

/-- `f` has grown out of `f₀`. -/
structure Grown (f₀ f : Forest) : Prop where
  size_le : f₀.size ≤ f.size
  old_children : ∀ n, n.index < f₀.size → f.children n = f₀.children n
  old_recorded : ∀ n, n.index < f₀.size → f.recorded? n = f₀.recorded? n
  old_alive : ∀ n, n.index < f₀.size → f.isAlive n = f₀.isAlive n
  new_alive : ∀ n, f₀.size ≤ n.index → n.index < f.size → f.isAlive n = true
  new_recorded : ∀ n p, f₀.size ≤ n.index → f.recorded? n = some p →
    f₀.size ≤ p.index ∧ p.index < n.index
  new_listed : ∀ n p, f₀.size ≤ p.index → n ∈ f.children p → f.recorded? n = some p
  new_nodup : ∀ p, f₀.size ≤ p.index → (f.children p).Nodup

theorem recorded?_eq_none_of_le (h : f.size ≤ n.index) : f.recorded? n = none := by
  unfold recorded?
  rw [node?_eq_none_iff.2 h]
  rfl

theorem children_eq_nil_of_le (h : f.size ≤ n.index) : f.children n = [] := by
  unfold children
  rw [node?_eq_none_iff.2 h]

namespace Grown

theorem rfl : f.Grown f where
  size_le := Nat.le_refl _
  old_children _ _ := .refl _
  old_recorded _ _ := .refl _
  old_alive _ _ := .refl _
  new_alive _ hle hlt := absurd hlt (Nat.not_lt.2 hle)
  new_recorded n p hn hp := by
    rw [recorded?_eq_none_of_le hn] at hp
    cases hp
  new_listed n p hp hn := by
    rw [children_eq_nil_of_le hp] at hn
    cases hn
  new_nodup p hp := by
    rw [children_eq_nil_of_le hp]
    exact List.nodup_nil

variable (h : f₀.Grown f)

include h

theorem sameLinks (hl : f.SameLinks f') : f₀.Grown f' where
  size_le := by
    rw [hl.size]
    exact h.size_le
  old_children n hn := (hl.children n).trans (h.old_children n hn)
  old_recorded n hn := (hl.recorded? n).trans (h.old_recorded n hn)
  old_alive n hn := (hl.isAlive n).trans (h.old_alive n hn)
  new_alive n hle hlt := by
    rw [hl.size] at hlt
    rw [hl.isAlive]
    exact h.new_alive n hle hlt
  new_recorded n p hn hp := by
    rw [hl.recorded?] at hp
    exact h.new_recorded n p hn hp
  new_listed n p hp hn := by
    rw [hl.children] at hn
    rw [hl.recorded?]
    exact h.new_listed n p hp hn
  new_nodup p hp := by
    rw [hl.children]
    exact h.new_nodup p hp

theorem create (kind : NodeKind) : f₀.Grown (f.create kind).2 where
  size_le := by
    rw [size_create]
    exact Nat.le_succ_of_le h.size_le
  old_children n hn := (children_create f kind n).trans (h.old_children n hn)
  old_recorded n hn := (recorded?_create f kind n).trans (h.old_recorded n hn)
  old_alive n hn :=
    (isAlive_create_of_lt f kind (Nat.lt_of_lt_of_le hn h.size_le)).trans (h.old_alive n hn)
  new_alive n hle hlt := by
    rw [size_create] at hlt
    rcases Nat.lt_succ_iff_lt_or_eq.1 hlt with hlt | heq
    · rw [isAlive_create_of_lt f kind hlt]
      exact h.new_alive n hle hlt
    · have hnew : (f.create kind).1 = n := by
        cases n
        exact congrArg NodeId.mk heq.symm
      rw [← hnew]
      exact isAlive_create_self f kind
  new_recorded n p hn hp := by
    rw [recorded?_create] at hp
    exact h.new_recorded n p hn hp
  new_listed n p hp hn := by
    rw [children_create] at hn
    rw [recorded?_create]
    exact h.new_listed n p hp hn
  new_nodup p hp := by
    rw [children_create]
    exact h.new_nodup p hp

theorem append (hp : f₀.size ≤ p.index) (hpn : p.index < n.index) (hfree : f.recorded? n = none)
    (ha : f.Appended f' p n) : f₀.Grown f' where
  size_le := by
    rw [ha.size]
    exact h.size_le
  old_children m hm := by
    rw [ha.other m (by rintro rfl; omega)]
    exact h.old_children m hm
  old_recorded m hm := by
    rw [ha.recorded_other m (by rintro rfl; omega)]
    exact h.old_recorded m hm
  old_alive m hm := (ha.isAlive m).trans (h.old_alive m hm)
  new_alive m hle hlt := by
    rw [ha.size] at hlt
    rw [ha.isAlive]
    exact h.new_alive m hle hlt
  new_recorded m q hm hq := by
    by_cases hmn : m = n
    · subst hmn
      obtain rfl := Option.some.inj (ha.recorded_self.symm.trans hq)
      exact ⟨hp, hpn⟩
    · rw [ha.recorded_other m hmn] at hq
      exact h.new_recorded m q hm hq
  new_listed m q hq hm := by
    have hlisted (hm : m ∈ f.children q) : m ≠ n ∧ f'.recorded? m = some q := by
      have hrec := h.new_listed m q hq hm
      have hmn : m ≠ n := by
        rintro rfl
        rw [hfree] at hrec
        cases hrec
      exact ⟨hmn, (ha.recorded_other m hmn).trans hrec⟩
    by_cases hqp : q = p
    · subst hqp
      rw [ha.row] at hm
      rcases List.mem_append.1 hm with hm | hm
      · exact (hlisted hm).2
      · obtain rfl := List.mem_singleton.1 hm
        exact ha.recorded_self
    · rw [ha.other q hqp] at hm
      exact (hlisted hm).2
  new_nodup q hq := by
    by_cases hqp : q = p
    · subst hqp
      rw [ha.row]
      refine List.nodup_append.2 ⟨h.new_nodup q hq, List.nodup_singleton n, ?_⟩
      rintro a hmem b hb rfl
      obtain rfl := List.mem_singleton.1 hb
      rw [h.new_listed a q hq hmem] at hfree
      cases hfree
    · rw [ha.other q hqp]
      exact h.new_nodup q hq

/-! ### A grown forest is tidy -/

theorem parent?_old (ht : f₀.Tidy) (hn : n.index < f₀.size) : f.parent? n = f₀.parent? n := by
  rw [parent?_eq, parent?_eq, h.old_recorded n hn]
  cases hp : f₀.recorded? n with
  | none => rfl
  | some p =>
    simp only [Option.filter_some, h.old_alive p (ht.recorded_lt n p hp)]

theorem parent?_new (hn : f₀.size ≤ n.index) : f.parent? n = f.recorded? n := by
  rw [parent?_eq]
  cases hp : f.recorded? n with
  | none => rfl
  | some p =>
    obtain ⟨hle, hlt⟩ := h.new_recorded n p hn hp
    have hnf : n.index < f.size := by
      by_contra hge
      rw [recorded?_eq_none_of_le (Nat.not_lt.1 hge)] at hp
      cases hp
    rw [Option.filter_some, h.new_alive p hle (Nat.lt_trans hlt hnf), if_pos (Eq.refl true)]

/-- Climbing from a new node leads to new nodes with ever smaller numbers. -/
theorem lt_of_transGen (hn : f₀.size ≤ n.index) (hup : TransGen f.Up n m) :
    f₀.size ≤ m.index ∧ m.index < n.index := by
  have step {a b : NodeId} (ha : f₀.size ≤ a.index) (hab : f.Up a b) :
      f₀.size ≤ b.index ∧ b.index < a.index :=
    h.new_recorded a b ha ((h.parent?_new ha).symm.trans hab)
  induction hup with
  | single hab => exact step hn hab
  | tail _ hab ih =>
    obtain ⟨hle, hlt⟩ := step ih.1 hab
    exact ⟨hle, Nat.lt_trans hlt ih.2⟩

/-- Climbing from an old node goes as it did. -/
theorem transGen_old (ht : f₀.Tidy) (hn : n.index < f₀.size) (hup : TransGen f.Up n m) :
    m.index < f₀.size ∧ TransGen f₀.Up n m := by
  have step {a b : NodeId} (ha : a.index < f₀.size) (hab : f.Up a b) :
      b.index < f₀.size ∧ f₀.Up a b := by
    have hold : f₀.Up a b := (h.parent?_old ht ha).symm.trans hab
    exact ⟨lt_size_of_isAlive (isAlive_of_parent? hold), hold⟩
  induction hup with
  | single hab =>
    obtain ⟨hlt, hold⟩ := step hn hab
    exact ⟨hlt, .single hold⟩
  | tail _ hab ih =>
    obtain ⟨hlt, hold⟩ := step ih.1 hab
    exact ⟨hlt, ih.2.tail hold⟩

/-- A forest that has grown out of a tidy one is tidy. -/
theorem tidy (ht : f₀.Tidy) : f.Tidy where
  parent_of_mem n p hn := by
    rcases Nat.lt_or_ge p.index f₀.size with hp | hp
    · rw [h.old_children p hp] at hn
      have hold := ht.parent_of_mem n p hn
      rw [h.parent?_old ht (lt_size_of_parent? hold), hold]
    · have hrec := h.new_listed n p hp hn
      rcases Nat.lt_or_ge n.index f₀.size with hlt | hge
      · rw [h.old_recorded n hlt] at hrec
        exact absurd (ht.recorded_lt n p hrec) (Nat.not_lt.2 hp)
      · rw [h.parent?_new hge, hrec]
  nodup p := by
    rcases Nat.lt_or_ge p.index f₀.size with hp | hp
    · rw [h.old_children p hp]
      exact ht.nodup p
    · exact h.new_nodup p hp
  acyclic n hn := by
    rcases Nat.lt_or_ge n.index f₀.size with hlt | hge
    · exact ht.acyclic n (h.transGen_old ht hlt hn).2
    · exact Nat.lt_irrefl _ (h.lt_of_transGen hge hn).2
  recorded_lt n p hp := by
    rcases Nat.lt_or_ge n.index f₀.size with hlt | hge
    · rw [h.old_recorded n hlt] at hp
      exact Nat.lt_of_lt_of_le (ht.recorded_lt n p hp) h.size_le
    · have hnf : n.index < f.size := by
        by_contra hle
        rw [recorded?_eq_none_of_le (Nat.not_lt.1 hle)] at hp
        cases hp
      exact Nat.lt_trans (h.new_recorded n p hge hp).2 hnf

end Grown

/-! ## Compared to a moment before -/

/-- A node stands on the list of another one. -/
def Listed (f : Forest) (n p : NodeId) : Prop := n ∈ f.children p

/-- Lists have become longer, and what was there knows the parent it knew. -/
structure Grows (f f' : Forest) : Prop where
  size_le : f.size ≤ f'.size
  children : ∀ q, f.children q ⊆ f'.children q
  recorded : ∀ n, n.index < f.size → f'.recorded? n = f.recorded? n

namespace Grows

theorem rfl : f.Grows f := ⟨Nat.le_refl _, fun _ => List.Subset.refl _, fun _ _ => .refl _⟩

theorem trans {g h : Forest} (hfg : f.Grows g) (hgh : g.Grows h) : f.Grows h where
  size_le := Nat.le_trans hfg.size_le hgh.size_le
  children q := List.Subset.trans (hfg.children q) (hgh.children q)
  recorded n hn :=
    (hgh.recorded n (Nat.lt_of_lt_of_le hn hfg.size_le)).trans (hfg.recorded n hn)

theorem of_sameLinks (hl : f.SameLinks f') : f.Grows f' where
  size_le := Nat.le_of_eq hl.size.symm
  children q := by
    rw [hl.children]
    exact List.Subset.refl _
  recorded n _ := hl.recorded? n

theorem create (f : Forest) (kind : NodeKind) : f.Grows (f.create kind).2 where
  size_le := by
    rw [size_create]
    exact Nat.le_succ _
  children q := by
    rw [children_create]
    exact List.Subset.refl _
  recorded n _ := recorded?_create f kind n

/-- Appending a node that was not there at the earlier moment. -/
theorem append {g : Forest} (h : f.Grows g) (hn : f.size ≤ n.index) (ha : g.Appended f' p n) :
    f.Grows f' where
  size_le := ha.size ▸ h.size_le
  children q := List.Subset.trans (h.children q) (ha.children_subset q)
  recorded m hm := by
    rw [ha.recorded_other m (by rintro rfl; omega)]
    exact h.recorded m hm

theorem listed (h : f.Grows f') (hl : ReflTransGen f.Listed n m) : ReflTransGen f'.Listed n m :=
  ReflTransGen.mono (fun _ q hab => h.children q hab) _ _ hl

end Grows

end ReactiveView.Forest
