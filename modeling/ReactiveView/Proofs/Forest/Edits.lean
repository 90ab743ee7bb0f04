import ReactiveView.Proofs.Forest.Tidy

/-!
# Edits of a well-formed forest

A forest is well-formed when a node in use lists exactly the nodes whose parent it is, each of them once, and
parents have no cycle (`wellFormed_iff`). The bounded climb of `isInclusiveAncestor` then finds every ancestor
(`WellFormed.isInclusiveAncestor_iff`).

The edits of a forest are `append`, `insertAfter`, `insertBefore` and `unlink`. Each takes a node out of its
place and may then list it somewhere else. Both steps keep a forest well-formed: the first one always
(`WellFormed.unlink`), the second one if the new place is not below the node (`WellFormed.place`). The two
together move one node and leave all others in the order in which they stood (`WellFormed.moved_place`).

An edit *fits* when the nodes that it names are in use and the node that it moves is not, and does not stand
above, the one that it is put under or beside (`Edit.Fits`). Edits that fit keep a forest well-formed, one
after another, and each one that succeeds moves its node to the place that it names
(`wellFormed_of_reaches`). Trees that are built from the top always fit: a node without a parent can take
every other node (`Edit.fits_append`).

The two insertions are one operation that is told the side (`insertBeside`). In a well-formed forest it is
refused in two cases only (`insertBeside_eq_error_iff`): beside a node without a parent, and then nothing has
changed; and beside the node itself, which has been taken out of its place by then.
-/

set_option autoImplicit false

namespace ReactiveView.Forest

open Relation

variable {f f' f₀ : Forest} {n m p q a : NodeId}

/-! ## What well-formedness says -/

/-- A climb that ends comes to no node a second time. -/
theorem EndsWithin.not_transGen {k : Nat} (hk : f.EndsWithin k n) : ¬ TransGen f.Up n n := by
  induction k generalizing n with
  | zero =>
    intro hn
    obtain ⟨p, hp, -⟩ := TransGen.head'_iff.1 hn
    cases hk.symm.trans hp
  | succ k ih =>
    intro hn
    obtain ⟨p, hp, hpn⟩ := TransGen.head'_iff.1 hn
    -- the climb that comes back to `n` comes back to its parent as well
    exact ih (hk p hp) (TransGen.tail' hpn hp)

namespace WellFormed

/-- Parents have no cycle. -/
theorem acyclic (hf : f.WellFormed) (n : NodeId) : ¬ TransGen f.Up n n := by
  obtain ⟨k, hk⟩ := hf.ends n
  exact hk.not_transGen

theorem isInclusiveAncestor_iff (hf : f.WellFormed) :
    f.isInclusiveAncestor a n = true ↔ ReflTransGen f.Up n a :=
  isInclusiveAncestor_iff_of_acyclic hf.acyclic

/-- A node in use lists the nodes whose parent it is, each of them once, and no others. -/
theorem count_children (hf : f.WellFormed) (hp : f.isAlive p = true) (n : NodeId) :
    (f.children p).count n = if f.parent? n = some p then 1 else 0 := by
  split
  · next h => exact List.count_eq_one_of_mem (hf.nodup p) (hf.listed_of_parent n p h)
  · next h => exact List.count_eq_zero_of_not_mem fun hn => h (hf.parent_of_listed n p hp hn)

/-- A node without a parent stands on no list of a node in use. -/
theorem not_mem_children (hf : f.WellFormed) (hn : f.parent? n = none) (hp : f.isAlive p = true) :
    n ∉ f.children p := by
  intro hmem
  cases hn.symm.trans (hf.parent_of_listed n p hp hmem)

end WellFormed

/-- A forest is well-formed when each node in use lists the nodes whose parent it is, once each, and no others,
and parents have no cycle. -/
theorem wellFormed_iff : f.WellFormed ↔
    (∀ p, f.isAlive p = true → ∀ n, (f.children p).count n = if f.parent? n = some p then 1 else 0) ∧
      (∀ p, (f.children p).Nodup) ∧ ∀ n, ¬ TransGen f.Up n n := by
  constructor
  · intro hf
    exact ⟨fun p hp n => hf.count_children hp n, hf.nodup, hf.acyclic⟩
  · rintro ⟨hcount, hnodup, hacyclic⟩
    constructor
    case listed_of_parent =>
      intro n p hp
      apply List.count_pos_iff.1
      rw [hcount p (isAlive_of_parent? hp) n, if_pos hp]
      exact Nat.one_pos
    case parent_of_listed =>
      intro n p hp hn
      by_contra hother
      have hpos := List.count_pos_iff.2 hn
      rw [hcount p hp n, if_neg hother] at hpos
      exact Nat.lt_irrefl 0 hpos
    case nodup => exact hnodup
    case ends =>
      intro n
      exact ⟨f.size, endsWithin_size hacyclic n⟩

/-- Nodes none of which knows or lists another one are a well-formed forest. -/
theorem wellFormed_of_alone
    (h : ∀ n node, f.node? n = some node → node.parent = none ∧ node.children = []) : f.WellFormed := by
  have hparent (n : NodeId) : f.parent? n = none := by
    unfold parent?
    split
    · next node hn => rw [(h n node hn).1, Option.filter_none]
    · rfl
  have hchildren (n : NodeId) : f.children n = [] := by
    unfold children
    split
    · next node hn => exact (h n node hn).2
    · rfl
  refine wellFormed_iff.2 ⟨fun p _ n => ?_, fun p => ?_, fun n hn => ?_⟩
  · simp [hchildren, hparent]
  · simp [hchildren]
  · obtain ⟨p, hp, -⟩ := TransGen.head'_iff.1 hn
    cases (hparent n).symm.trans hp

/-! ## Moving one node -/

/-- Between `f` and `f'` the node `n` has moved below `p`: the other nodes know the parents that they knew,
and stand on every list in the order in which they stood. -/
structure Moved (f f' : Forest) (n : NodeId) (p : Option NodeId) : Prop where
  parent : f'.parent? n = p
  parent_other : ∀ m, m ≠ n → f'.parent? m = f.parent? m
  order : ∀ q, (f'.children q).erase n = (f.children q).erase n

theorem mem_children_unlink (f : Forest) (hm : m ≠ n) : m ∈ (f.unlink n).children p ↔ m ∈ f.children p := by
  rw [children_unlink]
  split
  · exact List.mem_erase_of_ne hm
  · rfl

theorem erase_insertIdx {l : List NodeId} (hn : n ∉ l) (i : Nat) : (l.insertIdx i n).erase n = l := by
  induction l generalizing i with
  | nil => cases i <;> simp
  | cons b l ih =>
    obtain ⟨hb, hl⟩ : n ≠ b ∧ n ∉ l := by simpa using hn
    cases i with
    | zero => simp
    | succ i =>
      have hbn : (b == n) = false := beq_eq_false_iff_ne.2 (Ne.symm hb)
      rw [List.insertIdx_succ_cons, List.erase_cons, hbn, ih hl i]
      rfl

namespace WellFormed

/-! ### Taking it out -/

/-- A node that has been taken out is on no list of a node in use. -/
theorem not_mem_children_unlink (hf : f.WellFormed) (n : NodeId) (hp : f.isAlive p = true) :
    n ∉ (f.unlink n).children p := by
  rw [children_unlink]
  split
  · exact (hf.nodup p).not_mem_erase
  · next hup => exact fun hmem => hup (hf.parent_of_listed n p hp hmem)

theorem unlink (hf : f.WellFormed) (n : NodeId) : (f.unlink n).WellFormed := by
  constructor
  case listed_of_parent =>
    intro m p hp
    obtain ⟨hm, hup⟩ := up_of_unlink hp
    exact (mem_children_unlink f hm).2 (hf.listed_of_parent m p hup)
  case parent_of_listed =>
    intro m p hp hm
    rw [isAlive_unlink] at hp
    have hmn : m ≠ n := by
      rintro rfl
      exact hf.not_mem_children_unlink m hp hm
    rw [parent?_unlink_of_ne f hmn]
    exact hf.parent_of_listed m p hp ((mem_children_unlink f hmn).1 hm)
  case nodup =>
    intro p
    rw [children_unlink]
    split
    · exact (hf.nodup p).erase n
    · exact hf.nodup p
  case ends =>
    intro m
    exact ⟨_, endsWithin_size (acyclic_unlink hf.acyclic n) m⟩

/-- Taking a node out again changes no list. -/
theorem erase_children_unlink (hf : f.WellFormed) (n q : NodeId) :
    ((f.unlink n).children q).erase n = (f.children q).erase n := by
  rw [children_unlink]
  split
  · exact List.erase_of_not_mem (hf.nodup q).not_mem_erase
  · rfl

theorem moved_unlink (hf : f.WellFormed) (n : NodeId) : f.Moved (f.unlink n) n none where
  parent := parent?_unlink_self f n
  parent_other _ hm := parent?_unlink_of_ne f hm
  order := hf.erase_children_unlink n

/-! ### Putting it in -/

/-- A node that stands alone can be listed anywhere but below itself. -/
theorem place (hf : f.WellFormed) (hn : n.index < f.size) (hp : f.isAlive p = true)
    (hfree : f.parent? n = none) (hapart : ¬ ReflTransGen f.Up p n) {i : Nat}
    (hi : i ≤ (f.children p).length) : (f.place p i n).WellFormed := by
  have hsize : p.index < f.size := lt_size_of_isAlive hp
  have hself : (f.place p i n).parent? n = some p := parent?_place_self hn hp i
  have hother (m : NodeId) (hm : m ≠ n) : (f.place p i n).parent? m = f.parent? m :=
    parent?_place_of_ne f i hm
  -- only the list of `p` changes, and only by `n`
  have hmem {m q : NodeId} : m ∈ (f.place p i n).children q ↔ m = n ∧ q = p ∨ m ∈ f.children q := by
    by_cases hq : q = p
    · subst hq
      rw [children_place_self hsize, List.mem_insertIdx hi]
      simp
    · rw [children_place_of_ne f i n hq]
      simp [hq]
  constructor
  case listed_of_parent =>
    intro m q hq
    apply hmem.2
    by_cases hm : m = n
    · subst hm
      exact Or.inl ⟨rfl, Option.some.inj (hq.symm.trans hself)⟩
    · rw [hother m hm] at hq
      exact Or.inr (hf.listed_of_parent m q hq)
  case parent_of_listed =>
    intro m q hq hm
    rw [isAlive_place] at hq
    rcases hmem.1 hm with ⟨rfl, rfl⟩ | hold
    · exact hself
    · have hmn : m ≠ n := by
        rintro rfl
        exact hf.not_mem_children hfree hq hold
      rw [hother m hmn]
      exact hf.parent_of_listed m q hq hold
  case nodup =>
    intro q
    by_cases hq : q = p
    · subst hq
      rw [children_place_self hsize, (List.perm_insertIdx n (f.children q) hi).nodup_iff]
      exact List.nodup_cons.2 ⟨hf.not_mem_children hfree hp, hf.nodup q⟩
    · rw [children_place_of_ne f i n hq]
      exact hf.nodup q
  case ends =>
    intro m
    have hadopts : f.Adopts (f.place p i n) p n := ⟨hself, hother⟩
    exact ⟨_, endsWithin_size (hadopts.acyclic hf.acyclic hapart) m⟩

/-- Listing a node that has been taken out leaves the others in their order, whatever its new place. -/
theorem moved_place (hf : f.WellFormed) (hn : n.index < f.size) (hp : f.isAlive p = true) (i : Nat) :
    f.Moved ((f.unlink n).place p i n) n (some p) := by
  have halive : (f.unlink n).isAlive p = true := by rw [isAlive_unlink, hp]
  constructor
  case parent => exact parent?_place_self (by rwa [size_unlink]) halive i
  case parent_other =>
    intro m hm
    rw [parent?_place_of_ne _ i hm, parent?_unlink_of_ne f hm]
  case order =>
    intro q
    by_cases hq : q = p
    · subst hq
      -- off its new list again, `n` leaves the list that it was put into, which did not have it
      have hout : n ∉ (f.unlink n).children q := hf.not_mem_children_unlink n hp
      rw [children_place_self (lt_size_of_isAlive halive), erase_insertIdx hout,
        ← hf.erase_children_unlink, List.erase_of_not_mem hout]
    · rw [children_place_of_ne _ i n hq, hf.erase_children_unlink]

/-- A node can be moved to every place that is not below itself. -/
theorem place_unlink (hf : f.WellFormed) (hn : n.index < f.size) (hp : f.isAlive p = true)
    (hapart : ¬ ReflTransGen f.Up p n) {i : Nat} (hi : i ≤ ((f.unlink n).children p).length) :
    ((f.unlink n).place p i n).WellFormed := by
  apply (hf.unlink n).place _ _ (parent?_unlink_self f n) _ hi
  · rwa [size_unlink]
  · rwa [isAlive_unlink]
  · intro hpn
    exact hapart (ReflTransGen.mono (fun _ _ hup => (up_of_unlink hup).2) _ _ hpn)

end WellFormed

/-! ## Insertions -/

/-- The sides of a node. -/
inductive Side where
  | before
  | after
deriving DecidableEq, Repr

namespace Side

/-- A node and another one on one side of it, in order. -/
def pair (side : Side) (reference n : NodeId) : List NodeId :=
  match side with
  | .before => [n, reference]
  | .after => [reference, n]

/-- Where a list has room for a node on one side of the node at a position. -/
def position (side : Side) (i : Nat) : Nat :=
  match side with
  | .before => i
  | .after => i + 1

/-- The reference has no parent. -/
def outsideTree : Side → Error
  | .before => .referenceOutsideTree
  | .after => .anchorOutsideTree

/-- The reference is not listed by its parent. -/
def notListed : Side → Error
  | .before => .referenceNotListed
  | .after => .anchorNotListed

theorem position_le_length (side : Side) (s t : List NodeId) (a : NodeId) :
    side.position s.length ≤ (s ++ a :: t).length := by
  cases side <;> simp [position]

/-- A node that is inserted there stands directly beside the other one. -/
theorem pair_infix (side : Side) (s t : List NodeId) (a n : NodeId) :
    side.pair a n <:+: (s ++ a :: t).insertIdx (side.position s.length) n := by
  refine ⟨s, t, ?_⟩
  cases side with
  | before => simp [pair, position, insertIdx_length_append]
  | after => simp [pair, position, insertIdx_split]

end Side

/-- Puts a node directly beside another one. -/
def insertBeside (f : Forest) : Side → NodeId → NodeId → Except Error Unit × Forest
  | .before => f.insertBefore
  | .after => f.insertAfter

theorem insertBeside_eq (f : Forest) (side : Side) (a n : NodeId) :
    f.insertBeside side a n =
      match f.parent? a with
      | none => (.error side.outsideTree, f)
      | some p =>
        match ((f.unlink n).children p).idxOf? a with
        | none => (.error side.notListed, f.unlink n)
        | some i => (.ok (), (f.unlink n).place p (side.position i) n) := by
  cases side <;> rfl

theorem insertBeside_of_parent?_none (side : Side) (h : f.parent? a = none) (n : NodeId) :
    f.insertBeside side a n = (.error side.outsideTree, f) := by
  rw [insertBeside_eq, h]

namespace WellFormed

/-- A node that is to be put beside itself has been taken out when its place is looked for. -/
theorem insertBeside_self (hf : f.WellFormed) (side : Side) (h : f.parent? a = some p) :
    f.insertBeside side a a = (.error side.notListed, f.unlink a) := by
  have hout : a ∉ (f.unlink a).children p := hf.not_mem_children_unlink a (isAlive_of_parent? h)
  rw [insertBeside_eq, h]
  simp only [List.idxOf?_eq_none_iff.2 hout]

/-- Any other node finds its place. -/
theorem insertBeside_of_ne (hf : f.WellFormed) (side : Side) (h : f.parent? a = some p) (hne : n ≠ a) :
    ∃ i ≤ ((f.unlink n).children p).length,
      f.insertBeside side a n = (.ok (), (f.unlink n).place p i n) ∧
        side.pair a n <:+: ((f.unlink n).children p).insertIdx i n := by
  -- taking out another node does not take `a` off the list
  have ha : a ∈ (f.unlink n).children p :=
    (mem_children_unlink f hne.symm).2 (hf.listed_of_parent a p h)
  obtain ⟨s, t, hst, hs⟩ := List.eq_append_cons_of_mem ha
  rw [insertBeside_eq, h]
  simp only [hst, idxOf?_split hs]
  exact ⟨side.position s.length, side.position_le_length s t a, rfl, side.pair_infix s t a n⟩

end WellFormed

/-! ## Edits -/

/-- The edits of a forest. -/
inductive Edit where
  | append (parent n : NodeId)
  | insert (side : Side) (reference n : NodeId)
  | unlink (n : NodeId)

namespace Edit

/-- Carries out an edit. -/
def perform (f : Forest) : Edit → Except Error Unit × Forest
  | .append p n => (.ok (), f.append p n)
  | .insert side a n => f.insertBeside side a n
  | .unlink n => (.ok (), f.unlink n)

/-- The node that an edit moves. -/
def node : Edit → NodeId
  | .append _ n | .insert _ _ n | .unlink n => n

/-- The node that an edit puts its node under or beside. -/
def target? : Edit → Option NodeId
  | .append p _ => some p
  | .insert _ a _ => some a
  | .unlink _ => none

/-- The nodes of an edit are in use, as every node is that somebody holds, and the one that is moved is neither
the one that it is put under or beside nor above that one. -/
def Fits (f : Forest) (e : Edit) : Prop :=
  f.isAlive e.node = true ∧ ∀ a ∈ e.target?, f.isAlive a = true ∧ f.isInclusiveAncestor e.node a = false

instance (f : Forest) (e : Edit) : Decidable (e.Fits f) :=
  inferInstanceAs (Decidable (_ ∧ _))

/-- A node without a parent can take every other node. -/
theorem fits_append (hp : f.isAlive p = true) (hn : f.isAlive n = true) (htop : f.parent? p = none)
    (hne : p ≠ n) : (append p n).Fits f := by
  refine ⟨hn, fun a ha => ?_⟩
  obtain rfl : p = a := Option.some.inj ha
  refine ⟨hp, ?_⟩
  rw [isInclusiveAncestor, node]
  cases f.size <;> simp [climbs, htop, hne]

/-- There is a place where the edit can put its node: nothing stands beside a node without a parent. -/
def HasPlace (f : Forest) : Edit → Prop
  | .insert _ a _ => (f.parent? a).isSome = true
  | .append _ _ | .unlink _ => True

/-- An edit has led from `f` to `f'`: its node has moved to the place that the edit names. -/
def Done (f f' : Forest) : Edit → Prop
  | .append p n => f.Moved f' n (some p) ∧ [n] <:+ f'.children p
  | .insert side a n => ∃ p, f.parent? a = some p ∧ f.Moved f' n (some p) ∧ side.pair a n <:+: f'.children p
  | .unlink n => f.Moved f' n none

end Edit

/-! ## One edit after another -/

namespace WellFormed

theorem append (hf : f.WellFormed) (hn : n.index < f.size) (hp : f.isAlive p = true)
    (hapart : ¬ ReflTransGen f.Up p n) :
    (f.append p n).WellFormed ∧ (Edit.append p n).Done f (f.append p n) := by
  have hsize : p.index < (f.unlink n).size := by
    rw [size_unlink]
    exact lt_size_of_isAlive hp
  have hrow : (f.append p n).children p = (f.unlink n).children p ++ [n] := by
    rw [Forest.append, children_place_self hsize, List.insertIdx_length_self]
  refine ⟨hf.place_unlink hn hp hapart (Nat.le_refl _), hf.moved_place hn hp _, ?_⟩
  rw [hrow]
  exact List.suffix_append _ _

theorem insertBeside (hf : f.WellFormed) (side : Side) (hn : n.index < f.size) (hapart : ¬ ReflTransGen f.Up a n)
    (h : f.parent? a = some p) :
    ∃ f', f.insertBeside side a n = (.ok (), f') ∧ f'.WellFormed ∧ (Edit.insert side a n).Done f f' := by
  have hp : f.isAlive p = true := isAlive_of_parent? h
  have hne : n ≠ a := by
    rintro rfl
    exact hapart .refl
  -- the new place is on the list of the parent of `a`, so `n` must not stand above that one either
  have hbelow : ¬ ReflTransGen f.Up p n := fun hpn => hapart (.head h hpn)
  obtain ⟨i, hi, hput, hpair⟩ := hf.insertBeside_of_ne side h hne
  refine ⟨_, hput, hf.place_unlink hn hp hbelow hi, p, h, hf.moved_place hn hp i, ?_⟩
  rw [children_place_self (by rw [size_unlink]; exact lt_size_of_isAlive hp)]
  exact hpair

/-- An edit that fits keeps a forest well-formed, succeeds if there is a place for its node, and has then
moved the node there. -/
theorem perform (hf : f.WellFormed) {e : Edit} (he : e.Fits f) :
    (e.perform f).2.WellFormed ∧ ((e.perform f).1 = .ok () ↔ e.HasPlace f) ∧
      ((e.perform f).1 = .ok () → e.Done f (e.perform f).2) := by
  obtain ⟨hnode, htarget⟩ := he
  have hn : e.node.index < f.size := lt_size_of_isAlive hnode
  -- in a well-formed forest the bounded climb misses no ancestor, so what it has not found is not above
  have hapart : ∀ a ∈ e.target?, ¬ ReflTransGen f.Up a e.node := by
    intro a ha habove
    have hclimb := hf.isInclusiveAncestor_iff.2 habove
    rw [(htarget a ha).2] at hclimb
    cases hclimb
  cases e with
  | append p n =>
    obtain ⟨hwell, hdone⟩ := hf.append hn (htarget p rfl).1 (hapart p rfl)
    exact ⟨hwell, iff_of_true rfl trivial, fun _ => hdone⟩
  | insert side a n =>
    cases h : f.parent? a with
    | none =>
      have hrefused : (Edit.insert side a n).perform f = (.error side.outsideTree, f) :=
        insertBeside_of_parent?_none side h n
      rw [hrefused]
      simp [Edit.HasPlace, h, hf]
    | some p =>
      obtain ⟨f', hput, hwell, hdone⟩ := hf.insertBeside side hn (hapart a rfl) h
      have hperform : (Edit.insert side a n).perform f = (.ok (), f') := hput
      rw [hperform]
      exact ⟨hwell, iff_of_true rfl (Option.isSome_of_eq_some h), fun _ => hdone⟩
  | unlink n => exact ⟨hf.unlink n, iff_of_true rfl trivial, fun _ => hf.moved_unlink n⟩

end WellFormed

/-- An edit that fits leads from `f` to `f'`, whether it succeeds or is refused. -/
def EditsTo (f f' : Forest) : Prop := ∃ e : Edit, e.Fits f ∧ (e.perform f).2 = f'

/-- Edits lead from `f` to `f'`, each of which fits where it is carried out. -/
abbrev Reaches : Forest → Forest → Prop := ReflTransGen EditsTo

theorem WellFormed.of_reaches (h₀ : f₀.WellFormed) (hf : f₀.Reaches f) : f.WellFormed := by
  induction hf with
  | refl => exact h₀
  | tail _ hstep ih =>
    obtain ⟨e, he, rfl⟩ := hstep
    exact (ih.perform he).1

/-! ### A list with three items -/

/-- Nodes that stand alone. -/
def ofKinds (kinds : List NodeKind) : Forest := ⟨⟨(kinds.map fun kind => { kind := kind : Node }).toArray⟩⟩

theorem wellFormed_ofKinds (kinds : List NodeKind) : (ofKinds kinds).WellFormed := by
  apply wellFormed_of_alone
  intro n node hn
  have hmem : node ∈ kinds.map fun kind => ({ kind := kind } : Node) := by
    apply List.mem_of_getElem? (i := n.index)
    rw [← hn]
    simp [node?, ofKinds, Table.get?]
  obtain ⟨kind, -, rfl⟩ := List.mem_map.1 hmem
  exact ⟨rfl, rfl⟩

/-- A list and three texts, apart. -/
def looseItems : Forest := ofKinds [.element (.html "ul") [] false, .text "a", .text "b", .text "c"]

/-- The list with the texts in it. -/
def itemRow : Forest := ((looseItems.append ⟨0⟩ ⟨1⟩).append ⟨0⟩ ⟨2⟩).append ⟨0⟩ ⟨3⟩

theorem reaches_itemRow : looseItems.Reaches itemRow := by
  refine ((ReflTransGen.single ⟨.append ⟨0⟩ ⟨1⟩, Edit.fits_append ?_ ?_ ?_ ?_, rfl⟩).tail
    ⟨.append ⟨0⟩ ⟨2⟩, Edit.fits_append ?_ ?_ ?_ ?_, rfl⟩).tail
      ⟨.append ⟨0⟩ ⟨3⟩, Edit.fits_append ?_ ?_ ?_ ?_, rfl⟩
  all_goals decide +kernel

/-! ### Every run -/

/-- Edits that fit keep a well-formed forest well-formed, however many there are, and each of them that
succeeds moves one node to the place that it names and leaves all others in their order. -/
theorem wellFormed_of_reaches (h₀ : f₀.WellFormed) (hf : f₀.Reaches f) :
    f.WellFormed ∧ ∀ e : Edit, e.Fits f →
      (e.perform f).2.WellFormed ∧ ((e.perform f).1 = .ok () ↔ e.HasPlace f) ∧
        ((e.perform f).1 = .ok () → e.Done f (e.perform f).2) := by
  have hwell : f.WellFormed := h₀.of_reaches hf
  exact ⟨hwell, fun e he => hwell.perform he⟩

theorem wellFormed_of_reaches_itemRow : looseItems.WellFormed ∧ looseItems.Reaches itemRow ∧
    (Edit.insert .after ⟨3⟩ ⟨1⟩).Fits itemRow ∧ itemRow.children ⟨0⟩ = [⟨1⟩, ⟨2⟩, ⟨3⟩] ∧
      (itemRow.insertAfter ⟨3⟩ ⟨1⟩).2.WellFormed ∧
        (Edit.insert .after ⟨3⟩ ⟨1⟩).Done itemRow (itemRow.insertAfter ⟨3⟩ ⟨1⟩).2 ∧
          (itemRow.insertAfter ⟨3⟩ ⟨1⟩).2.children ⟨0⟩ = [⟨2⟩, ⟨3⟩, ⟨1⟩] := by
  have hloose : looseItems.WellFormed := wellFormed_ofKinds _
  have hfits : (Edit.insert .after ⟨3⟩ ⟨1⟩).Fits itemRow := by decide +kernel
  have hparent : (itemRow.parent? ⟨3⟩).isSome = true := by decide +kernel
  obtain ⟨-, hedits⟩ := wellFormed_of_reaches hloose reaches_itemRow
  obtain ⟨hwell, hplace, hdone⟩ := hedits _ hfits
  refine ⟨hloose, reaches_itemRow, hfits, ?_, hwell, hdone (hplace.2 hparent), ?_⟩
  all_goals decide +kernel

/-! ## Refused insertions -/

/-- In a well-formed forest an insertion is refused if the reference has no parent, and then nothing has
changed, or if the node is its own reference, and then it has lost its place. -/
theorem insertBeside_eq_error_iff (hf : f.WellFormed) (side : Side) (a n : NodeId) {e : Error} :
    f.insertBeside side a n = (.error e, f') ↔
      f.parent? a = none ∧ e = side.outsideTree ∧ f' = f ∨
        n = a ∧ (f.parent? a).isSome = true ∧ e = side.notListed ∧ f' = f.unlink a := by
  cases hp : f.parent? a with
  | none =>
    rw [insertBeside_of_parent?_none side hp]
    simp [eq_comm]
  | some p =>
    by_cases hne : n = a
    · subst hne
      rw [hf.insertBeside_self side hp]
      simp [eq_comm]
    · obtain ⟨i, -, hput, -⟩ := hf.insertBeside_of_ne side hp hne
      rw [hput]
      simp [hne]

theorem insertBeside_eq_error_iff_itemRow : itemRow.WellFormed ∧
    itemRow.insertAfter ⟨2⟩ ⟨2⟩ = (.error .anchorNotListed, itemRow.unlink ⟨2⟩) ∧
      (itemRow.unlink ⟨2⟩).children ⟨0⟩ = [⟨1⟩, ⟨3⟩] ∧
        itemRow.insertBefore ⟨0⟩ ⟨2⟩ = (.error .referenceOutsideTree, itemRow) := by
  have hrow : itemRow.WellFormed := (wellFormed_ofKinds _).of_reaches reaches_itemRow
  have hparent : (itemRow.parent? ⟨2⟩).isSome = true := by decide +kernel
  have htop : itemRow.parent? ⟨0⟩ = none := by decide +kernel
  refine ⟨hrow, ?_, by decide +kernel, ?_⟩
  · exact (insertBeside_eq_error_iff hrow .after ⟨2⟩ ⟨2⟩).2 (Or.inr ⟨rfl, hparent, rfl, rfl⟩)
  · exact (insertBeside_eq_error_iff hrow .before ⟨0⟩ ⟨2⟩).2 (Or.inl ⟨htop, rfl, rfl⟩)

end ReactiveView.Forest
