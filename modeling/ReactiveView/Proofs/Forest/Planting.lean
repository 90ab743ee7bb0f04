import ReactiveView.Proofs.Forest.Recast

/-!
# Planted trees

A planted tree is found again in the forest: from its topmost node on, the nodes are what the tree is made of, each
with the children of the tree in their order, and all of them carry numbers of their own (`Forest.Shows`). The numbers
grow from parents to children, so there is always fuel enough to walk down from the top.

The walk passes over what stands apart. So the nodes that it comes to carry the attributes of the elements that stand
in the tree in the ordinary way (`Markup.findStanding`), in document order (`Forest.attrs_plantDocument`). A search of
the tree itself finds all of these and, besides, what stands apart (`Markup.findStanding_sublist`).
-/

set_option autoImplicit false

namespace ReactiveView

/-! ## Elements that stand in the ordinary way -/

namespace Markup

variable {test : Markup → Bool}

/-- Whether a tree keeps its children apart. -/
def isApart : Markup → Bool
  | element _ _ apart _ => apart
  | _ => false

mutual

/-- The elements that pass a test, in document order, without those in what stands apart. -/
def findStanding (test : Markup → Bool) : Markup → List Markup
  | element name attrs apart children =>
    let below := if apart then [] else findStandingIn test children
    if test (element name attrs apart children) then element name attrs apart children :: below
    else below
  | _ => []

/-- The elements that pass a test in a list of trees, without those in what stands apart. -/
def findStandingIn (test : Markup → Bool) : List Markup → List Markup
  | [] => []
  | m :: ms => findStanding test m ++ findStandingIn test ms

end

mutual

/-- A search finds all elements that stand in the ordinary way, in the same order. -/
theorem findStanding_sublist : ∀ m : Markup, (m.findStanding test).Sublist (m.find test)
  | .text _ | .comment _ => List.Sublist.refl _
  | .element name attrs apart children => by
    have hbelow : (if apart then [] else findStandingIn test children).Sublist (findIn test children) := by
      cases apart with
      | true => exact List.nil_sublist _
      | false => exact findStandingIn_sublist children
    unfold findStanding find
    by_cases htest : test (.element name attrs apart children) = true
    · simpa [htest] using hbelow
    · simpa [htest] using hbelow

theorem findStandingIn_sublist : ∀ ms : List Markup, (findStandingIn test ms).Sublist (findIn test ms)
  | [] => List.Sublist.refl _
  | m :: ms => by
    unfold findStandingIn findIn
    exact (findStanding_sublist m).append (findStandingIn_sublist ms)

end

mutual

/-- Nothing else is found when nothing that passes stands apart. -/
theorem findStanding_eq : ∀ m : Markup, (∀ e ∈ m.find isApart, findIn test e.contentChildren = []) →
    m.findStanding test = m.find test
  | .text _, _ | .comment _, _ => rfl
  | .element name attrs apart children, h => by
    have hbelow : (if apart then [] else findStandingIn test children) = findIn test children := by
      cases apart with
      | true => exact (h (.element name attrs true children) (by simp [find, isApart])).symm
      | false =>
        apply findStandingIn_eq children
        intro e he
        exact h e (by simpa [find, isApart] using he)
    unfold findStanding find
    rw [hbelow]

theorem findStandingIn_eq : ∀ ms : List Markup, (∀ e ∈ findIn isApart ms, findIn test e.contentChildren = []) →
    findStandingIn test ms = findIn test ms
  | [], _ => rfl
  | m :: ms, h => by
    have hfirst := findStanding_eq m fun e he => h e (by simp [findIn, he])
    have hrest := findStandingIn_eq ms fun e he => h e (by simp [findIn, he])
    unfold findStandingIn findIn
    rw [hfirst, hrest]

end

/-- What a node is that is planted for a tree. -/
def kind : Markup → NodeKind
  | text s => .text s
  | comment s => .comment s
  | element name attrs apart _ => .element name attrs apart

@[simp] theorem attr?_kind (m : Markup) (t : String) : m.kind.attr? t = m.attr? t := by
  cases m <;> rfl

end Markup

namespace Forest

variable {f f' : Forest} {n p k : NodeId} {lo lo' hi hi' fuel : Nat} {m : Markup} {ms : List Markup} {ns : List NodeId}

/-! ## Trees in a forest -/

/-- A node stands for a tree, with a number between the bounds. -/
structure StandsFor (f : Forest) (hi lo : Nat) (m : Markup) (n : NodeId) : Prop where
  lo_le : lo ≤ n.index
  lt_hi : n.index < hi
  kind : f.kind? n = some m.kind

mutual

/-- The nodes from `n` downwards make up a tree. Their numbers lie between the bounds, and grow downwards. -/
def Shows (f : Forest) (hi : Nat) : Nat → Markup → NodeId → Prop
  | lo, .text s, n => f.StandsFor hi lo (.text s) n ∧ f.children n = []
  | lo, .comment s, n => f.StandsFor hi lo (.comment s) n ∧ f.children n = []
  | lo, .element name attrs apart children, n =>
    f.StandsFor hi lo (.element name attrs apart children) n ∧ ShowsAll f hi (n.index + 1) children (f.children n)

/-- The nodes of a list make up trees, one each. -/
def ShowsAll (f : Forest) (hi : Nat) : Nat → List Markup → List NodeId → Prop
  | _, [], ns => ns = []
  | lo, m :: ms, ns => ∃ n rest, ns = n :: rest ∧ Shows f hi lo m n ∧ ShowsAll f hi lo ms rest

end

theorem Shows.standsFor (h : f.Shows hi lo m n) : f.StandsFor hi lo m n := by
  cases m with
  | text s | comment s => exact h.1
  | element name attrs apart children => exact h.1

/-- Between the bounds, nodes are what they were, with the children that they had. -/
def KeepsBetween (f f' : Forest) (lo hi : Nat) : Prop :=
  ∀ n, lo ≤ n.index → n.index < hi → f'.kind? n = f.kind? n ∧ f'.children n = f.children n

theorem StandsFor.keep (h : f.StandsFor hi lo m n) (hkeep : f.KeepsBetween f' lo hi) (hlo : lo' ≤ lo) (hhi : hi ≤ hi') :
    f'.StandsFor hi' lo' m n where
  lo_le := Nat.le_trans hlo h.lo_le
  lt_hi := Nat.lt_of_lt_of_le h.lt_hi hhi
  kind := (hkeep n h.lo_le h.lt_hi).1.trans h.kind

theorem KeepsBetween.mono (h : f.KeepsBetween f' lo hi) (hlo : lo ≤ lo') : f.KeepsBetween f' lo' hi := by
  intro n hn
  exact h n (Nat.le_trans hlo hn)

mutual

/-- A tree stays where it is while the nodes between the bounds stay as they are. -/
theorem Shows.keep : ∀ {lo lo' : Nat} {m : Markup} {n : NodeId}, f.Shows hi lo m n → f.KeepsBetween f' lo hi →
    lo' ≤ lo → hi ≤ hi' → f'.Shows hi' lo' m n
  | _, _, .text _, n, ⟨hn, hchildren⟩, hkeep, hlo, hhi | _, _, .comment _, n, ⟨hn, hchildren⟩, hkeep, hlo, hhi =>
    ⟨hn.keep hkeep hlo hhi, (hkeep n hn.lo_le hn.lt_hi).2.trans hchildren⟩
  | lo, _, .element _ _ _ children, n, ⟨hn, hchildren⟩, hkeep, hlo, hhi => by
    refine ⟨hn.keep hkeep hlo hhi, ?_⟩
    rw [(hkeep n hn.lo_le hn.lt_hi).2]
    exact ShowsAll.keep hchildren (hkeep.mono (Nat.le_succ_of_le hn.lo_le)) (Nat.le_refl _) hhi

theorem ShowsAll.keep : ∀ {lo lo' : Nat} {ms : List Markup} {ns : List NodeId}, f.ShowsAll hi lo ms ns →
    f.KeepsBetween f' lo hi → lo' ≤ lo → hi ≤ hi' → f'.ShowsAll hi' lo' ms ns
  | _, _, [], _, h, _, _, _ => h
  | _, _, _ :: _, _, ⟨n, rest, hns, hfirst, hrest⟩, hkeep, hlo, hhi =>
    ⟨n, rest, hns, Shows.keep hfirst hkeep hlo hhi, ShowsAll.keep hrest hkeep hlo hhi⟩

end

theorem lt_size_of_kind? {kind : NodeKind} (h : f.kind? n = some kind) : n.index < f.size := by
  obtain ⟨node, hnode, -⟩ := Option.map_eq_some_iff.1 h
  exact lt_size_of_node? hnode

/-! ## Planting -/

theorem index_create (f : Forest) (kind : NodeKind) : (f.create kind).1.index = f.size := rfl

theorem kind?_create_self (f : Forest) (kind : NodeKind) : (f.create kind).2.kind? (f.create kind).1 = some kind := by
  unfold kind?
  rw [node?_create, Option.map_some]

theorem children_create_self (f : Forest) (kind : NodeKind) : (f.create kind).2.children (f.create kind).1 = [] := by
  rw [children_create, children_eq_nil_of_le (Nat.le_of_eq (index_create f kind).symm)]

theorem lt_size_create (f : Forest) (kind : NodeKind) : (f.create kind).1.index < (f.create kind).2.size := by
  rw [size_create, index_create]
  exact Nat.lt_succ_self _

/-- The top of a planted tree has no parent yet. -/
theorem recorded?_plant_self (f : Forest) (m : Markup) : (f.plant m).2.recorded? (f.plant m).1 = none := by
  have hcreate (kind : NodeKind) : (f.create kind).2.recorded? (f.create kind).1 = none := by
    rw [recorded?_create, recorded?_eq_none_of_le (Nat.le_of_eq (index_create f kind).symm)]
  cases m with
  | text s | comment s => exact hcreate _
  | element name attrs apart children =>
    exact (recorded?_plantBelow _ _ children (lt_size_create f _)).trans (hcreate _)

theorem lt_size_plant (f : Forest) (m : Markup) : (f.plant m).1.index < (f.plant m).2.size := by
  cases m with
  | text s | comment s => exact lt_size_create f _
  | element name attrs apart children => exact (Moves.plantBelow _ _ children).lt_size (lt_size_create f _)

/-- A planted tree becomes the last child of a node that was there. -/
theorem appended_plant (m : Markup) (hp : p.index < f.size) :
    (f.plant m).2.Appended ((f.plant m).2.append p (f.plant m).1) p (f.plant m).1 :=
  appended_append (lt_size_plant f m) ((Moves.plant f m).lt_size hp) (recorded?_plant_self f m)

mutual

/-- Planting leaves the children of the nodes that were there. -/
theorem children_plant : ∀ (f : Forest) (m : Markup), k.index < f.size → (f.plant m).2.children k = f.children k
  | f, .text _, _ | f, .comment _, _ => children_create f _ k
  | f, .element name attrs apart children, hk => by
    have hcreated : k.index < (f.create (.element name attrs apart)).2.size := (Moves.create f _).lt_size hk
    have hne : k ≠ (f.create (.element name attrs apart)).1 := by
      rintro rfl
      exact Nat.lt_irrefl _ hk
    exact (children_plantBelow children (lt_size_create f _) hcreated hne).trans (children_create f _ k)

theorem children_plantBelow : ∀ {f : Forest} {p : NodeId} (ms : List Markup), p.index < f.size → k.index < f.size →
    k ≠ p → (f.plantBelow p ms).children k = f.children k
  | _, _, [], _, _, _ => rfl
  | f, p, m :: ms, hp, hk, hne => by
    have happend := appended_plant m hp
    have hsize {q : NodeId} (hq : q.index < f.size) : q.index < ((f.plant m).2.append p (f.plant m).1).size := by
      rw [happend.size]
      exact (Moves.plant f m).lt_size hq
    unfold plantBelow
    rw [children_plantBelow ms (hsize hp) (hsize hk) hne, happend.other k hne, children_plant f m hk]

end

theorem Moves.kind?_of_lt (h : f.Moves f') (hn : n.index < f.size) : f'.kind? n = f.kind? n := by
  obtain ⟨node, hnode⟩ := exists_node?_of_lt hn
  have hkind : f.kind? n = some node.kind := congrArg (Option.map Node.kind) hnode
  rw [h.kind? hkind, hkind]

mutual

/-- A planted tree is found again, with numbers of its own. -/
theorem shows_plant : ∀ (f : Forest) (m : Markup), (f.plant m).2.Shows (f.plant m).2.size f.size m (f.plant m).1
  | f, .text s => ⟨⟨Nat.le_refl _, lt_size_plant f (.text s), kind?_create_self f _⟩, children_create_self f _⟩
  | f, .comment s => ⟨⟨Nat.le_refl _, lt_size_plant f (.comment s), kind?_create_self f _⟩, children_create_self f _⟩
  | f, .element name attrs apart children => by
    have hlt := lt_size_create f (.element name attrs apart)
    obtain ⟨ns, hrow, hall⟩ := showsAll_plantBelow children hlt
    refine ⟨⟨Nat.le_refl _, lt_size_plant f (.element name attrs apart children), ?_⟩, ?_⟩
    · exact ((Moves.plantBelow _ _ children).kind?_of_lt hlt).trans (kind?_create_self f _)
    · rw [children_create_self, List.nil_append] at hrow
      rw [size_create, ← hrow] at hall
      exact hall

theorem showsAll_plantBelow : ∀ {f : Forest} {p : NodeId} (ms : List Markup), p.index < f.size →
    ∃ ns, (f.plantBelow p ms).children p = f.children p ++ ns ∧
      (f.plantBelow p ms).ShowsAll (f.plantBelow p ms).size f.size ms ns
  | _, _, [], _ => ⟨[], (List.append_nil _).symm, rfl⟩
  | f, p, m :: ms, hp => by
    have happend := appended_plant m hp
    have hgrows : f.size ≤ ((f.plant m).2.append p (f.plant m).1).size := by
      rw [happend.size]
      exact (Moves.plant f m).size_le
    obtain ⟨ns, hrow, hall⟩ := showsAll_plantBelow ms (Nat.lt_of_lt_of_le hp hgrows)
    have hmoves := Moves.plantBelow ((f.plant m).2.append p (f.plant m).1) p ms
    -- the first tree is not touched by what is planted after it
    have hkeep : (f.plant m).2.KeepsBetween (f.plantBelow p (m :: ms)) f.size (f.plant m).2.size := by
      intro k hlo hhi
      have hne : k ≠ p := by
        rintro rfl
        exact Nat.lt_irrefl _ (Nat.lt_of_lt_of_le hp hlo)
      unfold plantBelow
      constructor
      · exact ((Moves.append _ p _).trans hmoves).kind?_of_lt hhi
      · rw [children_plantBelow ms (Nat.lt_of_lt_of_le hp hgrows) (by rwa [happend.size]) hne, happend.other k hne]
    have hfirst : (f.plantBelow p (m :: ms)).Shows (f.plantBelow p (m :: ms)).size f.size m (f.plant m).1 := by
      refine (shows_plant f m).keep hkeep (Nat.le_refl _) ?_
      unfold plantBelow
      exact (happend.size ▸ hmoves.size_le :)
    refine ⟨(f.plant m).1 :: ns, ?_, (f.plant m).1, ns, rfl, hfirst, ?_⟩
    · unfold plantBelow
      rw [hrow, happend.row, children_plant f m hp, List.append_assoc, List.singleton_append]
    · unfold plantBelow
      exact hall.keep (fun _ _ _ => ⟨rfl, rfl⟩) hgrows (Nat.le_refl _)

end

/-- The trees of a planted document hang from its top. -/
theorem showsAll_plantDocument (f : Forest) (trees : List Markup) :
    (f.plantDocument trees).2.kind? (f.plantDocument trees).1 = some .fragment ∧
      (f.plantDocument trees).2.ShowsAll (f.plantDocument trees).2.size (f.size + 1) trees
        ((f.plantDocument trees).2.children (f.plantDocument trees).1) := by
  have hlt := lt_size_create f .fragment
  obtain ⟨ns, hrow, hall⟩ := showsAll_plantBelow trees hlt
  rw [children_create_self, List.nil_append] at hrow
  rw [size_create, ← hrow] at hall
  exact ⟨((Moves.plantBelow _ _ trees).kind?_of_lt hlt).trans (kind?_create_self f _), hall⟩

/-! ## Walking down -/

/-- Whether a walk goes on below a node. -/
def enters : NodeKind → Bool
  | .element _ _ apart => !apart
  | _ => true

theorem nodesBelow_succ {kind : NodeKind} (h : f.kind? n = some kind) :
    f.nodesBelow false (fuel + 1) n =
      n :: if enters kind then (f.children n).flatMap (f.nodesBelow false fuel) else [] := by
  obtain ⟨node, hnode, rfl⟩ := Option.map_eq_some_iff.1 h
  rw [children_of_node hnode]
  rw [nodesBelow, hnode]
  dsimp only
  cases node.kind with
  | fragment | text s | comment s => rfl
  | element name attrs apart => rfl

mutual

/-- The walk stays between the bounds. -/
theorem Shows.between : ∀ {fuel lo : Nat} {m : Markup} {n : NodeId}, f.Shows hi lo m n →
    ∀ k ∈ f.nodesBelow false fuel n, lo ≤ k.index ∧ k.index < hi
  | 0, _, _, n, h, k, hk => by
    obtain rfl := List.mem_singleton.1 hk
    exact ⟨h.standsFor.lo_le, h.standsFor.lt_hi⟩
  | fuel + 1, lo, m, n, h, k, hk => by
    rw [nodesBelow_succ h.standsFor.kind] at hk
    rcases List.mem_cons.1 hk with rfl | hk
    · exact ⟨h.standsFor.lo_le, h.standsFor.lt_hi⟩
    · cases m with
      | text s | comment s =>
        rw [h.2] at hk
        simp at hk
      | element name attrs apart children =>
        cases apart with
        | true => simp [Markup.kind, enters] at hk
        | false =>
          obtain ⟨hle, hlt⟩ := ShowsAll.between h.2 k hk
          exact ⟨Nat.le_trans h.1.lo_le (Nat.le_of_succ_le hle), hlt⟩

theorem ShowsAll.between : ∀ {fuel lo : Nat} {ms : List Markup} {ns : List NodeId}, f.ShowsAll hi lo ms ns →
    ∀ k ∈ ns.flatMap (f.nodesBelow false fuel), lo ≤ k.index ∧ k.index < hi
  | _, _, [], _, h, k, hk => by
    obtain rfl := h
    cases hk
  | _, _, _ :: _, _, ⟨n, rest, hns, hfirst, hrest⟩, k, hk => by
    rw [hns, List.flatMap_cons] at hk
    rcases List.mem_append.1 hk with hk | hk
    · exact Shows.between hfirst k hk
    · exact ShowsAll.between hrest k hk

end

theorem StandsFor.attr? (h : f.StandsFor hi lo m n) (t : String) : f.attr? n t = m.attr? t := by
  rw [attr?_eq, h.kind, Option.bind_some, Markup.attr?_kind]

mutual

/-- The walk comes to the elements that stand in the tree in the ordinary way, in document order. -/
theorem Shows.attrs (t : String) : ∀ {fuel lo : Nat} {m : Markup} {n : NodeId}, f.Shows hi lo m n →
    hi ≤ n.index + fuel → (f.nodesBelow false fuel n).filterMap (fun k => f.attr? k t) =
      (m.findStanding fun e => (e.attr? t).isSome).filterMap fun e => e.attr? t
  | 0, _, _, _, h, hfuel => absurd h.standsFor.lt_hi (Nat.not_lt.2 hfuel)
  | fuel + 1, lo, m, n, h, hfuel => by
    rw [nodesBelow_succ h.standsFor.kind, List.filterMap_cons, h.standsFor.attr? t]
    cases m with
    | text s | comment s =>
      rw [h.2]
      rfl
    | element name attrs apart children =>
      have hchildren : ((f.children n).flatMap (f.nodesBelow false fuel)).filterMap (fun k => f.attr? k t) =
          (Markup.findStandingIn (fun e => (e.attr? t).isSome) children).filterMap fun e => e.attr? t :=
        ShowsAll.attrs t h.2 (by omega)
      unfold Markup.findStanding
      cases apart with
      | true => cases hattr : (Markup.element name attrs true children).attr? t <;> simp [hattr, Markup.kind, enters]
      | false =>
        cases hattr : (Markup.element name attrs false children).attr? t <;>
          simpa [hattr, Markup.kind, enters] using hchildren

theorem ShowsAll.attrs (t : String) : ∀ {fuel lo : Nat} {ms : List Markup} {ns : List NodeId}, f.ShowsAll hi lo ms ns →
    hi ≤ lo + fuel → (ns.flatMap (f.nodesBelow false fuel)).filterMap (fun k => f.attr? k t) =
      (Markup.findStandingIn (fun e => (e.attr? t).isSome) ms).filterMap fun e => e.attr? t
  | _, _, [], _, h, _ => by
    obtain rfl := h
    rfl
  | _, _, _ :: _, _, ⟨n, rest, hns, hfirst, hrest⟩, hfuel => by
    have hle := hfirst.standsFor.lo_le
    rw [hns, List.flatMap_cons, Markup.findStandingIn, List.filterMap_append, List.filterMap_append,
      Shows.attrs t hfirst (by omega), ShowsAll.attrs t hrest hfuel]

end

/-! ## Documents -/

section Documents

variable (f : Forest) (trees : List Markup)

theorem nodesBelow_plantDocument : (f.plantDocument trees).2.nodesBelow false (f.plantDocument trees).2.size
      (f.plantDocument trees).1 = (f.plantDocument trees).1 ::
    ((f.plantDocument trees).2.children (f.plantDocument trees).1).flatMap
      ((f.plantDocument trees).2.nodesBelow false ((f.plantDocument trees).2.size - 1)) := by
  obtain ⟨hkind, -⟩ := showsAll_plantDocument f trees
  obtain ⟨fuel, hfuel⟩ : ∃ fuel, (f.plantDocument trees).2.size = fuel + 1 :=
    Nat.exists_eq_succ_of_ne_zero (Nat.ne_zero_of_lt (lt_size_of_kind? hkind))
  rw [hfuel, nodesBelow_succ hkind]
  rfl

/-- From the top of a planted document the walk comes to the attributes of the elements that stand in its trees in the
ordinary way, in document order. -/
theorem attrs_plantDocument (t : String) :
    ((f.plantDocument trees).2.nodesBelow false (f.plantDocument trees).2.size (f.plantDocument trees).1).filterMap
        (fun k => (f.plantDocument trees).2.attr? k t) =
      (Markup.findStandingIn (fun e => (e.attr? t).isSome) trees).filterMap fun e => e.attr? t := by
  obtain ⟨hkind, hall⟩ := showsAll_plantDocument f trees
  have htop : (f.plantDocument trees).2.attr? (f.plantDocument trees).1 t = none := by
    rw [attr?_eq, hkind]
    rfl
  rw [nodesBelow_plantDocument, List.filterMap_cons, htop]
  exact hall.attrs t (by omega)

/-- The walk comes to new nodes only. -/
theorem between_plantDocument : ∀ k ∈ (f.plantDocument trees).2.nodesBelow false (f.plantDocument trees).2.size
    (f.plantDocument trees).1, f.size ≤ k.index ∧ k.index < (f.plantDocument trees).2.size := by
  obtain ⟨hkind, hall⟩ := showsAll_plantDocument f trees
  intro k hk
  rw [nodesBelow_plantDocument] at hk
  rcases List.mem_cons.1 hk with rfl | hk
  · exact ⟨Nat.le_refl _, lt_size_of_kind? hkind⟩
  · obtain ⟨hle, hlt⟩ := hall.between k hk
    exact ⟨Nat.le_of_succ_le hle, hlt⟩

end Documents

end Forest

end ReactiveView
