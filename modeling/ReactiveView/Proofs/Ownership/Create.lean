import ReactiveView.Proofs.Ownership.Build
import ReactiveView.Proofs.Ownership.Settle

/-!
# New instances

A new instance comes with a tree of its own, whose nodes have larger numbers than those of all other
instances (`Layout.Adds`). So it has a root and markers that nobody else has, its places are empty, and
the forest stays linked (`Layout.Adds.linked`). `World.createInstance_sound` says it of worlds: making an
instance keeps them orderly and respects all that was there.
-/

set_option autoImplicit false

namespace ReactiveView

open Relation

namespace Layout

variable {L L' : Layout} {f f' : Forest} {x P : InstanceId} {r : NodeId} {att : InstanceId → Option Place}
  {live live' : InstanceId → Prop} {occ : Place → List InstanceId}

/-- `L'` is `L` with one more instance, whose tree the forest has grown. -/
structure Adds (L L' : Layout) (f f' : Forest) (x : InstanceId) (r : NodeId) : Prop where
  grown : f.Grown f'
  index : r.index = f.size
  lt : r.index < f'.size
  free : f'.recorded? r = none
  root_self : L'.root x = some r
  root_other : ∀ j, j ≠ x → L'.root j = L.root j
  spot_other : ∀ pl P m, P ≠ x → (L'.spot pl = some (P, m) ↔ L.spot pl = some (P, m))
  marker : ∀ pl m, L'.spot pl = some (x, m) →
    r.index < m.index ∧ m.index < f'.size ∧ ReflTransGen f'.Listed m r
  inj : ∀ pl pl' m, L'.spot pl = some (x, m) → L'.spot pl' = some (x, m) → pl = pl'

namespace Adds

variable (h : L.Adds L' f f' x r)

include h

theorem not_isRoot {m : NodeId} (hlt : m.index < f.size) (hm : ¬ L.IsRoot m) :
    ¬ L'.IsRoot m := by
  rintro ⟨j, hj⟩
  by_cases hjx : j = x
  · subst hjx
    obtain rfl := Option.some.inj (h.root_self.symm.trans hj)
    exact absurd hlt (Nat.not_lt.2 (Nat.le_of_eq h.index.symm))
  · rw [h.root_other j hjx] at hj
    exact hm ⟨j, hj⟩

theorem not_isRoot_of_lt {m : NodeId} (hs : L.Sound f.size) (hlt : r.index < m.index) : ¬ L'.IsRoot m := by
  rintro ⟨j, hj⟩
  by_cases hjx : j = x
  · subst hjx
    obtain rfl := Option.some.inj (h.root_self.symm.trans hj)
    exact Nat.lt_irrefl _ hlt
  · rw [h.root_other j hjx] at hj
    have hold := hs.root_lt j m hj
    have hindex := h.index
    omega

theorem sound (hs : L.Sound f.size) : L'.Sound f'.size := by
  have hle := h.grown.size_le
  have hindex := h.index
  have hroot (i : InstanceId) (n : NodeId) (hi : L'.root i = some n) :
      i = x ∧ n = r ∨ i ≠ x ∧ L.root i = some n ∧ n.index < f.size := by
    by_cases hix : i = x
    · subst hix
      exact Or.inl ⟨rfl, Option.some.inj (hi.symm.trans h.root_self)⟩
    · rw [h.root_other i hix] at hi
      exact Or.inr ⟨hix, hi, hs.root_lt i n hi⟩
  have hspot (pl : Place) (P : InstanceId) (m : NodeId) (hpl : L'.spot pl = some (P, m)) :
      P = x ∧ r.index < m.index ∨ P ≠ x ∧ L.spot pl = some (P, m) ∧ m.index < f.size := by
    by_cases hP : P = x
    · subst hP
      exact Or.inl ⟨rfl, (h.marker pl m hpl).1⟩
    · have hold := (h.spot_other pl P m hP).1 hpl
      exact Or.inr ⟨hP, hold, hs.marker_lt pl P m hold⟩
  refine ⟨?_, ?_, ?_, ?_, ?_⟩
  · intro i n hi
    rcases hroot i n hi with ⟨-, rfl⟩ | ⟨-, -, hlt⟩
    · exact h.lt
    · exact Nat.lt_of_lt_of_le hlt hle
  · intro pl P m hpl
    rcases hspot pl P m hpl with ⟨rfl, -⟩ | ⟨-, -, hlt⟩
    · exact (h.marker pl m hpl).2.1
    · exact Nat.lt_of_lt_of_le hlt hle
  · intro i j n hi hj
    rcases hroot i n hi with ⟨rfl, rfl⟩ | ⟨-, hi', hlt⟩
    · rcases hroot j n hj with ⟨rfl, -⟩ | ⟨-, -, hlt⟩
      · rfl
      · omega
    · rcases hroot j n hj with ⟨rfl, rfl⟩ | ⟨-, hj', -⟩
      · omega
      · exact hs.root_inj i j n hi' hj'
  · intro pl pl' P P' m hpl hpl'
    rcases hspot pl P m hpl with ⟨rfl, hlt⟩ | ⟨-, hold, hlt⟩
    · rcases hspot pl' P' m hpl' with ⟨rfl, -⟩ | ⟨-, -, hlt'⟩
      · exact h.inj pl pl' m hpl hpl'
      · omega
    · rcases hspot pl' P' m hpl' with ⟨rfl, hlt'⟩ | ⟨-, hold', -⟩
      · omega
      · exact hs.marker_inj pl pl' P P' m hold hold'
  · intro pl P m hpl
    rcases hspot pl P m hpl with ⟨rfl, hlt⟩ | ⟨-, hold, hlt⟩
    · exact h.not_isRoot_of_lt hs hlt
    · exact h.not_isRoot hlt (hs.marker_not_root pl P m hold)

/-- What is listed below the root of the new instance is within its view. -/
theorem within (hs : L.Sound f.size) (ht : f.Tidy) {m : NodeId} (hm : ReflTransGen f'.Listed m r) :
    L'.Within f' r m ∧ r.index ≤ m.index := by
  induction hm using ReflTransGen.head_induction_on with
  | refl => exact ⟨.top, Nat.le_refl _⟩
  | @head n p hn _ ih =>
    obtain ⟨hw, hle⟩ := ih
    have hp : f.size ≤ p.index := h.index ▸ hle
    have hrec := h.grown.new_listed n p hp hn
    have hnew : f.size ≤ n.index := by
      by_contra hlt
      rw [h.grown.old_recorded n (Nat.not_le.1 hlt)] at hrec
      exact absurd (ht.recorded_lt n p hrec) (Nat.not_lt.2 hp)
    have hlt := Nat.lt_of_le_of_lt hle (h.grown.new_recorded n p hnew hrec).2
    exact ⟨.listed (h.not_isRoot_of_lt hs hlt) hn hw, Nat.le_of_lt hlt⟩

/-- The views that were there have the lists that they had. -/
theorem sameView (hs : L.Sound f.size) (ht : f.Tidy) : L.SameView f L' f' P := by
  intro q n hq hn
  have hlt {m : NodeId} (hm : L.Within f q m) : m.index < f.size := by
    cases hm with
    | top => exact hs.root_lt P _ hq
    | listed _ hc _ => exact Forest.lt_size_of_parent? (ht.parent_of_mem _ _ hc)
  refine ⟨hn.congr fun p hp c hc hcr => ⟨?_, ?_⟩, h.grown.old_children n (hlt hn)⟩
  · rw [h.grown.old_children p (hlt hp)]
    exact hc
  · exact h.not_isRoot (Forest.lt_size_of_parent? (ht.parent_of_mem _ _ hc)) hcr

theorem linked (hl : L.Linked f att live occ) (hlive : ∀ j, live' j ↔ live j ∨ j = x)
    (hx : ¬ live x) : L'.Linked f' att live' occ := by
  have hx_live {j : InstanceId} (hj : live j) : j ≠ x := by
    rintro rfl
    exact hx hj
  have hold {pl : Place} {P : InstanceId} {m : NodeId} (hP : live P) :
      L'.spot pl = some (P, m) ↔ L.spot pl = some (P, m) := h.spot_other pl P m (hx_live hP)
  have hempty {pl : Place} {m : NodeId} (hpl : L'.spot pl = some (x, m)) : occ pl = [] := by
    refine List.eq_nil_iff_forall_not_mem.2 fun i hi => ?_
    obtain ⟨P, m', hspot, hP⟩ := hl.live_owner i pl hi
    rw [(hold hP).2 hspot] at hpl
    obtain ⟨rfl, -⟩ := Prod.mk.inj (Option.some.inj hpl)
    exact hx hP
  -- old nodes stand on old lists only
  have hlist {n q : NodeId} (hn : n.index < f.size) (hmem : n ∈ f'.children q) : n ∈ f.children q := by
    rcases Nat.lt_or_ge q.index f.size with hq | hq
    · rwa [h.grown.old_children q hq] at hmem
    · have hrec := h.grown.new_listed n q hq hmem
      rw [h.grown.old_recorded n hn] at hrec
      exact absurd (hl.tidy.recorded_lt n q hrec) (Nat.not_lt.2 hq)
  have hkeep {n q : NodeId} (hmem : n ∈ f.children q) : n ∈ f'.children q := by
    rw [h.grown.old_children q (Forest.lt_size_of_mem_children hmem)]
    exact hmem
  refine ⟨h.grown.tidy hl.tidy, h.sound hl.sound, ?_, hl.place_iff, hl.nodup, ?_, ?_, ?_, ?_, ?_⟩
  · intro i hi
    rcases (hlive i).1 hi with hi | rfl
    · rw [h.root_other i (hx_live hi)]
      exact hl.rooted i hi
    · exact ⟨r, h.root_self⟩
  · intro i pl hi
    exact (hlive i).2 (Or.inl (hl.live_item i pl hi))
  · intro i pl hi
    obtain ⟨P, m, hspot, hP⟩ := hl.live_owner i pl hi
    exact ⟨P, m, (hold hP).2 hspot, (hlive P).2 (Or.inl hP)⟩
  · intro pl P m hP hspot
    rcases (hlive P).1 hP with hP | rfl
    · obtain ⟨q, hq, hw⟩ := hl.within pl P m hP ((hold hP).1 hspot)
      refine ⟨q, ?_, (h.sameView hl.sound hl.tidy q m hq hw).1⟩
      rw [h.root_other P (hx_live hP)]
      exact hq
    · exact ⟨r, h.root_self, (h.within hl.sound hl.tidy (h.marker pl m hspot).2.2).1⟩
  · intro pl P m hP hspot
    rcases (hlive P).1 hP with hP | rfl
    · obtain ⟨e, he⟩ := hl.row pl P m hP ((hold hP).1 hspot)
      refine ⟨e, ?_⟩
      have hroots : (occ pl).filterMap L'.root = (occ pl).filterMap L.root :=
        List.filterMap_congr fun i hi => h.root_other i (hx_live (hl.live_item i pl hi))
      rw [hroots, h.grown.old_children e (Forest.lt_size_of_mem_children (he.subset List.mem_cons_self))]
      exact he
    · obtain ⟨hlt, -, hm⟩ := h.marker pl m hspot
      rw [hempty hspot]
      rcases ReflTransGen.cases_head hm with rfl | ⟨e, he, -⟩
      · exact absurd hlt (Nat.lt_irrefl _)
      · exact ⟨e, (List.singleton_infix_iff _ _).2 he⟩
  · intro i q e hq hmem
    rcases ne_or_eq i x with hi | rfl
    · rw [h.root_other i hi] at hq
      obtain ⟨pl, P, m, hpl, hspot, hm⟩ := hl.listed i q e hq (hlist (hl.sound.root_lt i q hq) hmem)
      obtain ⟨P', m', hspot', hP⟩ := hl.live_owner i pl hpl
      obtain ⟨rfl, rfl⟩ := Prod.mk.inj (Option.some.inj (hspot.symm.trans hspot'))
      exact ⟨pl, P, m, hpl, (hold hP).2 hspot, hkeep hm⟩
    · -- the new root stands on no list
      obtain rfl := Option.some.inj (hq.symm.trans h.root_self)
      rcases Nat.lt_or_ge e.index f.size with he | he
      · rw [h.grown.old_children e he] at hmem
        have hlt := Forest.lt_size_of_parent? (hl.tidy.parent_of_mem _ _ hmem)
        exact absurd hlt (Nat.not_lt.2 (Nat.le_of_eq h.index.symm))
      · have hfree := h.free
        rw [h.grown.new_listed q e he hmem] at hfree
        cases hfree

end Adds

end Layout

theorem Table.size_push {α : Type} (t : Table α) (a : α) : (t.push a).size = t.size + 1 :=
  Array.size_push _

namespace World

/-! ## The sites of a new instance -/

variable {w w' w'' : World} {owner i : InstanceId} {anchors : Dict String (NodeId × Sink)}
  {ps : List PropertyDescriptor} {sites : List Site}

/-- The site that a property gets, where collections are new from a number on. -/
inductive SiteOf (w : World) (owner : InstanceId) (anchors : Dict String (NodeId × Sink)) (start : Nat)
    (p : PropertyDescriptor) : Site → Prop where
  | nodes {types : Option (List PrimitiveType)} {places : NodeSet} :
      p.kind = .primitive types → SiteOf w owner anchors start p (.nodes places)
  | slot {element : ElementType} {anchor : NodeId} {sink : Sink} :
      p.kind = .slot element → anchors.get? p.name = some (anchor, sink) →
        SiteOf w owner anchors start p (.slot anchor sink)
  | sequence {element : ElementType} {anchor : NodeId} {sink : Sink} {c : CollectionId} :
      p.kind = .sequence element → anchors.get? p.name = some (anchor, sink) → start ≤ c.index →
        w.coll? c = some
          { element := element, anchor := anchor, owner := owner, property := p.name, sink := sink } →
        SiteOf w owner anchors start p (.sequence c)

/-- `w'` is `w` with the collections of some properties, whose sites are given. -/
structure Sited (w w' : World) (owner : InstanceId) (anchors : Dict String (NodeId × Sink))
    (ps : List PropertyDescriptor) (sites : List Site) : Prop where
  same : w' = { w with collections := w'.collections }
  size_le : w.collections.size ≤ w'.collections.size
  old : ∀ c : CollectionId, c.index < w.collections.size → w'.coll? c = w.coll? c
  length : sites.length = ps.length
  site : ∀ (n : Nat) p s, ps[n]? = some p → sites[n]? = some s →
    w'.SiteOf owner anchors w.collections.size p s
  new : ∀ c x, w.collections.size ≤ c.index → w'.coll? c = some x →
    ∃ n : Nat, sites[n]? = some (.sequence c)

theorem index_lt_of_coll? {c : CollectionId} {x : Collection} (h : w.coll? c = some x) :
    c.index < w.collections.size :=
  (Array.getElem?_eq_some_iff.1 h).1

theorem SiteOf.congr {start start' : Nat} {p : PropertyDescriptor} {s : Site}
    (h : w.SiteOf owner anchors start p s) (hle : start' ≤ start)
    (hcoll : ∀ c : CollectionId, c.index < w.collections.size → w'.coll? c = w.coll? c) :
    w'.SiteOf owner anchors start' p s := by
  cases h with
  | nodes hk => exact .nodes hk
  | slot hk hanchor => exact .slot hk hanchor
  | sequence hk hanchor hstart hcollection =>
    refine .sequence hk hanchor (Nat.le_trans hle hstart) ?_
    rw [hcoll _ (index_lt_of_coll? hcollection)]
    exact hcollection

theorem sited_one {p : PropertyDescriptor} {s : Site} (hsame : w' = { w with collections := w'.collections })
    (hold : ∀ c : CollectionId, c.index < w.collections.size → w'.coll? c = w.coll? c)
    (hle : w.collections.size ≤ w'.collections.size) (hs : w'.SiteOf owner anchors w.collections.size p s)
    (hnew : ∀ c x, w.collections.size ≤ c.index → w'.coll? c = some x → s = .sequence c) :
    w.Sited w' owner anchors [p] [s] where
  same := hsame
  size_le := hle
  old := hold
  length := rfl
  site n q t hq ht := by
    cases n with
    | zero =>
      obtain rfl := Option.some.inj hq
      obtain rfl := Option.some.inj ht
      exact hs
    | succ n => cases hq
  new c x hle hx := ⟨0, by rw [hnew c x hle hx]; rfl⟩

theorem siteOf_sound {p : PropertyDescriptor} {places : NodeSet} {s : Site}
    (h : w.siteOf owner anchors p places = .ok (s, w')) : w.Sited w' owner anchors [p] [s] := by
  have hnone {c : CollectionId} {x : Collection} (hle : w.collections.size ≤ c.index)
      (hx : w.coll? c = some x) : False := absurd (index_lt_of_coll? hx) (Nat.not_lt.2 hle)
  unfold siteOf at h
  split at h
  · next types hk =>
    obtain ⟨rfl, rfl⟩ := Prod.mk.inj (Except.ok.inj h)
    exact sited_one rfl (fun _ _ => rfl) (Nat.le_refl _) (.nodes hk) fun c x hle hx => (hnone hle hx).elim
  · next element hk =>
    split at h
    · next anchor sink hanchor =>
      obtain ⟨rfl, rfl⟩ := Prod.mk.inj (Except.ok.inj h)
      exact sited_one rfl (fun _ _ => rfl) (Nat.le_refl _) (.slot hk hanchor)
        fun c x hle hx => (hnone hle hx).elim
    · cases h
  · next element hk =>
    split at h
    · next anchor sink hanchor =>
      obtain ⟨rfl, rfl⟩ := Prod.mk.inj (Except.ok.inj h)
      refine sited_one rfl (fun c hc => Table.get?_push_of_lt _ _ _ hc) ?_
        (.sequence hk hanchor (Nat.le_refl _) (Table.get?_push_self _ _)) ?_
      · exact Nat.le_of_lt (Nat.lt_of_lt_of_eq (Nat.lt_succ_self _) (Table.size_push _ _).symm)
      · intro c x hle hx
        have hlt : c.index < w.collections.size + 1 :=
          Nat.lt_of_lt_of_eq (index_lt_of_coll? hx) (Table.size_push _ _)
        have hc : c = ⟨w.collections.size⟩ := by
          cases c
          exact congrArg CollectionId.mk (Nat.le_antisymm (Nat.le_of_lt_succ hlt) hle)
        rw [hc]
    · cases h

theorem Sited.cons {p : PropertyDescriptor} {s : Site} (h : w.Sited w' owner anchors [p] [s])
    (h' : w'.Sited w'' owner anchors ps sites) : w.Sited w'' owner anchors (p :: ps) (s :: sites) where
  same := by rw [h'.same, h.same]
  size_le := Nat.le_trans h.size_le h'.size_le
  old c hc := (h'.old c (Nat.lt_of_lt_of_le hc h.size_le)).trans (h.old c hc)
  length := congrArg (· + 1) h'.length
  site n q t hq ht := by
    cases n with
    | zero =>
      obtain rfl := Option.some.inj hq
      obtain rfl := Option.some.inj ht
      exact (h.site 0 p s rfl rfl).congr (Nat.le_refl _) h'.old
    | succ n => exact (h'.site n q t hq ht).congr h.size_le fun _ _ => rfl
  new c x hle hx := by
    rcases Nat.lt_or_ge c.index w'.collections.size with hc | hc
    · rw [h'.old c hc] at hx
      obtain ⟨n, hn⟩ := h.new c x hle hx
      cases n with
      | zero => exact ⟨0, hn⟩
      | succ n => cases hn
    · obtain ⟨n, hn⟩ := h'.new c x hc hx
      exact ⟨n + 1, hn⟩

theorem sitesOf_sound {nodes : List NodeSet} (h : w.sitesOf owner anchors ps nodes = .ok (sites, w')) :
    w.Sited w' owner anchors ps sites := by
  induction ps generalizing w nodes sites with
  | nil =>
    obtain ⟨rfl, rfl⟩ := Prod.mk.inj (Except.ok.inj h)
    refine ⟨rfl, Nat.le_refl _, fun _ _ => rfl, rfl, ?_, ?_⟩
    · intro n p s hp
      cases hp
    · intro c x hle hx
      exact absurd (index_lt_of_coll? hx) (Nat.not_lt.2 hle)
  | cons p ps ih =>
    unfold sitesOf at h
    split at h
    · cases h
    · next hsite =>
      split at h
      · cases h
      · next hsites =>
        obtain ⟨rfl, rfl⟩ := Prod.mk.inj (Except.ok.inj h)
        exact (siteOf_sound hsite).cons (ih hsites)

/-- The view that a class declares is built from one state of the walk to another, and no marker has been noted
before. -/
def BuildsView (d : Descriptor) (owner : InstanceId) (root : NodeId) (b b' : Building) : Prop :=
  b.anchors = [] ∧ ∃ v, d.view = some v ∧ b.build d owner none v = .ok (some root, b')

/-- The live view of an instance is a tree that has been planted, and its sites follow the markers. -/
theorem bindView_sound {d : Descriptor} {view : View} (h : w.bindView d owner = .ok (view, w')) :
    ∃ b b' : Building, BuildsView d owner view.root b b' ∧ b.forest = w.forest ∧ b'.Sturdy w.forest ∧
      b.Planted b' view.root ∧
      Sited { w with screen := b'.screen } w' owner b'.anchors d.properties view.sites := by
  unfold bindView at h
  split at h
  · next shape children hv =>
    extract_lets start at h
    split at h
    · cases h
    · cases h
    · next root b hbuild =>
      split at h
      · cases h
      · next sites w₁ hsites =>
        obtain ⟨rfl, rfl⟩ := Prod.mk.inj (Except.ok.inj h)
        have hstart : start.Sturdy w.forest := by
          refine ⟨.rfl, ?_, ?_⟩
          · intro name m s hm
            cases hm
          · intro name name' m s s' hm
            cases hm
        obtain ⟨hsturdy, -, hplanted⟩ := Building.build_sound hstart (fun h => by cases h) _ hbuild
        exact ⟨start, b, ⟨rfl, _, hv, hbuild⟩, rfl, hsturdy, hplanted, sitesOf_sound hsites⟩
  · cases h

/-! ## Making an instance -/

/-- `w'` is `w` with one more instance of a class, whose view has just been built. -/
structure Joins (w w' : World) (i : InstanceId) (id : ClassId) (c : Class) (view : View)
    (b b' : Building) : Prop where
  classes : w'.classes = w.classes
  spaces : w'.spaces = w.spaces
  handles : w.SameHandles w'
  fresh : w.inst? i = none
  other : ∀ j, j ≠ i → w'.inst? j = w.inst? j
  self : ∃ attrs, w'.inst? i = some
    { classId := id, view := some view, values := view.sites.map placeholder, attrValues := attrs }
  start : b.forest = w.forest
  forest : w'.forest = b'.forest
  sturdy : b'.Sturdy w.forest
  planted : b.Planted b' view.root
  old : ∀ c : CollectionId, c.index < w.collections.size → w'.coll? c = w.coll? c
  length : view.sites.length = c.descriptor.properties.length
  site : ∀ (n : Nat) p s, c.descriptor.properties[n]? = some p → view.sites[n]? = some s →
    w'.SiteOf i b'.anchors w.collections.size p s
  new : ∀ d x, w.collections.size ≤ d.index → w'.coll? d = some x →
    ∃ n : Nat, view.sites[n]? = some (.sequence d)

theorem createInstance_builds {id : ClassId} {c : Class}
    (h : w.createInstance id c.descriptor = .ok (i, w')) :
    i = ⟨w.instances.size⟩ ∧ ∃ view b b', BuildsView c.descriptor i view.root b b' ∧ w.Joins w' i id c view b b' := by
  unfold createInstance at h
  generalize hx₀ : ({
    classId := id
    values := c.descriptor.properties.map fun _ => .null
    attrValues := c.descriptor.attributes.map fun _ => .null } : Instance) = x₀ at h
  dsimp only at h
  split at h
  · cases h
  · next view w₁ hview =>
    obtain ⟨rfl, rfl⟩ := Prod.mk.inj (Except.ok.inj h)
    obtain ⟨b, b', hbuilds, hstart, hsturdy, hplanted, hsited⟩ := bindView_sound hview
    have hinst (j : InstanceId) : w₁.inst? j = (w.pushInstance x₀).2.inst? j := by
      rw [hsited.same]
      rfl
    refine ⟨rfl, view, b, b', hbuilds, ?_⟩
    refine ⟨?_, ?_, ⟨?_, ?_⟩, ?_, ?_, ?_, hstart, ?_, hsturdy, hplanted, ?_, hsited.length, ?_, ?_⟩
    · change w₁.classes = w.classes
      rw [hsited.same]
      rfl
    · change w₁.spaces = w.spaces
      rw [hsited.same]
      rfl
    · change w₁.pins = w.pins
      rw [hsited.same]
      rfl
    · change w₁.registry = w.registry
      rw [hsited.same]
      rfl
    · exact Array.getElem?_eq_none (Nat.le_refl _)
    · intro j hj
      rw [inst?_modifyInstance_of_ne _ _ (Ne.symm hj), hinst]
      by_cases hlt : j.index < w.instances.size
      · exact inst?_pushInstance_of_lt w _ j hlt
      · have hne : j.index ≠ w.instances.size := by
          intro heq
          cases j
          exact hj (congrArg InstanceId.mk heq)
        have hnone : w.inst? j = none := Array.getElem?_eq_none (Nat.not_lt.1 hlt)
        rw [hnone]
        refine Array.getElem?_eq_none ?_
        change (w.instances.push x₀).size ≤ j.index
        rw [Table.size_push]
        omega
    · rw [inst?_modifyInstance_self, hinst, inst?_pushInstance, ← hx₀]
      exact ⟨_, rfl⟩
    · change w₁.screen.forest = b'.screen.forest
      rw [hsited.same]
    · exact hsited.old
    · intro n p s hp hs
      exact (hsited.site n p s hp hs).congr (Nat.le_refl _) fun _ _ => rfl
    · exact hsited.new

theorem createInstance_joins {id : ClassId} {c : Class} (h : w.createInstance id c.descriptor = .ok (i, w')) :
    i = ⟨w.instances.size⟩ ∧ ∃ view b b', w.Joins w' i id c view b b' := by
  obtain ⟨hi, view, b, b', -, hjoins⟩ := createInstance_builds h
  exact ⟨hi, view, b, b', hjoins⟩

/-- The place that a site of an instance is for. -/
def placeAt (i : InstanceId) (name : String) : Site → Option Place
  | .nodes _ => none
  | .slot _ _ => some (.slot i name)
  | .sequence c => some (.sequence c)

namespace Joins

variable {id : ClassId} {c : Class} {view : View} {b b' : Building}
  (h : w.Joins w' i id c view b b')

include h

theorem class? (id : ClassId) : w'.class? id = w.class? id := by
  unfold World.class?
  rw [h.classes]

theorem toExtends : w.Extends w' where
  classes := h.classes
  inst j x hx := by
    have hj : j ≠ i := by
      rintro rfl
      rw [h.fresh] at hx
      cases hx
    exact ⟨x, (h.other j hj).trans hx, rfl⟩
  coll d x hx := ⟨x, (h.old d (index_lt_of_coll? hx)).trans hx, rfl⟩

/-- A new collection belongs to the new instance and is empty. -/
theorem new_coll {d : CollectionId} {x : Collection} (hd : w.collections.size ≤ d.index)
    (hx : w'.coll? d = some x) : x.owner = i ∧ x.items = [] ∧ x.alive = true ∧
      ∃ (n : Nat) (p : PropertyDescriptor) (sink : Sink), c.descriptor.properties[n]? = some p ∧
        view.sites[n]? = some (.sequence d) ∧ b'.anchors.get? p.name = some (x.anchor, sink) := by
  obtain ⟨n, hn⟩ := h.new d x hd hx
  have hlt : n < c.descriptor.properties.length := h.length ▸ (List.getElem?_eq_some_iff.1 hn).1
  have hp := List.getElem?_eq_getElem hlt
  cases h.site n _ _ hp hn with
  | sequence _ hget _ hcoll =>
    obtain rfl := Option.some.inj (hx.symm.trans hcoll)
    exact ⟨rfl, rfl, rfl, n, _, _, hp, hn, hget⟩

/-- A place of the new instance is the place of one of its sites, with the marker noted for it. -/
theorem spot_new (hb : w.Built) (hc : w.class? id = some c) {pl : Place} {m : NodeId} (hpl : w'.layout.spot pl = some (i, m)) :
    ∃ (n : Nat) (p : PropertyDescriptor) (s : Site) (sink : Sink),
      c.descriptor.properties[n]? = some p ∧ view.sites[n]? = some s ∧
      b'.anchors.get? p.name = some (m, sink) ∧ placeAt i p.name s = some pl := by
  cases pl with
  | sequence d =>
    obtain ⟨x, hx, howner, hanchor⟩ := spot_sequence hpl
    rcases Nat.lt_or_ge d.index w.collections.size with hd | hd
    · -- collections that were there belong to instances that were there
      rw [h.old d hd] at hx
      obtain ⟨y, hy, -⟩ := hb.coll d x hx
      rw [howner, h.fresh] at hy
      cases hy
    · obtain ⟨-, -, -, n, p, sink, hp, hs, hget⟩ := h.new_coll hd hx
      exact ⟨n, p, _, sink, hp, hs, hanchor ▸ hget, rfl⟩
  | slot P name =>
    obtain rfl := spot_slot hpl
    have hmarker : (w'.slotMarker? i name).map (fun m => (i, m)) = some (i, m) := hpl
    obtain ⟨m', hm', heq⟩ := Option.map_eq_some_iff.1 hmarker
    obtain ⟨-, rfl⟩ := Prod.mk.inj heq
    obtain ⟨attrs, hself⟩ := h.self
    unfold slotMarker? at hm'
    rw [hself, Option.bind_some] at hm'
    rw [h.class?, hc, Option.bind_some] at hm'
    obtain ⟨n, hn, hsite⟩ := Option.bind_eq_some_iff.1 hm'
    obtain ⟨p, hp, rfl⟩ := Descriptor.propertyIndex?_some hn
    dsimp only [Option.bind_some] at hsite
    split at hsite
    · next anchor sink hs =>
      obtain rfl := Option.some.inj hsite
      cases h.site n p _ hp hs with
      | slot _ hget => exact ⟨n, p, _, sink, hp, hs, hget, rfl⟩
    · cases hsite

theorem adds (hb : w.Built) (hc : w.class? id = some c) :
    w.layout.Adds w'.layout w.forest w'.forest i view.root := by
  have hvalid := hb.compiled.valid hc
  obtain ⟨attrs, hself⟩ := h.self
  have hindex : view.root.index = w.forest.size := by rw [h.planted.index, h.start]
  refine ⟨?_, hindex, ?_, ?_, ?_, ?_, ?_, ?_, ?_⟩
  · rw [h.forest]
    exact h.sturdy.grown
  · rw [h.forest]
    exact h.planted.lt
  · rw [h.forest]
    exact h.planted.free
  · change ((w'.inst? i).bind (·.view)).map (·.root) = _
    rw [hself]
    rfl
  · intro j hj
    change ((w'.inst? j).bind (·.view)).map (·.root) = _
    rw [h.other j hj]
    rfl
  · intro pl P m hP
    refine ⟨fun hpl => ?_, h.toExtends.spot⟩
    cases pl with
    | sequence d =>
      obtain ⟨x, hx, howner, hanchor⟩ := spot_sequence hpl
      rcases Nat.lt_or_ge d.index w.collections.size with hd | hd
      · rw [h.old d hd] at hx
        change (w.coll? d).map (fun x => (x.owner, x.anchor)) = _
        rw [hx, ← howner, ← hanchor]
        rfl
      · exact absurd (howner.symm.trans (h.new_coll hd hx).1) hP
    | slot Q name =>
      obtain rfl := spot_slot hpl
      change (w'.slotMarker? P name).map (fun m => (P, m)) = _ at hpl
      change (w.slotMarker? P name).map (fun m => (P, m)) = _
      rw [← hpl]
      unfold slotMarker?
      rw [h.other P hP]
      simp only [h.class?]
  · intro pl m hpl
    obtain ⟨n, p, s, sink, hp, hs, hget, -⟩ := h.spot_new hb hc hpl
    obtain ⟨hlt, hlt'⟩ := h.sturdy.range _ _ _ hget
    rw [h.forest]
    refine ⟨hindex ▸ hlt, hlt', h.planted.below m ?_ hlt'⟩
    rw [h.start]
    exact Nat.le_of_lt hlt
  · intro pl pl' m hpl hpl'
    obtain ⟨n, p, s, sink, hp, hs, hget, hplace⟩ := h.spot_new hb hc hpl
    obtain ⟨n', p', s', sink', hp', hs', hget', hplace'⟩ := h.spot_new hb hc hpl'
    have hname := h.sturdy.inj _ _ _ _ _ hget hget'
    have hn := hvalid.descriptor.propertyIndex?_name hp
    have hn' := hvalid.descriptor.propertyIndex?_name hp'
    rw [hname, hn'] at hn
    obtain rfl := Option.some.inj hn
    obtain rfl := Option.some.inj (hs.symm.trans hs')
    rw [hname, hplace'] at hplace
    exact (Option.some.inj hplace).symm

theorem isAlive_iff (j : InstanceId) : w'.isAlive j = true ↔ w.isAlive j = true ∨ j = i := by
  unfold isAlive
  by_cases hj : j = i
  · subst hj
    obtain ⟨attrs, hself⟩ := h.self
    rw [hself]
    simp
  · rw [h.other j hj]
    simp [hj]

theorem placeOf? (j : InstanceId) : w'.placeOf? j = w.placeOf? j := by
  unfold World.placeOf? attachment?
  by_cases hj : j = i
  · subst hj
    obtain ⟨attrs, hself⟩ := h.self
    rw [hself, h.fresh]
    rfl
  · rw [h.other j hj]

theorem itemsOf (d : CollectionId) : w'.itemsOf d = w.itemsOf d := by
  unfold World.itemsOf
  rcases Nat.lt_or_ge d.index w.collections.size with hd | hd
  · rw [h.old d hd]
  · have hnone : w.coll? d = none := Array.getElem?_eq_none hd
    rw [hnone]
    cases hx : w'.coll? d with
    | none => rfl
    | some x => exact (h.new_coll hd hx).2.1

theorem occupants : w'.occupants = w.occupants := by
  funext pl
  cases pl with
  | sequence d => exact h.itemsOf d
  | slot P name =>
    by_cases hP : P = i
    · -- nothing is stored in the new instance yet
      subst hP
      have hold : w.isAlive P = false := by
        unfold isAlive
        rw [h.fresh]
      have hnew : w'.occupants (.slot P name) = [] := by
        refine List.eq_nil_iff_forall_not_mem.2 fun x hx => ?_
        obtain ⟨-, hstored⟩ := mem_occupants_slot.1 hx
        obtain ⟨y, c', n, hy, -, -, hval⟩ := exists_of_stored? hstored
        obtain ⟨attrs, hself⟩ := h.self
        obtain rfl := Option.some.inj (hy.symm.trans hself)
        obtain ⟨s, -, hs⟩ := List.mem_map.1 (List.mem_of_getElem? hval)
        cases s <;> cases hs
      rw [hnew]
      unfold World.occupants
      dsimp only
      rw [hold]
      rfl
    · unfold World.occupants isAlive stored?
      dsimp only
      rw [h.other P hP]
      simp only [h.class?]

theorem formed (hc : w.class? id = some c) {x : Instance} (hx : w'.inst? i = some x) :
    w'.Formed i x c view := by
  obtain ⟨attrs, hself⟩ := h.self
  obtain rfl := Option.some.inj (hx.symm.trans hself)
  refine ⟨(h.class? id).trans hc, rfl, h.length, ?_, rfl, ?_⟩
  · rw [List.length_map, h.length]
  · intro n p s val hp hs hval
    obtain rfl : placeholder s = val := by
      rw [List.getElem?_map, hs] at hval
      exact Option.some.inj hval
    cases h.site n p s hp hs with
    | nodes hk =>
      rw [hk]
      exact .primitive rfl
    | slot hk =>
      rw [hk]
      exact .empty
    | sequence hk _ _ hcoll =>
      rw [hk]
      exact .sequence hcoll rfl rfl

theorem built (hb : w.Built) (hc : w.class? id = some c) : w'.Built where
  compiled := h.classes ▸ hb.compiled
  plain := h.classes ▸ hb.plain
  inst P x hx := by
    by_cases hP : P = i
    · subst hP
      exact ⟨c, view, h.formed hc hx⟩
    · rw [h.other P hP] at hx
      obtain ⟨c', v, hf⟩ := hb.inst P x hx
      exact ⟨c', v, hf.congr h.toExtends rfl rfl⟩
  coll d x hx := by
    rcases Nat.lt_or_ge d.index w.collections.size with hd | hd
    · rw [h.old d hd] at hx
      obtain ⟨y, hy, hmem⟩ := hb.coll d x hx
      have hne : x.owner ≠ i := by
        intro heq
        rw [heq, h.fresh] at hy
        cases hy
      exact ⟨y, (h.other _ hne).trans hy, hmem⟩
    · obtain ⟨howner, -, -, n, p, sink, -, hs, -⟩ := h.new_coll hd hx
      obtain ⟨attrs, hself⟩ := h.self
      exact ⟨_, howner ▸ hself, List.mem_map.2 ⟨_, List.mem_of_getElem? hs, rfl⟩⟩
  collAlive d x hx halive := by
    rcases Nat.lt_or_ge d.index w.collections.size with hd | hd
    · rw [h.old d hd] at hx
      obtain ⟨y, hy, -⟩ := hb.coll d x hx
      refine hb.collAlive d x hx (((h.isAlive_iff _).1 halive).resolve_right ?_)
      intro heq
      rw [heq, h.fresh] at hy
      cases hy
    · exact (h.new_coll hd hx).2.2.1
  accepted d x j hx hj := by
    have hmem : j ∈ w.itemsOf d := by
      rw [← h.itemsOf d]
      unfold World.itemsOf
      rw [hx]
      exact hj
    unfold World.itemsOf at hmem
    split at hmem
    · next y hy =>
      have hy' := (h.old d (index_lt_of_coll? hy)).trans hy
      obtain rfl := Option.some.inj (hx.symm.trans hy')
      exact h.toExtends.accepts (hb.accepted d x j hy hmem)
    · cases hmem
  noObjects n ns hns := by
    unfold World.space? at hns
    rw [h.spaces] at hns
    exact hb.noObjects n ns hns

/-- Making an instance keeps a world orderly. -/
theorem orderly (hw : w.Orderly) (hc : w.class? id = some c) : w'.Orderly where
  toBuilt := h.built hw.toBuilt hc
  linked := by
    have hnot : ¬ w.isAlive i = true := by
      unfold isAlive
      rw [h.fresh]
      exact Bool.false_ne_true
    unfold Linked LinkedFor
    rw [h.occupants, funext h.placeOf?]
    exact (h.adds hw.toBuilt hc).linked hw.linked h.isAlive_iff hnot
  handled j hj := by
    rw [h.handles.handles] at hj
    exact (h.isAlive_iff j).2 (Or.inl (hw.handled j hj))

/-- Making an instance is harmless. -/
theorem respects (hw : w.Orderly) (hc : w.class? id = some c) {K : InstanceId → Prop}
    (hK : w.Anchored K) : w.Respects K w' where
  toExtends := h.toExtends
  pins := by
    rw [h.handles.pins]
    exact List.Subset.refl _
  registry := h.handles.registry
  alive P hP := (h.isAlive_iff P).2 (Or.inl (hK P hP).1)
  occ pl P m _ _ := by rw [h.occupants]
  view P _ := (h.adds hw.toBuilt hc).sameView (Layout.Linked.sound hw.linked) (Layout.Linked.tidy hw.linked)

end Joins

end World

end ReactiveView
