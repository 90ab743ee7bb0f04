import ReactiveView.Proofs.Forest.Sweep
import ReactiveView.World.Basic
import Mathlib.Data.List.Infix

/-!
# Layouts of views in a forest

A *layout* says which node is the root of an instance, and for every place which instance owns it and
which node is its marker. A node is *within* a view when the lists lead from the root of the view to it
without passing the root of another instance (`Layout.Within`); every node is within at most one view
(`Layout.Within.unique`).

A forest is *linked* to a record of attachments and to the occupants of all places when both say the same
and the roots of the occupants of a place stand directly behind its marker, in order
(`Layout.Linked`). The four changes that occur keep this: an instance is put into a place
(`Linked.attach`), taken out of one (`Linked.detach`), goes out of use (`Linked.of_fewer`), or nodes that
nothing holds are swept (`Linked.prune`). The first two change the list of one node only, which lies within
the view of the owner of the place.
-/

set_option autoImplicit false

namespace ReactiveView

open Relation

/-- The roots of instances, and the owners and markers of places. -/
structure Layout where
  root : InstanceId → Option NodeId
  spot : Place → Option (InstanceId × NodeId)

namespace Layout

/-- A node is the root of some instance. -/
def IsRoot (L : Layout) (n : NodeId) : Prop := ∃ i, L.root i = some n

/-- Roots belong to one instance, markers to one place, and no node is both. All of them are nodes of a
forest of the given size. -/
structure Sound (L : Layout) (size : Nat) : Prop where
  root_lt : ∀ i r, L.root i = some r → r.index < size
  marker_lt : ∀ pl P m, L.spot pl = some (P, m) → m.index < size
  root_inj : ∀ i j r, L.root i = some r → L.root j = some r → i = j
  marker_inj : ∀ pl pl' P P' m, L.spot pl = some (P, m) → L.spot pl' = some (P', m) → pl = pl'
  marker_not_root : ∀ pl P m, L.spot pl = some (P, m) → ¬ L.IsRoot m

/-- The lists lead from `r` to a node without passing the root of another instance. -/
inductive Within (L : Layout) (f : Forest) (r : NodeId) : NodeId → Prop where
  | top : Within L f r r
  | listed {n p : NodeId} : ¬ L.IsRoot n → n ∈ f.children p → Within L f r p → Within L f r n

variable {L L' : Layout} {f f' : Forest} {r r' n p q e m a : NodeId} {P Q x : InstanceId} {pl : Place}

/-- A node is within the view of one root. -/
theorem Within.unique (ht : f.Tidy) (hr : L.IsRoot r) (hr' : L.IsRoot r') (h : L.Within f r n)
    (h' : L.Within f r' n) : r = r' := by
  induction h with
  | top =>
    cases h' with
    | top => rfl
    | listed hn => exact absurd hr hn
  | listed hn hp _ ih =>
    cases h' with
    | top => exact absurd hr' hn
    | listed _ hp' hw' =>
      rw [ht.parent_unique hp' hp] at hw'
      exact ih hw'

/-- What is within a view stays there as long as the lists of the view keep what is not a root. -/
theorem Within.congr (h : L.Within f r n)
    (hkeep : ∀ q, L.Within f r q → ∀ c, c ∈ f.children q → ¬ L.IsRoot c →
      c ∈ f'.children q ∧ ¬ L'.IsRoot c) : L'.Within f' r n := by
  induction h with
  | top => exact .top
  | listed hn hp hw ih =>
    obtain ⟨hmem, hroot⟩ := hkeep _ hw _ hp hn
    exact .listed hroot hmem ih

/-- What lists a node within a view that is not a root is within the view. -/
theorem Within.of_mem (ht : f.Tidy) (h : L.Within f r n) (hr : L.IsRoot r) (hn : ¬ L.IsRoot n)
    (hmem : n ∈ f.children q) : L.Within f r q := by
  cases h with
  | top => exact absurd hr hn
  | listed _ hp hw =>
    rw [ht.parent_unique hmem hp]
    exact hw

/-- Climbing from a node within a view leads to the root. -/
theorem Within.reflTransGen (ht : f.Tidy) (h : L.Within f r n) : ReflTransGen f.Up n r := by
  induction h with
  | top => exact .refl
  | listed _ hp _ ih => exact .head (ht.parent_of_mem _ _ hp) ih

/-- The forest, the record of attachments and the occupants of all places agree. -/
structure Linked (L : Layout) (f : Forest) (att : InstanceId → Option Place)
    (live : InstanceId → Prop) (occ : Place → List InstanceId) : Prop where
  tidy : f.Tidy
  sound : L.Sound f.size
  rooted : ∀ i, live i → ∃ r, L.root i = some r
  place_iff : ∀ i pl, att i = some pl ↔ i ∈ occ pl
  nodup : ∀ pl, (occ pl).Nodup
  live_item : ∀ i pl, i ∈ occ pl → live i
  live_owner : ∀ i pl, i ∈ occ pl → ∃ P m, L.spot pl = some (P, m) ∧ live P
  within : ∀ pl P m, live P → L.spot pl = some (P, m) → ∃ r, L.root P = some r ∧ L.Within f r m
  row : ∀ pl P m, live P → L.spot pl = some (P, m) →
    ∃ e, (m :: (occ pl).filterMap L.root) <:+: f.children e
  listed : ∀ i r q, L.root i = some r → r ∈ f.children q →
    ∃ pl P m, i ∈ occ pl ∧ L.spot pl = some (P, m) ∧ m ∈ f.children q

variable {att : InstanceId → Option Place} {live : InstanceId → Prop}
  {occ : Place → List InstanceId}

namespace Linked

variable (h : L.Linked f att live occ)

include h

/-- What lists the marker of a place is within the view of its owner. -/
theorem within_list (hP : live P) (hspot : L.spot pl = some (P, m)) (hm : m ∈ f.children e) :
    ∃ r, L.root P = some r ∧ L.Within f r e := by
  obtain ⟨r, hr, hw⟩ := h.within pl P m hP hspot
  exact ⟨r, hr, hw.of_mem h.tidy ⟨P, hr⟩ (h.sound.marker_not_root pl P m hspot) hm⟩

/-- The root of a free instance stands on no list. -/
theorem not_listed {rx : NodeId} (hrx : L.root x = some rx) (hfree : att x = none) :
    ∀ q, rx ∉ f.children q := by
  intro q hq
  obtain ⟨pl, _, _, hmem, -⟩ := h.listed x rx q hrx hq
  rw [(h.place_iff x pl).2 hmem] at hfree
  cases hfree

/-- The row of one place holds neither the marker nor an occupant's root of another place. -/
theorem not_mem_row {pl' : Place} {P' : InstanceId} {m' : NodeId} (hne : pl' ≠ pl)
    (hspot : L.spot pl = some (P, m)) (hspot' : L.spot pl' = some (P', m'))
    (ha : a = m ∨ ∃ y ∈ occ pl, L.root y = some a) : a ∉ m' :: (occ pl').filterMap L.root := by
  intro hmem
  rcases ha with rfl | ⟨y, hy, hya⟩
  · rcases List.mem_cons.1 hmem with rfl | hmem
    · exact hne (h.sound.marker_inj _ _ _ _ _ hspot' hspot)
    · obtain ⟨z, -, hz⟩ := List.mem_filterMap.1 hmem
      exact h.sound.marker_not_root pl P a hspot ⟨z, hz⟩
  · rcases List.mem_cons.1 hmem with rfl | hmem
    · exact h.sound.marker_not_root pl' P' a hspot' ⟨y, hya⟩
    · obtain ⟨z, hz, hza⟩ := List.mem_filterMap.1 hmem
      obtain rfl := h.sound.root_inj _ _ _ hya hza
      have hpl := (h.place_iff y pl).2 hy
      rw [(h.place_iff y pl').2 hz] at hpl
      exact hne (Option.some.inj hpl)

end Linked

theorem Within.sameLinks (h : L.Within f r n) (hl : f.SameLinks f') : L.Within f' r n := by
  refine h.congr fun q _ c hc hcr => ⟨?_, hcr⟩
  rw [hl.children]
  exact hc

/-- Forests with the same links are linked alike. -/
theorem Linked.congr (h : L.Linked f att live occ) (hl : f.SameLinks f') :
    L.Linked f' att live occ where
  tidy := h.tidy.congr hl
  sound := by
    rw [hl.size]
    exact h.sound
  rooted := h.rooted
  place_iff := h.place_iff
  nodup := h.nodup
  live_item := h.live_item
  live_owner := h.live_owner
  within pl P m hP hspot := by
    obtain ⟨r, hr, hw⟩ := h.within pl P m hP hspot
    exact ⟨r, hr, hw.sameLinks hl⟩
  row pl P m hP hspot := by
    obtain ⟨e, he⟩ := h.row pl P m hP hspot
    exact ⟨e, by rw [hl.children]; exact he⟩
  listed i r q hr hq := by
    rw [hl.children] at hq ⊢
    exact h.listed i r q hr hq

/-! ## Rows -/

theorem prefix_split {B s t : List NodeId} (hB : B <+: s ++ a :: t) (ha : a ∉ B) : B <+: s := by
  induction s generalizing B with
  | nil =>
    cases B with
    | nil => exact List.nil_prefix
    | cons b B =>
      obtain ⟨rfl, -⟩ := List.cons_prefix_cons.1 hB
      exact absurd List.mem_cons_self ha
  | cons c s ih =>
    cases B with
    | nil => exact List.nil_prefix
    | cons b B =>
      obtain ⟨rfl, htail⟩ := List.cons_prefix_cons.1 hB
      exact List.cons_prefix_cons.2 ⟨rfl, ih htail fun h => ha (List.mem_cons_of_mem _ h)⟩

/-- A stretch of a list that misses a member lies before it or behind it. -/
theorem infix_split {B s t : List NodeId} (hB : B <:+: s ++ a :: t) (ha : a ∉ B) :
    B <:+: s ∨ B <:+: t := by
  induction s with
  | nil =>
    rcases List.infix_cons_iff.1 hB with hB | hB
    · exact Or.inl (prefix_split (s := []) hB ha).isInfix
    · exact Or.inr hB
  | cons c s ih =>
    rcases List.infix_cons_iff.1 hB with hB | hB
    · exact Or.inl (prefix_split (s := c :: s) hB ha).isInfix
    · exact (ih hB).imp_left List.infix_cons

theorem infix_behind {B s t : List NodeId} (hB : B <:+: s ++ a :: t) (ha : a ∉ B) :
    B <:+: s ++ a :: n :: t := by
  rcases infix_split hB ha with hs | ht
  · exact List.infix_append_of_infix_left hs
  · exact List.infix_append_of_infix_right (List.infix_cons (List.infix_cons ht))

theorem infix_erase {B l : List NodeId} (hB : B <:+: l) (hn : n ∉ B) : B <:+: l.erase n := by
  by_cases hmem : n ∈ l
  · obtain ⟨s, t, -, rfl, herase⟩ := List.exists_erase_eq hmem
    rw [herase]
    rcases infix_split hB hn with hs | ht
    · exact List.infix_append_of_infix_left hs
    · exact List.infix_append_of_infix_right ht
  · rw [List.erase_of_not_mem hmem]
    exact hB

/-- A member of a list without repetitions stands at one position. -/
theorem split_unique {s t s' t' : List NodeId} (hnd : (s ++ a :: t).Nodup)
    (h : s ++ a :: t = s' ++ a :: t') : s = s' ∧ t = t' := by
  rw [h, List.nodup_append] at hnd
  have hs : a ∉ s' := fun hs => hnd.2.2 a hs a List.mem_cons_self rfl
  obtain ⟨hst, -, htt⟩ := (List.append_cons_inj_of_notMem hs (List.nodup_cons.1 hnd.2.1).1).1 h.symm
  exact ⟨hst.symm, htt.symm⟩

/-- The last node of the beginning of a row is the marker or the root of an occupant. -/
theorem eq_or_mem_of_last (L : Layout) {is pre post : List InstanceId} {init : List NodeId}
    (his : is = pre ++ post) (ha : m :: pre.filterMap L.root = init ++ [a]) :
    a = m ∨ ∃ y ∈ is, L.root y = some a := by
  have hmem : a ∈ m :: pre.filterMap L.root := by
    rw [ha]
    exact List.mem_append_right _ (List.mem_singleton_self a)
  rcases List.mem_cons.1 hmem with ham | hmem
  · exact Or.inl ham
  · obtain ⟨y, hy, hya⟩ := List.mem_filterMap.1 hmem
    exact Or.inr ⟨y, his ▸ List.mem_append_left _ hy, hya⟩

theorem erase_middle {α : Type} [DecidableEq α] {s t : List α} {b : α} (hnd : (s ++ b :: t).Nodup) :
    (s ++ b :: t).erase b = s ++ t := by
  have hb : b ∉ s := fun hs => (List.nodup_append.1 hnd).2.2 b hs b List.mem_cons_self rfl
  rw [List.erase_append_right _ hb, List.erase_cons_head]

/-- A node that is put behind a root of a row extends the row there. -/
theorem row_putBehind {rx : NodeId} {pre post : List InstanceId} {init s t : List NodeId} (ht : f.Tidy)
    (hput : f.PutBehind f' e a rx) (hrx : L.root x = some rx) (ha : m :: pre.filterMap L.root = init ++ [a])
    (hst : f.children e = s ++ m :: (pre ++ post).filterMap L.root ++ t) :
    f'.children e = s ++ m :: (pre ++ x :: post).filterMap L.root ++ t := by
  obtain ⟨s₀, t₀, hold, hnew⟩ := hput.row
  rw [List.filterMap_append, ← List.cons_append, ha] at hst
  have hsplit : s₀ ++ a :: t₀ = (s ++ init) ++ a :: (post.filterMap L.root ++ t) := by
    rw [← hold, hst]
    simp
  obtain ⟨rfl, rfl⟩ := split_unique (hold ▸ ht.nodup e) hsplit
  have hrow : m :: (pre.filterMap L.root ++ rx :: post.filterMap L.root) =
      init ++ [a] ++ rx :: post.filterMap L.root := by
    rw [← ha, List.cons_append]
  rw [hnew, List.filterMap_append, List.filterMap_cons_some hrx, hrow]
  simp

/-- A root that is taken out of a row leaves the rest of the row. -/
theorem row_unlink {rx : NodeId} {A B : List InstanceId} {s t : List NodeId} (ht : f.Tidy)
    (hrx : L.root x = some rx) (hst : f.children e = s ++ m :: (A ++ x :: B).filterMap L.root ++ t) :
    (f.unlink rx).children e = s ++ m :: (A ++ B).filterMap L.root ++ t := by
  have hsplit : f.children e = (s ++ m :: A.filterMap L.root) ++ rx :: (B.filterMap L.root ++ t) := by
    rw [hst, List.filterMap_append, List.filterMap_cons_some hrx]
    simp
  have hnd := ht.nodup e
  rw [hsplit] at hnd
  rw [ht.children_unlink, hsplit, erase_middle hnd, List.filterMap_append]
  simp

/-! ## Putting an instance into a place -/

namespace Linked

variable (h : L.Linked f att live occ)

include h

/-- A free instance goes into a place, behind the first occupants, unless it stands above them. -/
theorem attach {rx : NodeId} {pre post init : List _} (hx : live x) (hrx : L.root x = some rx)
    (hfree : att x = none) (hP : live P) (hspot : L.spot pl = some (P, m))
    (hocc : occ pl = pre ++ post) (ha : m :: pre.filterMap L.root = init ++ [a])
    (hout : ¬ ReflTransGen f.Up a rx) :
    ∃ f' e, f.insertAfter a rx = (.ok (), f') ∧ m ∈ f.children e ∧ f.PutBehind f' e a rx ∧
      (∀ s t, f.children e = s ++ m :: (pre ++ post).filterMap L.root ++ t →
        f'.children e = s ++ m :: (pre ++ x :: post).filterMap L.root ++ t) ∧
      L.Linked f' (Function.update att x (some pl)) live
        (Function.update occ pl (pre ++ x :: post)) := by
  obtain ⟨e, u, v, huv⟩ := h.row pl P m hP hspot
  rw [hocc, List.filterMap_append, ← List.cons_append, ha] at huv
  have hmem : a ∈ f.children e := by
    rw [← huv]
    simp
  have hm : m ∈ f.children e := by
    have hmp : m ∈ init ++ [a] := ha ▸ List.mem_cons_self
    rw [← huv]
    exact List.mem_append_left _ (List.mem_append_right _ (List.mem_append_left _ hmp))
  have hlist := h.not_listed hrx hfree
  obtain ⟨f', hf', hput⟩ := h.tidy.insertAfter (h.sound.root_lt x rx hrx) hlist hmem
  have hrow (s t : List NodeId) (hst : f.children e = s ++ m :: (pre ++ post).filterMap L.root ++ t) :=
    row_putBehind h.tidy hput hrx ha hst
  have hocc' (i : InstanceId) (pl' : Place) :
      i ∈ Function.update occ pl (pre ++ x :: post) pl' ↔ i = x ∧ pl' = pl ∨ i ∈ occ pl' := by
    by_cases hpl : pl' = pl
    · subst hpl
      rw [Function.update_self, hocc]
      simp only [List.mem_append, List.mem_cons]
      tauto
    · rw [Function.update_of_ne hpl]
      simp only [hpl, and_false, false_or]
  have hx_free (pl' : Place) : x ∉ occ pl' := by
    intro hmem
    rw [(h.place_iff x pl').2 hmem] at hfree
    cases hfree
  have hate : ReflTransGen f.Up a e := .single (h.tidy.parent_of_mem a e hmem)
  have htidy' : f'.Tidy := hput.tidy h.tidy hlist fun he => hout (hate.trans he)
  have hmarker (pl' : Place) (P' : InstanceId) (m' q : NodeId) (hspot' : L.spot pl' = some (P', m'))
      (hm' : m' ∈ f.children q) : m' ∈ f'.children q := by
    refine (hput.mem_children_iff ?_).2 hm'
    rintro rfl
    exact h.sound.marker_not_root pl' P' m' hspot' ⟨x, hrx⟩
  refine ⟨f', e, hf', hm, hput, hrow, htidy', ?_, h.rooted, ?_, ?_, ?_, ?_, ?_, ?_, ?_⟩
  · rw [hput.size]
    exact h.sound
  · intro i pl'
    rw [hocc']
    by_cases hi : i = x
    · subst hi
      rw [Function.update_self]
      simp only [true_and, hx_free, or_false, Option.some.injEq, eq_comm]
    · rw [Function.update_of_ne hi]
      simp only [hi, false_and, false_or]
      exact h.place_iff i pl'
  · intro pl'
    by_cases hpl : pl' = pl
    · subst hpl
      have hnd := h.nodup pl'
      have hfresh := hx_free pl'
      rw [hocc] at hnd hfresh
      rw [Function.update_self]
      exact List.perm_middle.nodup_iff.2 (List.nodup_cons.2 ⟨hfresh, hnd⟩)
    · rw [Function.update_of_ne hpl]
      exact h.nodup pl'
  · intro i pl' hi
    rcases (hocc' i pl').1 hi with ⟨rfl, -⟩ | hi
    · exact hx
    · exact h.live_item i pl' hi
  · intro i pl' hi
    rcases (hocc' i pl').1 hi with ⟨-, rfl⟩ | hi
    · exact ⟨P, m, hspot, hP⟩
    · exact h.live_owner i pl' hi
  · intro pl' P' m' hP' hspot'
    obtain ⟨r, hr, hw⟩ := h.within pl' P' m' hP' hspot'
    refine ⟨r, hr, hw.congr fun q _ c hc hcr => ⟨?_, hcr⟩⟩
    exact (hput.mem_children_iff (by rintro rfl; exact hcr ⟨x, hrx⟩)).2 hc
  · intro pl' P' m' hP' hspot'
    by_cases hpl : pl' = pl
    · subst hpl
      obtain ⟨-, rfl⟩ := Prod.mk.inj (Option.some.inj (hspot.symm.trans hspot'))
      rw [Function.update_self]
      refine ⟨e, u, v, (hrow u v ?_).symm⟩
      rw [← huv, List.filterMap_append, ← List.cons_append, ha]
    · rw [Function.update_of_ne hpl]
      obtain ⟨e', he'⟩ := h.row pl' P' m' hP' hspot'
      by_cases hee : e' = e
      · subst hee
        obtain ⟨s₀, t₀, hold, hnew⟩ := hput.row
        rw [hold] at he'
        refine ⟨e', hnew ▸ infix_behind he' ?_⟩
        exact h.not_mem_row hpl hspot hspot' (L.eq_or_mem_of_last hocc ha)
      · exact ⟨e', (hput.other e' hee).symm ▸ he'⟩
  · intro i r q hr hq
    by_cases hix : i = x
    · subst hix
      obtain rfl := Option.some.inj (hr.symm.trans hrx)
      obtain rfl := htidy'.parent_unique hq hput.mem_children
      exact ⟨pl, P, m, (hocc' i pl).2 (Or.inl ⟨rfl, rfl⟩), hspot, hmarker pl P m q hspot hm⟩
    · have hne : r ≠ rx := by
        rintro rfl
        exact hix (h.sound.root_inj i x r hr hrx)
      obtain ⟨pl', P', m', hmem', hspot', hm'⟩ := h.listed i r q hr ((hput.mem_children_iff hne).1 hq)
      exact ⟨pl', P', m', (hocc' i pl').2 (Or.inr hmem'), hspot', hmarker pl' P' m' q hspot' hm'⟩

end Linked

/-! ## Taking an instance out of a place -/

namespace Linked

variable (h : L.Linked f att live occ)

include h

/-- An instance that stands in a place can be taken out of it. -/
theorem detach {rx : NodeId} (hrx : L.root x = some rx) (hx : att x = some pl) :
    ∃ P m e, L.spot pl = some (P, m) ∧ live P ∧ m ∈ f.children e ∧
      (∀ q, q ≠ e → (f.unlink rx).children q = f.children q) ∧
      (∀ s t A B, f.children e = s ++ m :: (A ++ x :: B).filterMap L.root ++ t →
        (f.unlink rx).children e = s ++ m :: (A ++ B).filterMap L.root ++ t) ∧
      L.Linked (f.unlink rx) (Function.update att x none) live
        (Function.update occ pl ((occ pl).erase x)) := by
  have hmem := (h.place_iff x pl).1 hx
  obtain ⟨P, m, hspot, hP⟩ := h.live_owner x pl hmem
  obtain ⟨e, u, v, huv⟩ := h.row pl P m hP hspot
  obtain ⟨A, B, hAB⟩ := List.append_of_mem hmem
  have hchildren (q : NodeId) := h.tidy.children_unlink rx q
  have hmem_e : rx ∈ f.children e := by
    rw [← huv]
    refine List.mem_append_left _ (List.mem_append_right _ (List.mem_cons_of_mem _ ?_))
    exact List.mem_filterMap.2 ⟨x, hmem, hrx⟩
  have hm : m ∈ f.children e := by
    rw [← huv]
    exact List.mem_append_left _ (List.mem_append_right _ List.mem_cons_self)
  have hother (q : NodeId) (hq : q ≠ e) : (f.unlink rx).children q = f.children q := by
    rw [hchildren, List.erase_of_not_mem fun hrq => hq (h.tidy.parent_unique hrq hmem_e)]
  have hrow (s t : List NodeId) (A B : List InstanceId)
      (hst : f.children e = s ++ m :: (A ++ x :: B).filterMap L.root ++ t) :=
    row_unlink h.tidy hrx hst
  have hocc' (i : InstanceId) (pl' : Place) :
      i ∈ Function.update occ pl ((occ pl).erase x) pl' ↔ i ≠ x ∧ i ∈ occ pl' := by
    by_cases hpl : pl' = pl
    · subst hpl
      rw [Function.update_self]
      exact (h.nodup pl').mem_erase_iff
    · rw [Function.update_of_ne hpl]
      refine ⟨fun hi => ⟨?_, hi⟩, fun hi => hi.2⟩
      rintro rfl
      rw [(h.place_iff i pl').2 hi] at hx
      exact hpl (Option.some.inj hx)
  have hkeep (q c : NodeId) (hc : c ∈ f.children q) (hne : c ≠ rx) :
      c ∈ (f.unlink rx).children q := by
    rw [hchildren]
    exact (List.mem_erase_of_ne hne).2 hc
  have hmarker (pl' : Place) (P' : InstanceId) (m' q : NodeId) (hspot' : L.spot pl' = some (P', m'))
      (hm' : m' ∈ f.children q) : m' ∈ (f.unlink rx).children q := by
    refine hkeep q m' hm' ?_
    rintro rfl
    exact h.sound.marker_not_root pl' P' m' hspot' ⟨x, hrx⟩
  refine ⟨P, m, e, hspot, hP, hm, hother, hrow, h.tidy.unlink rx, ?_,
    h.rooted, ?_, ?_, ?_, ?_, ?_, ?_, ?_⟩
  · rw [Forest.size_unlink]
    exact h.sound
  · intro i pl'
    rw [hocc']
    by_cases hi : i = x
    · subst hi
      rw [Function.update_self]
      simp
    · rw [Function.update_of_ne hi, h.place_iff]
      simp only [ne_eq, hi, not_false_eq_true, true_and]
  · intro pl'
    by_cases hpl : pl' = pl
    · subst hpl
      rw [Function.update_self]
      exact (h.nodup pl').erase x
    · rw [Function.update_of_ne hpl]
      exact h.nodup pl'
  · intro i pl' hi
    exact h.live_item i pl' ((hocc' i pl').1 hi).2
  · intro i pl' hi
    exact h.live_owner i pl' ((hocc' i pl').1 hi).2
  · intro pl' P' m' hP' hspot'
    obtain ⟨r, hr, hw⟩ := h.within pl' P' m' hP' hspot'
    refine ⟨r, hr, hw.congr fun q _ c hc hcr => ⟨hkeep q c hc ?_, hcr⟩⟩
    rintro rfl
    exact hcr ⟨x, hrx⟩
  · intro pl' P' m' hP' hspot'
    by_cases hpl : pl' = pl
    · subst hpl
      obtain ⟨-, rfl⟩ := Prod.mk.inj (Option.some.inj (hspot.symm.trans hspot'))
      have hnd := h.nodup pl'
      rw [hAB] at hnd huv
      rw [Function.update_self, hAB, erase_middle hnd]
      exact ⟨e, u, v, (hrow u v A B huv.symm).symm⟩
    · rw [Function.update_of_ne hpl]
      obtain ⟨e', he'⟩ := h.row pl' P' m' hP' hspot'
      refine ⟨e', ?_⟩
      rw [hchildren]
      exact infix_erase he' (h.not_mem_row hpl hspot hspot' (Or.inr ⟨x, hmem, hrx⟩))
  · intro i r q hr hq
    rw [hchildren] at hq
    obtain ⟨hne, hq⟩ := (h.tidy.nodup q).mem_erase_iff.1 hq
    obtain ⟨pl', P', m', hmem', hspot', hm'⟩ := h.listed i r q hr hq
    refine ⟨pl', P', m', (hocc' i pl').2 ⟨?_, hmem'⟩, hspot', hmarker pl' P' m' q hspot' hm'⟩
    rintro rfl
    exact hne (Option.some.inj (hr.symm.trans hrx))

/-! ## Going out of use -/

/-- Instances that stand in no place, and whose own places are empty, may go out of use. -/
theorem of_fewer {live' : InstanceId → Prop} (hle : ∀ i, live' i → live i)
    (hitem : ∀ i pl, i ∈ occ pl → live' i)
    (howner : ∀ i pl P m, i ∈ occ pl → L.spot pl = some (P, m) → live' P) :
    L.Linked f att live' occ where
  tidy := h.tidy
  sound := h.sound
  rooted i hi := h.rooted i (hle i hi)
  place_iff := h.place_iff
  nodup := h.nodup
  live_item := hitem
  live_owner i pl hi := by
    obtain ⟨P, m, hspot, -⟩ := h.live_owner i pl hi
    exact ⟨P, m, hspot, howner i pl P m hi hspot⟩
  within pl P m hP := h.within pl P m (hle P hP)
  row pl P m hP := h.row pl P m (hle P hP)
  listed := h.listed

end Linked

/-- The nodes within the views of live instances. -/
def Inhabited (L : Layout) (f : Forest) (live : InstanceId → Prop) (n : NodeId) : Prop :=
  ∃ P r, live P ∧ L.root P = some r ∧ L.Within f r n

namespace Linked

variable (h : L.Linked f att live occ)

include h

/-- What lists a node of a live view belongs to a live view. -/
theorem inhabited_up (hn : L.Inhabited f live n) (hq : n ∈ f.children q) :
    L.Inhabited f live q := by
  obtain ⟨P, r, hP, hr, hw⟩ := hn
  cases hw with
  | top =>
    -- the root of an attached instance stands beside the marker of the place
    obtain ⟨pl, P', m, hmem, hspot, hm⟩ := h.listed P n q hr hq
    obtain ⟨P'', m', hspot', hlive⟩ := h.live_owner P pl hmem
    obtain ⟨rfl, rfl⟩ := Prod.mk.inj (Option.some.inj (hspot.symm.trans hspot'))
    obtain ⟨r', hr', hw'⟩ := h.within_list hlive hspot hm
    exact ⟨P', r', hlive, hr', hw'⟩
  | listed hn hp hw =>
    rw [h.tidy.parent_unique hq hp]
    exact ⟨P, r, hP, hr, hw⟩

/-- The live views stand as long as their roots are held. -/
theorem stands {held : NodeId → Bool}
    (hheld : ∀ P r, live P → L.root P = some r → held r = true) :
    f.Stands held (L.Inhabited f live) where
  kept n hn := by
    obtain ⟨P, r, hP, hr, hw⟩ := hn
    cases hw with
    | top => exact Or.inl (hheld P n hP hr)
    | listed _ hp _ => exact Or.inr ⟨_, hp⟩
  up n q hq hn := h.inhabited_up hn hq

/-- Sweeping leaves the live views as they are. -/
theorem prune (hp : f.Prunes f' (L.Inhabited f live)) : L.Linked f' att live occ where
  tidy := hp.tidy
  sound := by
    rw [hp.size]
    exact h.sound
  rooted := h.rooted
  place_iff := h.place_iff
  nodup := h.nodup
  live_item := h.live_item
  live_owner := h.live_owner
  within pl P m hP hspot := by
    obtain ⟨r, hr, hw⟩ := h.within pl P m hP hspot
    refine ⟨r, hr, hw.congr fun q hq c hc hcr => ⟨?_, hcr⟩⟩
    rw [hp.good q ⟨P, r, hP, hr, hq⟩]
    exact hc
  row pl P m hP hspot := by
    obtain ⟨e, he⟩ := h.row pl P m hP hspot
    obtain ⟨r, hr, hw⟩ := h.within_list hP hspot (he.subset List.mem_cons_self)
    refine ⟨e, ?_⟩
    rw [hp.good e ⟨P, r, hP, hr, hw⟩]
    exact he
  listed i r q hr hq := by
    obtain ⟨pl, P, m, hmem, hspot, hm⟩ := h.listed i r q hr (hp.subset q hq)
    obtain ⟨P', m', hspot', hlive⟩ := h.live_owner i pl hmem
    obtain ⟨rfl, rfl⟩ := Prod.mk.inj (Option.some.inj (hspot.symm.trans hspot'))
    obtain ⟨r', hr', hw'⟩ := h.within_list hlive hspot hm
    refine ⟨pl, P, m, hmem, hspot, ?_⟩
    rw [hp.good q ⟨P, r', hlive, hr', hw'⟩]
    exact hm

end Linked

/-! ## Views that stay as they are -/

/-- The lists of the view of an instance are the same before and after. -/
def SameView (L : Layout) (f : Forest) (L' : Layout) (f' : Forest) (P : InstanceId) : Prop :=
  ∀ r n, L.root P = some r → L.Within f r n →
    L'.Within f' r n ∧ f'.children n = f.children n

theorem SameView.refl (L : Layout) (f : Forest) (P : InstanceId) : L.SameView f L f P :=
  fun _ _ _ hn => ⟨hn, rfl⟩

theorem SameView.trans {L'' : Layout} {f'' : Forest} (h : L.SameView f L' f' P)
    (hroot : ∀ r, L.root P = some r → L'.root P = some r) (h' : L'.SameView f' L'' f'' P) :
    L.SameView f L'' f'' P := by
  intro r n hr hn
  obtain ⟨hn', hc⟩ := h r n hr hn
  obtain ⟨hn'', hc'⟩ := h' r n (hroot r hr) hn'
  exact ⟨hn'', hc'.trans hc⟩

/-- A view stays as it is when the lists of its nodes do. -/
theorem SameView.of_children (h : ∀ r n, L.root P = some r → L.Within f r n → f'.children n = f.children n) :
    L.SameView f L f' P := by
  intro r n hr hn
  refine ⟨hn.congr fun q hq c hc hcr => ⟨?_, hcr⟩, h r n hr hn⟩
  rw [h r q hr hq]
  exact hc

/-- A change of one list within the view of an instance leaves the other views as they are. -/
theorem Linked.sameView (h : L.Linked f att live occ) (hPQ : P ≠ Q) {rq : NodeId}
    (hQ : L.root Q = some rq) (he : L.Within f rq e)
    (hother : ∀ q, q ≠ e → f'.children q = f.children q) : L.SameView f L f' P := by
  refine SameView.of_children fun r n hr hn => hother n ?_
  rintro rfl
  have hroots := hn.unique h.tidy ⟨P, hr⟩ ⟨Q, hQ⟩ he
  exact hPQ (h.sound.root_inj P Q r hr (hroots ▸ hQ))

/-! ## Instances under instances -/

/-- An instance occupies a place of another one. -/
def Under (L : Layout) (occ : Place → List InstanceId) (x P : InstanceId) : Prop :=
  ∃ pl m, x ∈ occ pl ∧ L.spot pl = some (P, m)

namespace Linked

variable (h : L.Linked f att live occ)

include h

/-- Where instances stand under instances, their roots stand below roots. -/
theorem transGen_up (hx : TransGen (L.Under occ) x P) :
    ∃ rx rp, L.root x = some rx ∧ L.root P = some rp ∧ live P ∧ TransGen f.Up rx rp := by
  have step {y Q : InstanceId} (hy : L.Under occ y Q) :
      ∃ ry rq, L.root y = some ry ∧ L.root Q = some rq ∧ live Q ∧ TransGen f.Up ry rq := by
    obtain ⟨pl, m, hmem, hspot⟩ := hy
    obtain ⟨Q', m', hspot', hlive⟩ := h.live_owner y pl hmem
    obtain ⟨rfl, rfl⟩ := Prod.mk.inj (Option.some.inj (hspot.symm.trans hspot'))
    obtain ⟨ry, hry⟩ := h.rooted y (h.live_item y pl hmem)
    obtain ⟨e, he⟩ := h.row pl Q m hlive hspot
    obtain ⟨rq, hrq, hw⟩ := h.within_list hlive hspot (he.subset List.mem_cons_self)
    have hye : ry ∈ f.children e :=
      he.subset (List.mem_cons_of_mem _ (List.mem_filterMap.2 ⟨y, hmem, hry⟩))
    exact ⟨ry, rq, hry, hrq, hlive,
      TransGen.head' (h.tidy.parent_of_mem ry e hye) (hw.reflTransGen h.tidy)⟩
  induction hx with
  | single hy => exact step hy
  | tail _ hy ih =>
    obtain ⟨rx, rp, hrx, hrp, -, hup⟩ := ih
    obtain ⟨rp', rq, hrp', hrq, hlive, hup'⟩ := step hy
    obtain rfl := Option.some.inj (hrp.symm.trans hrp')
    exact ⟨rx, rq, hrx, hrq, hlive, hup.trans hup'⟩

/-- No instance stands under itself, however far down. -/
theorem not_under_self (x : InstanceId) : ¬ TransGen (L.Under occ) x x := by
  intro hx
  obtain ⟨rx, rp, hrx, hrp, -, hup⟩ := h.transGen_up hx
  obtain rfl := Option.some.inj (hrx.symm.trans hrp)
  exact h.tidy.acyclic rx hup

end Linked

end Layout

end ReactiveView
