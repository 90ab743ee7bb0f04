import ReactiveView.Class.Basic
import ReactiveView.Proofs.Dict
import Mathlib.Data.List.Induction
import Mathlib.Data.List.Nodup
import Mathlib.Data.List.Perm.Subperm
import Mathlib.Logic.Relation

/-!
# The order of the bound properties

Taking ready properties one after the other lists the bound properties of a class so that each stands
after all bound properties that it reads (`Graph.topological_of_ok`), and lists all of them
(`Graph.mem_order_iff`). What carries the loop is `Graph.Taking`: the count of a property is the number
of its bound reads that have not been taken yet, and the properties that are taken or ready are those
all of whose bound reads have been taken.

Along such an order one pass finds everything that a write reaches: `Graph.mem_downstream_iff` is the
equation that the pass solves, and `Graph.mem_downstream_iff_transGen` says that its solution is the
transitive closure of `Graph.Feeds`. A property is never reached from itself
(`Graph.not_mem_downstream_self`).
-/

set_option autoImplicit false

namespace ReactiveView

namespace Graph

variable {ps : List PropertyDescriptor}

/-! ## Counting -/

/-- A list without its repetitions lists each member once. -/
theorem nodup_eraseDups (l : List String) : l.eraseDups.Nodup := by
  induction hlen : l.length using Nat.strongRecOn generalizing l with
  | ind k ih =>
    cases l with
    | nil => exact List.nodup_nil
    | cons a l =>
      rw [List.eraseDups_cons, List.nodup_cons, List.mem_eraseDups]
      refine ⟨fun h => by simp at h, ih _ ?_ _ rfl⟩
      rw [← hlen, List.length_cons]
      exact Nat.lt_succ_of_le (List.length_filter_le _ l)

/-- The bound properties that a property reads. -/
def boundReads (ps : List PropertyDescriptor) (p : PropertyDescriptor) : List String :=
  p.reads.eraseDups.filter (boundNames ps).contains

theorem mem_boundReads {p : PropertyDescriptor} {r : String} :
    r ∈ boundReads ps p ↔ r ∈ p.reads ∧ r ∈ boundNames ps := by
  simp only [boundReads, List.mem_filter, List.contains_iff_mem, List.mem_eraseDups]

theorem mem_boundNames {n : String} : n ∈ boundNames ps ↔ ∃ p ∈ bound ps, p.name = n := by
  simp only [boundNames, List.mem_map]

theorem name_mem_boundNames {p : PropertyDescriptor} (hp : p ∈ bound ps) :
    p.name ∈ boundNames ps :=
  mem_boundNames.2 ⟨p, hp, rfl⟩

/-- Bound properties of one name are one property. -/
theorem eq_of_name_eq (hn : (boundNames ps).Nodup) {p q : PropertyDescriptor} (hp : p ∈ bound ps)
    (hq : q ∈ bound ps) (h : p.name = q.name) : p = q :=
  List.inj_on_of_nodup_map hn hp hq h

theorem countsOf_get? (hn : (boundNames ps).Nodup) {p : PropertyDescriptor} (hp : p ∈ bound ps) :
    (countsOf ps).get? p.name = some (boundReads ps p).length :=
  Dict.get?_foldl_insert PropertyDescriptor.name
    (fun p => (boundReads ps p).length) (bound ps) [] hn p hp

/-- What depends on a property: the bound properties that read it, in order of declaration. -/
theorem dependentsOf_get? (ps : List PropertyDescriptor) (q : String) :
    ((dependentsOf ps).get? q).getD [] =
      ((bound ps).filter fun p => decide (q ∈ p.reads)).map (·.name) := by
  have inner (name : String) (rs : List String) (hrs : rs.Nodup) (d : Dict String (List String)) :
      ((rs.foldl (fun d r => d.append r name) d).get? q).getD [] =
        (d.get? q).getD [] ++ if q ∈ rs then [name] else [] := by
    induction rs generalizing d with
    | nil => simp
    | cons r rs ih =>
      obtain ⟨hr, hrs⟩ := List.nodup_cons.1 hrs
      rw [List.foldl_cons, ih hrs, Dict.getD_get?_append, List.append_assoc]
      by_cases h : r = q
      · subst h
        rw [if_pos rfl, if_neg hr, if_pos List.mem_cons_self, List.append_nil]
      · simp only [if_neg h, List.nil_append, List.mem_cons, or_iff_right (Ne.symm h)]
  have outer (bs : List PropertyDescriptor) (d : Dict String (List String)) :
      ((bs.foldl (fun d p => p.reads.eraseDups.foldl (fun d r => d.append r p.name) d) d).get?
          q).getD [] =
        (d.get? q).getD [] ++ (bs.filter fun p => decide (q ∈ p.reads)).map (·.name) := by
    induction bs generalizing d with
    | nil => simp
    | cons b bs ih =>
      rw [List.foldl_cons, ih, inner _ _ (nodup_eraseDups b.reads), List.append_assoc]
      by_cases h : q ∈ b.reads <;> simp [h]
  exact outer (bound ps) []

/-- A bound property depends once on each property that it reads. -/
theorem count_dependentsOf (hn : (boundNames ps).Nodup) {p : PropertyDescriptor}
    (hp : p ∈ bound ps) (q : String) :
    (((dependentsOf ps).get? q).getD []).count p.name = if q ∈ p.reads then 1 else 0 := by
  have hmem : p.name ∈ ((bound ps).filter fun p => decide (q ∈ p.reads)).map (·.name) ↔
      q ∈ p.reads := by
    constructor
    · intro h
      obtain ⟨b, hb, hname⟩ := List.mem_map.1 h
      obtain ⟨hb, hq⟩ := List.mem_filter.1 hb
      exact eq_of_name_eq hn hb hp hname ▸ of_decide_eq_true hq
    · exact fun h => List.mem_map_of_mem (List.mem_filter.2 ⟨hp, decide_eq_true h⟩)
  rw [dependentsOf_get?, (hn.sublist (List.filter_sublist.map _)).count]
  exact if_congr hmem rfl rfl

theorem mem_boundNames_of_mem_dependentsOf {n q : String}
    (h : n ∈ ((dependentsOf ps).get? q).getD []) : n ∈ boundNames ps := by
  rw [dependentsOf_get?] at h
  obtain ⟨p, hp, rfl⟩ := List.mem_map.1 h
  exact name_mem_boundNames (List.mem_filter.1 hp).1

/-! ## Lowering counts -/

theorem lower_get? (counts : Dict String Nat) (qs : List String) (n : String) :
    (lower counts qs).1.get? n = (counts.get? n).map fun k => k - qs.count n := by
  induction qs generalizing counts with
  | nil => simp [lower]
  | cons q qs ih =>
    unfold lower
    cases hq : counts.get? q with
    | none =>
      simp only [ih]
      by_cases h : q = n
      · rw [← h, hq]
        rfl
      · rw [List.count_cons_of_ne h]
    | some k =>
      simp only [ih]
      by_cases h : q = n
      · subst h
        rw [Dict.get?_insert_self, hq, List.count_cons_self]
        simp only [Option.map_some, Option.some.injEq]
        omega
      · rw [Dict.get?_insert_of_ne _ _ _ _ h, List.count_cons_of_ne h]

/-- What comes down to zero is what is listed at least as often as its count. -/
theorem mem_lower_iff (counts : Dict String Nat) (qs : List String) (n : String) :
    n ∈ (lower counts qs).2 ↔ n ∈ qs ∧ ∃ k, counts.get? n = some k ∧ k ≤ qs.count n := by
  induction qs generalizing counts with
  | nil => simp [lower]
  | cons q qs ih =>
    unfold lower
    cases hq : counts.get? q with
    | none =>
      simp only [ih]
      by_cases h : q = n
      · subst h
        simp [hq]
      · rw [List.count_cons_of_ne h, List.mem_cons, or_iff_right (Ne.symm h)]
    | some k =>
      have hmem : n ∈ (if k - 1 = 0 then q :: (lower (counts.insert q (k - 1)) qs).2
          else (lower (counts.insert q (k - 1)) qs).2) ↔
          (n = q ∧ k - 1 = 0) ∨ n ∈ (lower (counts.insert q (k - 1)) qs).2 := by
        split <;> simp_all
      simp only [hmem, ih]
      by_cases h : q = n
      · subst h
        rw [Dict.get?_insert_self, hq, List.count_cons_self]
        simp only [true_and, Option.some.injEq, exists_eq_left', List.mem_cons, true_or,
          ← List.count_pos_iff (l := qs)]
        omega
      · rw [Dict.get?_insert_of_ne _ _ _ _ h, List.count_cons_of_ne h, List.mem_cons,
          or_iff_right (fun h' => h h'.1.symm), or_iff_right (Ne.symm h)]

theorem nodup_lower (counts : Dict String Nat) (qs : List String)
    (h : ∀ n k, counts.get? n = some k → qs.count n ≤ k) : (lower counts qs).2.Nodup := by
  induction qs generalizing counts with
  | nil => simp [lower]
  | cons q qs ih =>
    unfold lower
    cases hq : counts.get? q with
    | none =>
      refine ih counts fun n k hk => ?_
      exact Nat.le_trans List.count_le_count_cons (h n k hk)
    | some k =>
      have hk := h q k hq
      rw [List.count_cons_self] at hk
      have hrest : (lower (counts.insert q (k - 1)) qs).2.Nodup := by
        refine ih _ fun n j hj => ?_
        by_cases hne : q = n
        · subst hne
          rw [Dict.get?_insert_self, Option.some.injEq] at hj
          omega
        · rw [Dict.get?_insert_of_ne _ _ _ _ hne] at hj
          exact Nat.le_trans List.count_le_count_cons (h n j hj)
      simp only
      split
      · refine List.nodup_cons.2 ⟨fun hm => ?_, hrest⟩
        have hpos := List.count_pos_iff.2 ((mem_lower_iff _ _ _).1 hm).1
        omega
      · exact hrest

/-! ## Taking ready properties -/

theorem countP_not_mem_append (rs taken : List String) (q : String) (hq : q ∉ taken) :
    rs.countP (fun r => decide (r ∉ taken)) =
      rs.countP (fun r => decide (r ∉ taken ++ [q])) + rs.count q := by
  induction rs with
  | nil => rfl
  | cons r rs ih =>
    rw [List.countP_cons, List.countP_cons, ih]
    by_cases h : r = q
    · subst h
      rw [List.count_cons_self]
      simp [hq]
      omega
    · rw [List.count_cons_of_ne h]
      simp [h]
      omega

/-- The state of the loop. A count says how many bound reads have not been taken, and the properties
that are taken or ready are those all of whose bound reads have been taken; a property is taken after
what it reads. -/
structure Taking (ps : List PropertyDescriptor) (counts : Dict String Nat)
    (taken ready : List String) : Prop where
  count : ∀ p ∈ bound ps,
    counts.get? p.name = some ((boundReads ps p).countP fun r => decide (r ∉ taken))
  nodup : (taken ++ ready).Nodup
  mem_iff : ∀ n, n ∈ taken ++ ready ↔
    ∃ p ∈ bound ps, p.name = n ∧ ∀ r ∈ boundReads ps p, r ∈ taken
  before : ∀ pre n post, taken = pre ++ n :: post →
    ∀ p ∈ bound ps, p.name = n → ∀ r ∈ boundReads ps p, r ∈ pre

/-- Before the first step the ready properties are those that read no bound property. -/
theorem Taking.start (hn : (ps.map (·.name)).Nodup) (hb : (boundNames ps).Nodup) :
    Taking ps (countsOf ps) []
      ((ps.map (·.name)).filter fun n => (countsOf ps).get? n == some 0) where
  count p hp := by
    rw [countsOf_get? hb hp]
    simp
  nodup := hn.filter _
  mem_iff n := by
    simp only [List.nil_append, List.mem_filter, beq_iff_eq, List.not_mem_nil]
    constructor
    · rintro ⟨-, h0⟩
      have hnb : n ∈ boundNames ps := by
        by_contra hnot
        have hnone := Dict.get?_foldl_insert_of_not_mem PropertyDescriptor.name
          (fun p => (boundReads ps p).length) (bound ps) [] n hnot
        change (countsOf ps).get? n = none at hnone
        rw [hnone] at h0
        cases h0
      obtain ⟨p, hp, rfl⟩ := mem_boundNames.1 hnb
      rw [countsOf_get? hb hp, Option.some.injEq, List.length_eq_zero_iff] at h0
      refine ⟨p, hp, rfl, fun r hr => ?_⟩
      rw [h0] at hr
      cases hr
    · rintro ⟨p, hp, rfl, h⟩
      refine ⟨List.mem_map_of_mem (List.mem_filter.1 hp).1, ?_⟩
      rw [countsOf_get? hb hp, List.eq_nil_iff_forall_not_mem.2 h]
      rfl
  before pre n post h := by
    cases pre <;> cases h

/-- A ready property has not been taken. -/
theorem Taking.not_mem_taken {counts : Dict String Nat} {taken rest : List String} {q : String}
    (h : Taking ps counts taken (q :: rest)) : q ∉ taken := fun hq =>
  List.disjoint_of_nodup_append h.nodup hq List.mem_cons_self

theorem Taking.mem_boundNames {counts : Dict String Nat} {taken rest : List String} {q : String}
    (h : Taking ps counts taken (q :: rest)) : q ∈ boundNames ps := by
  obtain ⟨p, hp, hpq, -⟩ := (h.mem_iff q).1 (List.mem_append_right _ List.mem_cons_self)
  exact hpq ▸ name_mem_boundNames hp

/-- Taking a property lowers the number of reads that have not been taken by the reads of it. -/
theorem Taking.countP_eq (hb : (boundNames ps).Nodup) {counts : Dict String Nat}
    {taken rest : List String} {q : String} (h : Taking ps counts taken (q :: rest))
    {p : PropertyDescriptor} (hp : p ∈ bound ps) :
    (boundReads ps p).countP (fun r => decide (r ∉ taken)) =
      (boundReads ps p).countP (fun r => decide (r ∉ taken ++ [q])) +
        (((dependentsOf ps).get? q).getD []).count p.name := by
  rw [count_dependentsOf hb hp, countP_not_mem_append _ _ _ h.not_mem_taken]
  congr 1
  rw [boundReads, List.count_filter (by simpa using h.mem_boundNames), (nodup_eraseDups _).count]
  exact if_congr List.mem_eraseDups rfl rfl

/-- What comes down to zero when a ready property is taken: the properties that read it and whose other
bound reads have been taken before. -/
theorem Taking.mem_lower (hb : (boundNames ps).Nodup) {counts : Dict String Nat}
    {taken rest : List String} {q : String} (h : Taking ps counts taken (q :: rest)) (n : String) :
    n ∈ (lower counts (((dependentsOf ps).get? q).getD [])).2 ↔
      ∃ p ∈ bound ps, p.name = n ∧ q ∈ boundReads ps p ∧
        ∀ r ∈ boundReads ps p, r ∈ taken ++ [q] := by
  have hle {p : PropertyDescriptor} (hp : p ∈ bound ps) :
      (boundReads ps p).countP (fun r => decide (r ∉ taken)) ≤
          (((dependentsOf ps).get? q).getD []).count p.name ↔
        ∀ r ∈ boundReads ps p, r ∈ taken ++ [q] := by
    have hzero := List.countP_eq_zero (p := fun r => decide (r ∉ taken ++ [q]))
      (l := boundReads ps p)
    simp only [decide_eq_true_eq, not_not] at hzero
    rw [h.countP_eq hb hp, ← hzero]
    omega
  have hpos {p : PropertyDescriptor} (hp : p ∈ bound ps) :
      p.name ∈ ((dependentsOf ps).get? q).getD [] ↔ q ∈ p.reads := by
    rw [← List.count_pos_iff, count_dependentsOf hb hp]
    split <;> simp_all
  rw [mem_lower_iff]
  constructor
  · rintro ⟨hm, k, hk, hkle⟩
    obtain ⟨p, hp, rfl⟩ := Graph.mem_boundNames.1 (mem_boundNames_of_mem_dependentsOf hm)
    rw [h.count p hp, Option.some.injEq] at hk
    rw [← hk] at hkle
    exact ⟨p, hp, rfl, mem_boundReads.2 ⟨(hpos hp).1 hm, h.mem_boundNames⟩, (hle hp).1 hkle⟩
  · rintro ⟨p, hp, rfl, hq, hall⟩
    exact ⟨(hpos hp).2 (mem_boundReads.1 hq).1, _, h.count p hp, (hle hp).2 hall⟩

/-- A property is not listed more often among the dependents of a ready one than its count says. -/
theorem Taking.count_le (hb : (boundNames ps).Nodup) {counts : Dict String Nat}
    {taken rest : List String} {q : String} (h : Taking ps counts taken (q :: rest)) (n : String)
    (k : Nat) (hk : counts.get? n = some k) : (((dependentsOf ps).get? q).getD []).count n ≤ k := by
  by_cases hm : n ∈ ((dependentsOf ps).get? q).getD []
  · obtain ⟨p, hp, rfl⟩ := Graph.mem_boundNames.1 (mem_boundNames_of_mem_dependentsOf hm)
    rw [h.count p hp, h.countP_eq hb hp, Option.some.injEq] at hk
    omega
  · rw [List.count_eq_zero.2 hm]
    exact Nat.zero_le k

/-- Taking the first ready property keeps the state of the loop. -/
theorem Taking.step (hb : (boundNames ps).Nodup) {counts : Dict String Nat}
    {taken rest : List String} {q : String} (h : Taking ps counts taken (q :: rest)) :
    Taking ps (lower counts (((dependentsOf ps).get? q).getD [])).1 (taken ++ [q])
      (rest ++ (lower counts (((dependentsOf ps).get? q).getD [])).2) := by
  have hq : q ∈ taken ++ q :: rest := List.mem_append_right _ List.mem_cons_self
  obtain ⟨pq, hpq, hpqn, hreads⟩ := (h.mem_iff q).1 hq
  refine ⟨fun p hp => ?_, ?_, fun n => ?_, ?_⟩
  · rw [lower_get?, h.count p hp, h.countP_eq hb hp, Option.map_some, Nat.add_sub_cancel_right]
  · have hmore : (lower counts (((dependentsOf ps).get? q).getD [])).2.Nodup :=
      nodup_lower _ _ (h.count_le hb)
    rw [← List.append_assoc, List.append_assoc taken [q] rest, List.singleton_append]
    refine List.Nodup.append h.nodup hmore fun n hold hnew => ?_
    obtain ⟨p, hp, rfl, hqp, -⟩ := (h.mem_lower hb n).1 hnew
    obtain ⟨p', hp', hname, hall⟩ := (h.mem_iff p.name).1 hold
    rw [eq_of_name_eq hb hp' hp hname] at hall
    exact h.not_mem_taken (hall q hqp)
  · rw [← List.append_assoc, List.append_assoc taken [q] rest, List.singleton_append,
      List.mem_append, h.mem_iff, h.mem_lower hb]
    constructor
    · rintro (⟨p, hp, hpn, hall⟩ | ⟨p, hp, hpn, -, hall⟩)
      · exact ⟨p, hp, hpn, fun r hr => List.mem_append_left _ (hall r hr)⟩
      · exact ⟨p, hp, hpn, hall⟩
    · rintro ⟨p, hp, hpn, hall⟩
      by_cases hqp : q ∈ boundReads ps p
      · exact Or.inr ⟨p, hp, hpn, hqp, hall⟩
      · refine Or.inl ⟨p, hp, hpn, fun r hr => ?_⟩
        rcases List.mem_append.1 (hall r hr) with hrt | hrq
        · exact hrt
        · rw [List.mem_singleton.1 hrq] at hr
          exact absurd hr hqp
  · intro pre n post hsplit p hp hpn r hr
    rcases List.eq_nil_or_concat' post with rfl | ⟨post', x, rfl⟩
    · -- the property that is taken in this step
      obtain ⟨rfl, hnq⟩ := List.append_inj' hsplit rfl
      obtain rfl : q = n := by simpa using hnq
      rw [eq_of_name_eq hb hpq hp (hpqn.trans hpn.symm)] at hreads
      exact hreads r hr
    · have hsplit' : taken ++ [q] = (pre ++ n :: post') ++ [x] := by
        rw [hsplit, List.append_assoc, List.cons_append]
      exact h.before pre n post' (List.append_inj' hsplit' rfl).1 p hp hpn r hr

/-- The loop ends in a state of the loop. -/
theorem Taking.take (hb : (boundNames ps).Nodup) (fuel : Nat) {counts : Dict String Nat}
    {taken ready : List String} (h : Taking ps counts taken ready) :
    ∃ left ready', Taking ps left (Graph.take (dependentsOf ps) fuel counts taken ready).2 ready' := by
  induction fuel generalizing counts taken ready with
  | zero => exact ⟨counts, ready, by rw [Graph.take]; exact h⟩
  | succ fuel ih =>
    cases ready with
    | nil => exact ⟨counts, [], by simpa only [Graph.take] using h⟩
    | cons q rest =>
      rw [Graph.take]
      exact ih (h.step hb)

/-! ## The order -/

/-- A list in which no name stands twice and each name stands after those on the list that it reads. -/
structure Topological (reads : String → List String) (order : List String) : Prop where
  nodup : order.Nodup
  before : ∀ pre n post, order = pre ++ n :: post → ∀ r ∈ reads n, r ∈ order → r ∈ pre

/-- The order of a graph lists the bound properties. -/
theorem mem_order_iff {g : Graph} (hn : (ps.map (·.name)).Nodup) (h : Graph.of ps = .ok g)
    (n : String) : n ∈ g.order ↔ n ∈ boundNames ps := by
  have hb : (boundNames ps).Nodup := hn.sublist ((List.filter_sublist).map _)
  obtain ⟨left, ready, ht⟩ := (Taking.start hn hb).take hb (ps.length + 1)
  simp only [Graph.of] at h
  split at h
  · cases h
  · next hlen =>
    obtain rfl := Except.ok.inj h
    have hsub : (Graph.take (dependentsOf ps) (ps.length + 1) (countsOf ps) [] _).2 ⊆
        boundNames ps := fun m hm => by
      obtain ⟨p, hp, hpm, -⟩ := (ht.mem_iff m).1 (List.mem_append_left _ hm)
      exact hpm ▸ name_mem_boundNames hp
    have hcounts : (boundNames ps).length ≤ (countsOf ps).length := by
      rw [show (countsOf ps).length = (countsOf ps).keys.length from List.length_map _ |>.symm]
      refine (List.subperm_of_subset hb fun m hm => ?_).length_le
      obtain ⟨p, hp, rfl⟩ := mem_boundNames.1 hm
      exact Dict.mem_keys_of_get? (countsOf_get? hb hp)
    have hperm := (List.subperm_of_subset ht.nodup.of_append_left hsub).perm_of_length_le
      (Nat.le_trans hcounts (Nat.le_of_not_lt hlen))
    exact hperm.mem_iff

/-- In the order of a graph each bound property stands after all bound properties that it reads. -/
theorem topological_of_ok {g : Graph} (hn : (ps.map (·.name)).Nodup) (h : Graph.of ps = .ok g)
    (reads : String → List String) (hreads : ∀ p ∈ bound ps, reads p.name = p.reads) :
    Topological reads g.order := by
  have hb : (boundNames ps).Nodup := hn.sublist ((List.filter_sublist).map _)
  have hmem := mem_order_iff hn h
  obtain ⟨left, ready, ht⟩ := (Taking.start hn hb).take hb (ps.length + 1)
  simp only [Graph.of] at h
  split at h
  · cases h
  · obtain rfl := Except.ok.inj h
    refine ⟨ht.nodup.of_append_left, fun pre n post hsplit r hr hro => ?_⟩
    obtain ⟨p, hp, rfl⟩ := mem_boundNames.1
      ((hmem n).1 (hsplit ▸ List.mem_append_right _ List.mem_cons_self))
    rw [hreads p hp] at hr
    exact ht.before pre p.name post hsplit p hp rfl r (mem_boundReads.2 ⟨hr, (hmem r).1 hro⟩)

/-- On such a list no name is read by one before it. -/
theorem Topological.pairwise {reads : String → List String} {order : List String}
    (h : Topological reads order) : order.Pairwise fun a b => b ∉ reads a := by
  rw [List.pairwise_iff_forall_sublist]
  intro a b hab hb
  obtain ⟨front, back, rfl, ha, hbs⟩ := List.cons_sublist_iff.1 hab
  have hbb : b ∈ back := List.singleton_sublist.1 hbs
  obtain ⟨pre, post, rfl⟩ := List.append_of_mem ha
  have hbp : b ∈ pre :=
    h.before pre a (post ++ back) (by rw [List.append_assoc, List.cons_append]) b hb
      (List.mem_append_right _ hbb)
  have hd := List.nodup_append.1 h.nodup
  exact hd.2.2 b (List.mem_append_left _ hbp) b hbb rfl

/-! ## What a write reaches -/

section Downstream

variable {reads : String → List String} {order : List String}

theorem downstream_append (pre : List String) (n changed : String) :
    downstream reads (pre ++ [n]) changed =
      if (reads n).any fun r => r == changed || (downstream reads pre changed).contains r
        then downstream reads pre changed ++ [n] else downstream reads pre changed := by
  unfold downstream
  rw [List.foldl_append, List.foldl_cons, List.foldl_nil]

/-- What the pass has found stays found. -/
theorem downstream_append_of_mem {pre post : List String} {changed m : String} (hm : m ∉ post) :
    m ∈ downstream reads (pre ++ post) changed ↔ m ∈ downstream reads pre changed := by
  induction post using List.reverseRecOn with
  | nil => rw [List.append_nil]
  | append_singleton post n ih =>
    simp only [List.mem_append, List.mem_singleton, not_or] at hm
    rw [← List.append_assoc, downstream_append, ← ih hm.1]
    split
    · rw [List.mem_append, List.mem_singleton, or_iff_left hm.2]
    · rfl

/-- The equation that the pass solves: it finds what reads the written property, or reads something
that is found. -/
theorem mem_downstream_iff (ht : Topological reads order) (changed n : String) :
    n ∈ downstream reads order changed ↔
      n ∈ order ∧ ∃ r ∈ reads n, r = changed ∨ r ∈ downstream reads order changed := by
  by_cases hn : n ∈ order
  · obtain ⟨pre, post, rfl⟩ := List.append_of_mem hn
    have hnd := List.nodup_append.1 ht.nodup
    have hpost : n ∉ post := (List.nodup_cons.1 hnd.2.1).1
    have hpre : n ∉ pre := fun h => hnd.2.2 n h n List.mem_cons_self rfl
    have hfound (r : String) (hr : r ∈ reads n) :
        r ∈ downstream reads (pre ++ n :: post) changed ↔ r ∈ downstream reads pre changed := by
      constructor
      · intro h
        have hrp := ht.before pre n post rfl r hr (mem_order_of_mem_downstream _ _ _ _ h)
        exact (downstream_append_of_mem fun hrn => hnd.2.2 r hrp r hrn rfl).1 h
      · intro h
        have hrp := mem_order_of_mem_downstream _ _ _ _ h
        exact (downstream_append_of_mem fun hrn => hnd.2.2 r hrp r hrn rfl).2 h
    have hcut : pre ++ n :: post = (pre ++ [n]) ++ post := by simp
    rw [hcut, downstream_append_of_mem hpost, downstream_append, ← hcut, and_iff_right hn]
    have hnot : n ∉ downstream reads pre changed := fun h =>
      hpre (mem_order_of_mem_downstream _ _ _ _ h)
    have hany : ((reads n).any fun r => r == changed || (downstream reads pre changed).contains r) =
        true ↔ ∃ r ∈ reads n, r = changed ∨ r ∈ downstream reads (pre ++ n :: post) changed := by
      simp only [List.any_eq_true, Bool.or_eq_true, beq_iff_eq, List.contains_iff_mem]
      exact exists_congr fun r => and_congr_right fun hr => or_congr_right (hfound r hr).symm
    rw [← hany]
    split
    · next h => exact ⟨fun _ => h, fun _ => List.mem_append_right _ (List.mem_singleton.2 rfl)⟩
    · next h => exact ⟨fun hm => absurd hm hnot, fun hm => absurd hm h⟩
  · exact ⟨fun h => absurd (mem_order_of_mem_downstream _ _ _ _ h) hn, fun h => absurd h.1 hn⟩

/-- One name feeds another on the order that reads it. -/
def Feeds (reads : String → List String) (order : List String) (r n : String) : Prop :=
  n ∈ order ∧ r ∈ reads n

/-- A write reaches exactly what it feeds, directly or through others. -/
theorem mem_downstream_iff_transGen (ht : Topological reads order) (changed n : String) :
    n ∈ downstream reads order changed ↔ Relation.TransGen (Feeds reads order) changed n := by
  constructor
  · intro h
    -- the names before `n` are done first
    obtain ⟨pre, post, hsplit⟩ := List.append_of_mem (mem_order_of_mem_downstream _ _ _ _ h)
    induction hlen : pre.length using Nat.strongRecOn generalizing n pre post with
    | ind k ih =>
      obtain ⟨hn, r, hr, rfl | hrd⟩ := (mem_downstream_iff ht changed n).1 h
      · exact Relation.TransGen.single ⟨hn, hr⟩
      · have hro := mem_order_of_mem_downstream _ _ _ _ hrd
        obtain ⟨pre', post', rfl⟩ := List.append_of_mem (ht.before pre n post hsplit r hr hro)
        refine Relation.TransGen.tail ?_ ⟨hn, hr⟩
        refine ih pre'.length ?_ r hrd pre' (post' ++ n :: post) ?_ rfl
        · rw [← hlen, List.length_append, List.length_cons]
          omega
        · rw [hsplit, List.append_assoc, List.cons_append]
  · intro h
    induction h with
    | single h => exact (mem_downstream_iff ht changed _).2 ⟨h.1, changed, h.2, Or.inl rfl⟩
    | tail _ h ih => exact (mem_downstream_iff ht changed _).2 ⟨h.1, _, h.2, Or.inr ih⟩

/-- A name on the order stands before everything that a write of it reaches. -/
theorem Topological.before_of_transGen (ht : Topological reads order) {r n : String}
    (h : Relation.TransGen (Feeds reads order) r n) (hr : r ∈ order) :
    ∀ pre post, order = pre ++ n :: post → r ∈ pre := by
  induction h with
  | single h => exact fun pre post hsplit => ht.before pre _ post hsplit r h.2 hr
  | tail _ h ih =>
    rename_i m n hrm
    intro pre post hsplit
    have hm : m ∈ order := by
      cases hrm with
      | single h => exact h.1
      | tail _ h => exact h.1
    obtain ⟨pre', post', hpre⟩ := List.append_of_mem (ht.before pre n post hsplit m h.2 hm)
    have hrp := ih pre' (post' ++ n :: post) (by rw [hsplit, hpre, List.append_assoc,
      List.cons_append])
    rw [hpre]
    exact List.mem_append_left _ hrp

/-- A write of a property does not reach the property itself. -/
theorem not_mem_downstream_self (ht : Topological reads order) (n : String) :
    n ∉ downstream reads order n := by
  intro h
  have hn := mem_order_of_mem_downstream _ _ _ _ h
  obtain ⟨pre, post, hsplit⟩ := List.append_of_mem hn
  have hpre := ht.before_of_transGen ((mem_downstream_iff_transGen ht n n).1 h) hn pre post hsplit
  have hnd := ht.nodup
  rw [hsplit] at hnd
  exact (List.nodup_append.1 hnd).2.2 n hpre n List.mem_cons_self rfl

/-- What a write reaches stands in the order of the graph. -/
theorem downstream_sublist (reads : String → List String) (order : List String) (changed : String) :
    (downstream reads order changed).Sublist order := by
  induction order using List.reverseRecOn with
  | nil => exact List.Sublist.slnil
  | append_singleton pre n ih =>
    rw [downstream_append]
    split
    · exact ih.append (List.Sublist.refl [n])
    · exact ih.trans (List.sublist_append_left pre [n])

end Downstream

end Graph

end ReactiveView
