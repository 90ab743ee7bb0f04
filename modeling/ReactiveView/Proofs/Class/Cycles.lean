import ReactiveView.Proofs.Class.Order
import Mathlib.Data.Fintype.Card
import Mathlib.Data.Fintype.EquivFin
import Mathlib.Data.Fintype.Sets
import Mathlib.Order.WellFounded

/-!
# Cycles among the bindings

The graph of some properties exists exactly when no bound property reads itself through bindings, and it
is then the graph that it should be (`Graph.of_exact`).

The loop takes at most each bound property once, so it ends because nothing is ready any more
(`Graph.Taking.take_done`). What it has not taken by then reads something else that it has not taken, and
a finite set in which everything has a successor has a cycle (`Graph.exists_cycle`). That an order
excludes cycles is `Graph.not_mem_downstream_self`.

`Graph.takeChecked` is the loop that stops when a count would go below zero; it never does
(`Graph.Taking.takeChecked_eq`).
-/

set_option autoImplicit false

namespace ReactiveView

namespace Graph

variable {ps : List PropertyDescriptor}

/-- The binding of the first property reads the second one. -/
def Through (ps : List PropertyDescriptor) (a b : String) : Prop := ∃ p ∈ ps, p.name = a ∧ Reads p b

/-- What reads a property through its binding is bound. -/
theorem Through.exists_bound {a b : String} (h : Through ps a b) :
    ∃ p ∈ bound ps, p.name = a ∧ b ∈ p.reads := by
  obtain ⟨p, hp, hname, hreads⟩ := h
  refine ⟨p, List.mem_filter.2 ⟨hp, ?_⟩, hname, hreads⟩
  unfold Reads PropertyDescriptor.reads at hreads
  cases hb : p.binding with
  | none => simp [hb] at hreads
  | some f => rfl

/-- A relation on finitely many names by which each of them has a successor among them has a cycle. -/
theorem exists_cycle {r : String → String → Prop} (names : List String) (hne : names ≠ [])
    (h : ∀ a ∈ names, ∃ b ∈ names, r a b) : ∃ a, Relation.TransGen r a a := by
  by_contra hno
  have hirr (a : String) : ¬ Relation.TransGen r a a := fun ha => hno ⟨a, ha⟩
  let s (x y : {a // a ∈ names}) : Prop := Relation.TransGen r y.1 x.1
  have : IsTrans _ s := ⟨fun _ _ _ hxy hyz => hyz.trans hxy⟩
  have : Std.Irrefl s := ⟨fun x => hirr x.1⟩
  obtain ⟨a, ha⟩ := List.exists_mem_of_ne_nil names hne
  obtain ⟨x, -, hmin⟩ := (Finite.wellFounded_of_trans_of_irrefl s).has_min Set.univ ⟨⟨a, ha⟩, trivial⟩
  obtain ⟨b, hb, hxb⟩ := h x.1 x.2
  exact hmin ⟨b, hb⟩ trivial (Relation.TransGen.single hxb)

/-! ## The end of the loop -/

theorem Taking.length_le {counts : Dict String Nat} {taken ready : List String}
    (h : Taking ps counts taken ready) : taken.length ≤ (boundNames ps).length := by
  refine (List.subperm_of_subset h.nodup.of_append_left fun n hn => ?_).length_le
  obtain ⟨p, hp, hname, -⟩ := (h.mem_iff n).1 (List.mem_append_left _ hn)
  exact hname ▸ name_mem_boundNames hp

/-- With more steps than there are bound properties left, the loop ends when nothing is ready. -/
theorem Taking.take_done (hb : (boundNames ps).Nodup) (fuel : Nat) {counts : Dict String Nat}
    {taken ready : List String} (h : Taking ps counts taken ready)
    (hfuel : (boundNames ps).length < taken.length + fuel) :
    Taking ps (Graph.take (dependentsOf ps) fuel counts taken ready).1
      (Graph.take (dependentsOf ps) fuel counts taken ready).2 [] := by
  induction fuel generalizing counts taken ready with
  | zero => exact absurd h.length_le (Nat.not_le_of_lt hfuel)
  | succ fuel ih =>
    cases ready with
    | nil => simpa only [Graph.take] using h
    | cons q rest =>
      rw [Graph.take]
      refine ih (h.step hb) ?_
      rw [List.length_append, List.length_singleton]
      omega

/-- When nothing is ready, a property that has not been taken reads another one that has not. -/
theorem Taking.exists_through {counts : Dict String Nat} {taken : List String}
    (h : Taking ps counts taken []) {n : String} (hn : n ∈ boundNames ps) (hnot : n ∉ taken) :
    ∃ r ∈ boundNames ps, r ∉ taken ∧ Through ps n r := by
  obtain ⟨p, hp, rfl⟩ := Graph.mem_boundNames.1 hn
  have hmem := h.mem_iff p.name
  rw [List.append_nil] at hmem
  have hopen : ¬ ∀ r ∈ boundReads ps p, r ∈ taken := fun hall => hnot (hmem.2 ⟨p, hp, rfl, hall⟩)
  push Not at hopen
  obtain ⟨r, hr, hrt⟩ := hopen
  obtain ⟨hreads, hrb⟩ := mem_boundReads.1 hr
  exact ⟨r, hrb, hrt, p, (List.mem_filter.1 hp).1, rfl, hreads⟩

/-- The properties that read no bound property. -/
def initial (ps : List PropertyDescriptor) : List String :=
  (ps.map (·.name)).filter fun n => (countsOf ps).get? n == some 0

theorem nodup_boundNames (hn : (ps.map (·.name)).Nodup) : (boundNames ps).Nodup :=
  hn.sublist (List.filter_sublist.map _)

/-- The state in which the loop ends. -/
theorem taking_end (hn : (ps.map (·.name)).Nodup) :
    Taking ps (Graph.take (dependentsOf ps) (ps.length + 1) (countsOf ps) [] (initial ps)).1
      (Graph.take (dependentsOf ps) (ps.length + 1) (countsOf ps) [] (initial ps)).2 [] := by
  refine (Taking.start hn (nodup_boundNames hn)).take_done (nodup_boundNames hn) _ ?_
  have hle : (boundNames ps).length ≤ ps.length := by
    rw [boundNames, List.length_map]
    exact List.length_filter_le _ ps
  rw [List.length_nil]
  omega

/-! ## Errors and cycles -/

theorem length_countsOf_le (ps : List PropertyDescriptor) :
    (countsOf ps).length ≤ (boundNames ps).length := by
  have h := Dict.length_foldl_insert_le PropertyDescriptor.name (fun p => (boundReads ps p).length)
    (bound ps) []
  rw [List.length_nil, Nat.zero_add] at h
  rw [boundNames, List.length_map]
  exact h

/-- Where the graph does not exist, a property reads itself through bindings. -/
theorem exists_cycle_of_error (hn : (ps.map (·.name)).Nodup) {e : Error} (h : Graph.of ps = .error e) :
    ∃ n, Relation.TransGen (Through ps) n n := by
  have hend := taking_end hn
  simp only [Graph.of] at h
  split at h
  · next hlen =>
    -- the properties that the loop has not taken
    refine exists_cycle ((boundNames ps).filter fun n =>
      decide (n ∉ (Graph.take (dependentsOf ps) (ps.length + 1) (countsOf ps) [] (initial ps)).2))
      (fun hnil => ?_) fun a ha => ?_
    · have hsub : boundNames ps ⊆
          (Graph.take (dependentsOf ps) (ps.length + 1) (countsOf ps) [] (initial ps)).2 := by
        intro n hnb
        by_contra hnot
        exact List.not_mem_nil (hnil ▸ List.mem_filter.2 ⟨hnb, decide_eq_true hnot⟩)
      have hle := (List.subperm_of_subset (nodup_boundNames hn) hsub).length_le
      exact absurd (Nat.lt_of_le_of_lt hle hlen) (Nat.not_lt_of_le (length_countsOf_le ps))
    · obtain ⟨hab, hat⟩ := List.mem_filter.1 ha
      obtain ⟨r, hrb, hrt, hthrough⟩ := hend.exists_through hab (of_decide_eq_true hat)
      exact ⟨r, List.mem_filter.2 ⟨hrb, decide_eq_true hrt⟩, hthrough⟩
  · cases h

/-- The only error is that a binding depends on itself. -/
theorem of_cases (ps : List PropertyDescriptor) :
    (∃ n, Graph.of ps = .error (.bindingCycle n)) ∨ ∃ g, Graph.of ps = .ok g := by
  simp only [Graph.of]
  split
  · exact Or.inl ⟨_, rfl⟩
  · exact Or.inr ⟨_, rfl⟩

/-- Bound properties of different names are read off by name. -/
theorem exists_reads (hb : (boundNames ps).Nodup) :
    ∃ reads : String → List String, ∀ p ∈ bound ps, reads p.name = p.reads := by
  classical
  refine ⟨fun n => if h : ∃ p ∈ bound ps, p.name = n then h.choose.reads else [], fun p hp => ?_⟩
  have h : ∃ q ∈ bound ps, q.name = p.name := ⟨p, hp, rfl⟩
  simp only [dif_pos h]
  rw [eq_of_name_eq hb h.choose_spec.1 hp h.choose_spec.2]

/-- Where the graph exists, no property reads itself through bindings. -/
theorem not_cycle_of_ok (hn : (ps.map (·.name)).Nodup) {g : Graph} (h : Graph.of ps = .ok g)
    (n : String) : ¬ Relation.TransGen (Through ps) n n := by
  intro hcycle
  obtain ⟨reads, hreads⟩ := exists_reads (nodup_boundNames hn)
  have ht := topological_of_ok hn h reads hreads
  have hstep (a b : String) (hab : Through ps a b) : Feeds reads g.order b a := by
    obtain ⟨p, hp, rfl, hr⟩ := hab.exists_bound
    exact ⟨(mem_order_iff hn h _).2 (name_mem_boundNames hp), hreads p hp ▸ hr⟩
  have hfeeds : Relation.TransGen (Feeds reads g.order) n n :=
    Relation.transGen_swap.1 (Relation.TransGen.mono hstep _ _ hcycle)
  exact not_mem_downstream_self ht n ((mem_downstream_iff_transGen ht n n).2 hfeeds)

theorem dependents_of_ok {g : Graph} (h : Graph.of ps = .ok g) : g.dependents = dependentsOf ps := by
  simp only [Graph.of] at h
  split at h
  · cases h
  · obtain rfl := Except.ok.inj h
    rfl

/-! ## Counts above zero -/

/-- Takes one from the count of each listed property, and stops at a count that is zero. -/
def lowerChecked (counts : Dict String Nat) : List String → Option (Dict String Nat × List String)
  | [] => some (counts, [])
  | q :: qs =>
    match counts.get? q with
    | none => lowerChecked counts qs
    | some 0 => none
    | some (n + 1) =>
      (lowerChecked (counts.insert q n) qs).map fun (counts, ready) =>
        (counts, if n = 0 then q :: ready else ready)

/-- Takes ready properties one after the other, and stops at a count that would go below zero. -/
def takeChecked (dependents : Dict String (List String)) (fuel : Nat) (counts : Dict String Nat)
    (taken ready : List String) : Option (Dict String Nat × List String) :=
  match fuel, ready with
  | 0, _ => some (counts, taken)
  | _, [] => some (counts, taken)
  | fuel + 1, p :: rest =>
    (lowerChecked counts ((dependents.get? p).getD [])).bind fun (counts, more) =>
      takeChecked dependents fuel counts (taken ++ [p]) (rest ++ more)

theorem lowerChecked_eq (counts : Dict String Nat) (qs : List String)
    (h : ∀ n k, counts.get? n = some k → qs.count n ≤ k) :
    lowerChecked counts qs = some (lower counts qs) := by
  induction qs generalizing counts with
  | nil => rfl
  | cons q qs ih =>
    unfold lowerChecked lower
    cases hq : counts.get? q with
    | none => exact ih counts fun n k hk => Nat.le_trans List.count_le_count_cons (h n k hk)
    | some k =>
      have hk := h q k hq
      rw [List.count_cons_self] at hk
      cases k with
      | zero => exact absurd hk (Nat.not_succ_le_zero _)
      | succ k =>
        have hrest : lowerChecked (counts.insert q k) qs = some (lower (counts.insert q k) qs) := by
          refine ih _ fun n j hj => ?_
          by_cases hne : q = n
          · subst hne
            rw [Dict.get?_insert_self, Option.some.injEq] at hj
            omega
          · rw [Dict.get?_insert_of_ne _ _ _ _ hne] at hj
            exact Nat.le_trans List.count_le_count_cons (h n j hj)
        simp only [hrest, Option.map_some, Nat.add_sub_cancel]

/-- No count of the loop goes below zero. -/
theorem Taking.takeChecked_eq (hb : (boundNames ps).Nodup) (fuel : Nat) {counts : Dict String Nat}
    {taken ready : List String} (h : Taking ps counts taken ready) :
    takeChecked (dependentsOf ps) fuel counts taken ready =
      some (Graph.take (dependentsOf ps) fuel counts taken ready) := by
  induction fuel generalizing counts taken ready with
  | zero => rw [Graph.takeChecked, Graph.take]
  | succ fuel ih =>
    cases ready with
    | nil => rw [Graph.takeChecked, Graph.take] <;> simp
    | cons q rest =>
      rw [Graph.takeChecked, Graph.take, lowerChecked_eq _ _ (h.count_le hb), Option.bind_some]
      exact ih (h.step hb)

/-! ## The graph -/

/-- The graph of properties with different names. It fails to exist exactly when a bound property reads
itself through one or more bindings. Where it exists its order lists every bound property once, after
every bound property that it reads, and its map lists under each property those whose bindings read it,
once each. In either case no count goes below zero on the way. -/
theorem of_exact (hn : (ps.map (·.name)).Nodup) :
    ((∃ n, Graph.of ps = .error (.bindingCycle n)) ↔ ∃ n, Relation.TransGen (Through ps) n n) ∧
    ((∃ g, Graph.of ps = .ok g) ↔ ¬ ∃ n, Relation.TransGen (Through ps) n n) ∧
    (∀ g, Graph.of ps = .ok g →
      g.order.Perm (boundNames ps) ∧
      (∀ p ∈ bound ps, ∀ pre post, g.order = pre ++ p.name :: post →
        ∀ r, Reads p r → r ∈ boundNames ps → r ∈ pre) ∧
      ∀ q, (g.dependents.get? q).getD [] =
        ((bound ps).filter fun p => decide (q ∈ p.reads)).map (·.name)) ∧
    takeChecked (dependentsOf ps) (ps.length + 1) (countsOf ps) [] (initial ps) =
      some (Graph.take (dependentsOf ps) (ps.length + 1) (countsOf ps) [] (initial ps)) := by
  have hb := nodup_boundNames hn
  have hok {g : Graph} (h : Graph.of ps = .ok g) : ¬ ∃ n, Relation.TransGen (Through ps) n n :=
    fun ⟨n, hc⟩ => not_cycle_of_ok hn h n hc
  refine ⟨⟨fun ⟨n, h⟩ => exists_cycle_of_error hn h, fun hc => ?_⟩,
    ⟨fun ⟨g, h⟩ => hok h, fun hno => ?_⟩, fun g h => ⟨?_, fun p hp pre post hsplit r hr hrb => ?_, ?_⟩,
    (Taking.start hn hb).takeChecked_eq hb _⟩
  · exact (of_cases ps).resolve_right fun ⟨g, h⟩ => hok h hc
  · exact (of_cases ps).resolve_left fun ⟨n, h⟩ => hno (exists_cycle_of_error hn h)
  · obtain ⟨reads, hreads⟩ := exists_reads hb
    exact (List.perm_ext_iff_of_nodup (topological_of_ok hn h reads hreads).nodup hb).2
      (mem_order_iff hn h)
  · obtain ⟨reads, hreads⟩ := exists_reads hb
    refine (topological_of_ok hn h reads hreads).before pre p.name post hsplit r ?_
      ((mem_order_iff hn h r).2 hrb)
    rw [hreads p hp]
    exact hr
  · rw [dependents_of_ok h]
    exact dependentsOf_get? ps

/-- A primitive property whose binding reads the listed properties. -/
def reading (name : String) (reads : List String) : PropertyDescriptor :=
  { PropertyDescriptor.ofTypes name none with
    binding := some { slots := reads.map fun r => (Source.property r, []) } }

/-- `both` reads `left` and `right`, which read `word`; `left` reads it twice. -/
def diamond : List PropertyDescriptor :=
  [reading "both" ["left", "right", "left"], reading "left" ["word", "word"],
    PropertyDescriptor.ofTypes "word" none, reading "right" ["word"]]

/-- The properties of `diamond`, and three that wait for each other or for themselves. -/
def knot : List PropertyDescriptor :=
  diamond ++ [reading "tail" ["one", "word"], reading "one" ["two"], reading "two" ["both", "one"]]

/-- The diamond has a graph and so no cycle, and the knot has no graph and so a cycle. -/
theorem of_exact_diamond :
    (diamond.map (·.name)).Nodup ∧ (∃ g, Graph.of diamond = .ok g ∧ g.order = ["left", "right", "both"]) ∧
    (¬ ∃ n, Relation.TransGen (Through diamond) n n) ∧
    (knot.map (·.name)).Nodup ∧ Graph.of knot = .error (.bindingCycle "tail") ∧
    ∃ n, Relation.TransGen (Through knot) n n :=
  have hd : (diamond.map (·.name)).Nodup := by decide +kernel
  have hk : (knot.map (·.name)).Nodup := by decide +kernel
  have hok : ∃ g, Graph.of diamond = .ok g ∧ g.order = ["left", "right", "both"] := ⟨_, rfl, rfl⟩
  have herr : Graph.of knot = .error (.bindingCycle "tail") := by rfl
  ⟨hd, hok, (of_exact hd).2.1.1 (hok.imp fun _ h => h.1), hk, herr, (of_exact hk).1.1 ⟨_, herr⟩⟩

end Graph

end ReactiveView
