import ReactiveView.Proofs.Binding.Construction

/-!
# Writing all properties of an instance

The properties of an instance are written one after the other, with values in which every bound property
follows what it reads. Each write recomputes what it reaches, so on the way a bound property can hold a text
that it is not to hold in the end. What can be relied on is this: a primitive property holds its final value
as soon as it has been written and so has everything that it reads, directly or through others
(`Class.Determined`, `Class.Arrives`). Every write keeps this, whatever the order
(`Class.Valid.arrives_written`), and after the last one all properties are determined.
-/

set_option autoImplicit false

namespace ReactiveView.Class

/-- A property has been written, and so has all that it reads, directly or through others. -/
inductive Determined (c : Class) (done : String → Prop) : String → Prop where
  | intro {m : String} : done m → (∀ r ∈ c.readsOf m, Determined c done r) → Determined c done m

/-- What is determined by the writes that are done has its final value. -/
def Arrives (c : Class) (final : List Value) (done : String → Prop) (vals : List Value) : Prop :=
  ∀ p ∈ c.descriptor.properties, p.kind.isPrimitive = true → c.Determined done p.name →
    c.valueIn vals p.name = c.valueIn final p.name

variable {c : Class} {done : String → Prop} {m q : String} {final vals vals' : List Value}

/-- A write of `q` determines only what it reaches. -/
theorem Determined.of_or_eq (h : c.Determined (fun n => done n ∨ n = q) m) (good : String → Prop) (hm : good m)
    (hne : ∀ n, good n → n ≠ q) (hreads : ∀ n r, good n → r ∈ c.readsOf n → good r) : c.Determined done m := by
  induction h with
  | intro hdone _ ih =>
    refine .intro (hdone.resolve_right (hne _ hm)) fun r hr => ?_
    exact ih r hr (hreads _ r hm hr)

theorem Determined.mono {done' : String → Prop} (h : c.Determined done m) (hle : ∀ n, done n → done' n) :
    c.Determined done' m := by
  induction h with
  | intro hdone _ ih => exact .intro (hle _ hdone) ih

/-- The fewer writes are done, the less is known. -/
theorem Arrives.mono {done' : String → Prop} (h : c.Arrives final done vals) (hle : ∀ n, done' n → done n) :
    c.Arrives final done' vals :=
  fun p hp hprim hdet => h p hp hprim (hdet.mono hle)

namespace Valid

variable (hc : c.Valid)

include hc

theorem bound_of_mem_readsOf {r : String} (hr : r ∈ c.readsOf m) :
    ∃ p ∈ c.descriptor.properties, p.name = m ∧ r ∈ p.reads ∧ m ∈ c.graph.order := by
  unfold readsOf at hr
  cases hp : c.descriptor.property? m with
  | none =>
    rw [hp] at hr
    cases hr
  | some p =>
    rw [hp] at hr
    change r ∈ p.reads at hr
    obtain ⟨hmem, hname⟩ := Descriptor.property?_some hp
    refine ⟨p, hmem, hname, hr, (hc.mem_order m).2 ⟨p, hmem, ?_, hname⟩⟩
    unfold PropertyDescriptor.reads at hr
    cases hb : p.binding with
    | none =>
      rw [hb] at hr
      cases hr
    | some f => rfl

theorem primitive_of_mem_readsOf {r : String} (hr : r ∈ c.readsOf m) :
    ∃ p ∈ c.descriptor.properties, p.name = r ∧ p.kind.isPrimitive = true := by
  obtain ⟨p, hp, -, hreads, -⟩ := hc.bound_of_mem_readsOf hr
  exact hc.descriptor.reads_primitive p hp r hreads

theorem determined_of_not_reached (h : c.Determined (fun n => done n ∨ n = q) m) (hne : m ≠ q)
    (hm : m ∉ c.affected q) : c.Determined done m := by
  refine h.of_or_eq (fun n => n ≠ q ∧ n ∉ c.affected q) ⟨hne, hm⟩ (fun n hn => hn.1) ?_
  intro n r hn hr
  obtain ⟨-, -, -, -, horder⟩ := hc.bound_of_mem_readsOf hr
  constructor
  · intro heq
    exact hn.2 (hc.mem_affected_of_reads horder hr (Or.inl heq))
  · intro hreached
    exact hn.2 (hc.mem_affected_of_reads horder hr (Or.inr hreached))

/-- The write of a primitive property. -/
theorem arrives_written (h : c.Arrives final done vals) (hfinal : ∀ n, c.Follows final n)
    (hlen : vals.length = c.descriptor.properties.length) {p : PropertyDescriptor}
    (hp : p ∈ c.descriptor.properties) {v : Value} (hv : c.valueIn final p.name = some v) :
    c.Arrives final (fun n => done n ∨ n = p.name) (c.written vals p.name v) := by
  -- along what determines the property: what it reads has arrived when the property is looked at
  suffices hall : ∀ m, c.Determined (fun n => done n ∨ n = p.name) m →
      (∃ x ∈ c.descriptor.properties, x.name = m ∧ x.kind.isPrimitive = true) →
      c.valueIn (c.written vals p.name v) m = c.valueIn final m by
    intro x hx hprim hdet
    exact hall x.name hdet ⟨x, hx, rfl, hprim⟩
  intro m hdet
  induction hdet with
  | @intro m hdone hreads ih =>
    rintro ⟨x, hx, rfl, hprim⟩
    by_cases hreached : x.name ∈ c.affected p.name
    · obtain ⟨y, hy, hbound, hname⟩ := hc.bound_of_mem_affected hreached
      obtain ⟨f, hf⟩ := hc.bindingOf?_of_mem_order ((hc.mem_order x.name).2 ⟨y, hy, hbound, hname⟩)
      rw [hc.follows_written hlen (Or.inl hreached) f hf, hfinal x.name f hf]
      rw [hc.render_congr hf fun r hr => ih r hr (hc.primitive_of_mem_readsOf hr)]
    · by_cases heq : x.name = p.name
      · rw [heq, hv]
        exact hc.valueIn_written_self (isSome_valueIn hlen hp)
      · rw [valueIn_written_of_not_mem heq hreached]
        exact h x hx hprim (hc.determined_of_not_reached (.intro hdone hreads) heq hreached)

/-- The write of a slot or of an array property. -/
theorem arrives_of_element (h : c.Arrives final done vals) {p : PropertyDescriptor}
    (hp : p ∈ c.descriptor.properties) (hkind : p.kind.isPrimitive = false)
    (hvals : ∀ name, name ≠ p.name → c.valueIn vals' name = c.valueIn vals name) :
    c.Arrives final (fun k => done k ∨ k = p.name) vals' := by
  have hne (x : PropertyDescriptor) (hx : x ∈ c.descriptor.properties) (hprim : x.kind.isPrimitive = true) :
      x.name ≠ p.name := by
    intro heq
    rw [List.inj_on_of_nodup_map hc.descriptor.nodup hx hp heq, hkind] at hprim
    cases hprim
  intro x hx hprim hdet
  rw [hvals x.name (hne x hx hprim)]
  refine h x hx hprim (hdet.of_or_eq (fun k =>
    ∃ y ∈ c.descriptor.properties, y.name = k ∧ y.kind.isPrimitive = true) ⟨x, hx, rfl, hprim⟩ ?_ ?_)
  · rintro k ⟨y, hy, rfl, hy'⟩
    exact hne y hy hy'
  · intro k r _ hr
    exact hc.primitive_of_mem_readsOf hr

/-- When everything has been written, everything is determined. -/
theorem determined (hdone : ∀ p ∈ c.descriptor.properties, done p.name) {p : PropertyDescriptor}
    (hp : p ∈ c.descriptor.properties) : c.Determined done p.name := by
  -- a bound property stands in the order behind the bound ones that it reads
  have horder : ∀ (k : Nat) (pre post : List String) (m : String), pre.length < k →
      c.graph.order = pre ++ m :: post → c.Determined done m := by
    intro k
    induction k with
    | zero => exact fun _ _ _ hlt => absurd hlt (Nat.not_lt_zero _)
    | succ k ih =>
      intro pre post m hlt hsplit
      have hmem : m ∈ c.graph.order := by simp [hsplit]
      obtain ⟨x, hx, -, rfl⟩ := (hc.mem_order m).1 hmem
      refine .intro (hdone x hx) fun r hr => ?_
      by_cases hbound : r ∈ c.graph.order
      · obtain ⟨pre', post', rfl⟩ := List.append_of_mem
          (hc.topological.before pre x.name post hsplit r hr hbound)
        rw [List.length_append, List.length_cons] at hlt
        exact ih pre' (post' ++ x.name :: post) r (by omega) (by rw [hsplit]; simp)
      · obtain ⟨y, hy, rfl, -⟩ := hc.primitive_of_mem_readsOf hr
        refine .intro (hdone y hy) fun s hs => ?_
        obtain ⟨-, -, -, -, hmem'⟩ := hc.bound_of_mem_readsOf hs
        exact absurd hmem' hbound
  by_cases hbound : p.name ∈ c.graph.order
  · obtain ⟨pre, post, hsplit⟩ := List.append_of_mem hbound
    exact horder _ pre post p.name (Nat.lt_succ_self _) hsplit
  · refine .intro (hdone p hp) fun r hr => ?_
    obtain ⟨-, -, -, -, hmem⟩ := hc.bound_of_mem_readsOf hr
    exact absurd hmem hbound

/-- When everything has been written, every primitive property has its final value. -/
theorem arrived (h : c.Arrives final done vals) (hdone : ∀ p ∈ c.descriptor.properties, done p.name)
    {p : PropertyDescriptor} (hp : p ∈ c.descriptor.properties) (hprim : p.kind.isPrimitive = true) :
    c.valueIn vals p.name = c.valueIn final p.name :=
  h p hp hprim (hc.determined hdone hp)

end Valid

end ReactiveView.Class
