import ReactiveView.Proofs.Class.Order
import ReactiveView.Proofs.Template.Validity

/-!
# Tables of compiled classes

A table of classes is *compiled* when every class in it was compiled from a template that had been
read, its parent being in the table before it (`Compiled`). All classes of such a table are valid: the
descriptor is valid, and the graph lists the bound properties, each after the bound properties that it
reads (`Class.Valid`, `Compiled.valid`).

The rest of the module is about looking up the properties of a valid descriptor by name.
-/

set_option autoImplicit false

namespace ReactiveView

namespace Descriptor

theorem property?_some {d : Descriptor} {name : String} {p : PropertyDescriptor}
    (h : d.property? name = some p) : p ∈ d.properties ∧ p.name = name :=
  ⟨List.mem_of_find?_eq_some h, by simpa using List.find?_some h⟩

theorem propertyIndex?_some {d : Descriptor} {name : String} {n : Nat}
    (h : d.propertyIndex? name = some n) : ∃ p, d.properties[n]? = some p ∧ p.name = name := by
  obtain ⟨hn, hp, -⟩ := List.findIdx?_eq_some_iff_getElem.1 h
  exact ⟨d.properties[n], List.getElem?_eq_getElem hn, by simpa using hp⟩

theorem attributeIndex?_some {d : Descriptor} {name : String} {n : Nat}
    (h : d.attributeIndex? name = some n) : ∃ a, d.attributes[n]? = some a ∧ a.name = name := by
  obtain ⟨hn, ha, -⟩ := List.findIdx?_eq_some_iff_getElem.1 h
  exact ⟨d.attributes[n], List.getElem?_eq_getElem hn, by simpa using ha⟩

/-- Different names stand at different positions. -/
theorem propertyIndex?_inj {d : Descriptor} {a b : String} {n : Nat}
    (ha : d.propertyIndex? a = some n) (hb : d.propertyIndex? b = some n) : a = b := by
  obtain ⟨p, hp, rfl⟩ := propertyIndex?_some ha
  obtain ⟨q, hq, rfl⟩ := propertyIndex?_some hb
  rw [hp] at hq
  rw [Option.some.inj hq]

namespace Valid

variable {d : Descriptor} (hd : d.Valid)

include hd

/-- A property is found under its name. -/
theorem property?_name {p : PropertyDescriptor} (hp : p ∈ d.properties) :
    d.property? p.name = some p := by
  obtain ⟨q, hq⟩ : ∃ q, d.property? p.name = some q := by
    rw [← Option.isSome_iff_exists, Descriptor.property?, List.find?_isSome]
    exact ⟨p, hp, by simp⟩
  obtain ⟨hqm, hqn⟩ := property?_some hq
  rw [hq, List.inj_on_of_nodup_map hd.nodup hqm hp hqn]

/-- The position of a property is found under its name. -/
theorem propertyIndex?_name {p : PropertyDescriptor} {n : Nat} (hp : d.properties[n]? = some p) :
    d.propertyIndex? p.name = some n := by
  obtain ⟨m, hm⟩ : ∃ m, d.propertyIndex? p.name = some m := by
    rw [← Option.isSome_iff_exists, Descriptor.propertyIndex?, List.findIdx?_isSome, List.any_eq_true]
    exact ⟨p, List.mem_of_getElem? hp, by simp⟩
  obtain ⟨q, hq, hqn⟩ := propertyIndex?_some hm
  rw [List.inj_on_of_nodup_map hd.nodup (List.mem_of_getElem? hq) (List.mem_of_getElem? hp) hqn]
    at hq
  obtain ⟨hn, hpn⟩ := List.getElem?_eq_some_iff.1 hp
  obtain ⟨hm', hpm⟩ := List.getElem?_eq_some_iff.1 hq
  have hnd : d.properties.Nodup := List.Nodup.of_map _ hd.nodup
  rw [hm, (List.Nodup.getElem_inj_iff hnd).1 (hpm.trans hpn.symm)]

end Valid

end Descriptor

namespace Class

/-- What compiling a valid descriptor establishes. -/
structure Valid (c : Class) : Prop where
  descriptor : c.descriptor.Valid
  topological : Graph.Topological c.readsOf c.graph.order
  mem_order : ∀ n, n ∈ c.graph.order ↔ ∃ p ∈ c.descriptor.properties, p.binding.isSome = true ∧ p.name = n

/-- The descriptor of a compiled class is the one it was compiled from, and its graph is the graph of
the properties. -/
theorem compile_spec {d : Descriptor} {parent : Option (ClassId × Class)} {ns : Option NamespaceId}
    {queue : QueueId} {factory : Option Host.Factory} {c : Class}
    (h : compile d parent ns queue factory = .ok c) :
    c.descriptor = d ∧ Graph.of d.properties = .ok c.graph ∧
      (d.isAbstract = false → d.view.isSome = true) := by
  unfold compile at h
  split at h
  · cases h
  · next hview =>
    split at h
    · cases h
    · split at h
      · cases h
      · next g hg =>
        obtain rfl := Except.ok.inj h
        refine ⟨rfl, hg, fun habs => ?_⟩
        cases hv : d.view with
        | none => simp [habs, hv] at hview
        | some v => rfl

theorem queue_compile {d : Descriptor} {parent : Option (ClassId × Class)} {ns : Option NamespaceId}
    {queue : QueueId} {factory : Option Host.Factory} {c : Class}
    (h : compile d parent ns queue factory = .ok c) : c.queue = queue := by
  unfold compile at h
  (repeat' split at h) <;> first | cases h; rfl | cases h

/-- A compiled class with a valid descriptor is valid. -/
theorem compile_valid {d : Descriptor} {parent : Option (ClassId × Class)}
    {ns : Option NamespaceId} {queue : QueueId} {factory : Option Host.Factory} {c : Class}
    (hd : d.Valid) (h : compile d parent ns queue factory = .ok c) : c.Valid := by
  obtain ⟨rfl, hg, -⟩ := compile_spec h
  refine ⟨hd, Graph.topological_of_ok hd.nodup hg _ fun p hp => ?_, fun n => ?_⟩
  · unfold readsOf
    rw [hd.property?_name (List.mem_filter.1 hp).1]
  · rw [Graph.mem_order_iff hd.nodup hg, Graph.mem_boundNames]
    simp only [Graph.bound, List.mem_filter]
    exact exists_congr fun p => and_assoc

namespace Valid

variable {c : Class} (hc : c.Valid)

include hc

/-- What a bound property reads are the sources of its format. -/
theorem readsOf_eq {p : PropertyDescriptor} {f : Format} (hp : p ∈ c.descriptor.properties)
    (hf : p.binding = some f) : c.readsOf p.name = f.properties := by
  unfold readsOf
  rw [hc.descriptor.property?_name hp]
  simp only [PropertyDescriptor.reads, hf]

/-- Only what is bound is reached by a write. -/
theorem bound_of_mem_affected {changed n : String} (h : n ∈ c.affected changed) :
    ∃ p ∈ c.descriptor.properties, p.binding.isSome = true ∧ p.name = n :=
  (hc.mem_order n).1 (Graph.mem_order_of_mem_downstream _ _ _ _ h)

/-- No property reads itself. -/
theorem not_mem_readsOf_self {n : String} (hn : n ∈ c.graph.order) : n ∉ c.readsOf n := by
  intro h
  refine Graph.not_mem_downstream_self hc.topological n ?_
  exact (Graph.mem_downstream_iff hc.topological n n).2 ⟨hn, n, h, Or.inl rfl⟩

/-- A property that reads the written one, or one that the write reaches, is reached as well. -/
theorem mem_affected_of_reads {changed n r : String} (hn : n ∈ c.graph.order) (hr : r ∈ c.readsOf n)
    (h : r = changed ∨ r ∈ c.affected changed) : n ∈ c.affected changed :=
  (Graph.mem_downstream_iff hc.topological changed n).2 ⟨hn, r, hr, h⟩

end Valid

end Class

/-- Every class of the table was compiled from a template that had been read, after its parent. -/
inductive Compiled : Table Class → Prop where
  | empty : Compiled {}
  | push {T : Table Class} (hT : Compiled T) (r : Template.Reading) (definition : Template.Definition)
      (parent : Option (ClassRef × Class))
      (hparent : ∀ p, parent = some p → T.get? p.1.id.index = some p.2) (d : Descriptor)
      (hd : Template.parse r definition (parent.map fun p => (p.1, p.2.descriptor)) = .ok d)
      (ns : Option NamespaceId) (queue : QueueId) (factory : Option Host.Factory) (c : Class)
      (hc : Class.compile d (parent.map fun p => (p.1.id, p.2)) ns queue factory = .ok c) :
      Compiled (T.push c)

/-- A table of one more class answers with the new class or as before. -/
theorem Table.get?_push_eq_some {α : Type} {t : Table α} {a b : α} {i : Nat}
    (h : (t.push a).get? i = some b) : b = a ∨ t.get? i = some b := by
  simp only [Table.get?, Table.push, Array.getElem?_push] at h ⊢
  split at h
  · exact Or.inl (Option.some.inj h).symm
  · exact Or.inr h

/-- The classes of a compiled table are valid. -/
theorem Compiled.valid {T : Table Class} (hT : Compiled T) {i : Nat} {c : Class}
    (h : T.get? i = some c) : c.Valid := by
  induction hT generalizing i c with
  | empty => simp [Table.get?] at h
  | push _ r definition parent hparent d hd ns queue factory c' hc ih =>
    rcases Table.get?_push_eq_some h with rfl | h
    · refine Class.compile_valid (Template.parse_valid (fun p hp => ?_) hd) hc
      obtain ⟨x, hx, rfl⟩ := Option.map_eq_some_iff.1 hp
      exact (ih (hparent x hx)).descriptor
    · exact ih h

/-- Adding a template to a shelf of classes keeps the table of classes compiled. -/
theorem Class.Shelf.compiled_add {s s' : Class.Shelf} {strict : Bool}
    {methods : Dict String (List String)} {template : Markup} {d : Descriptor}
    (hs : Compiled s.classes) (h : s.add strict methods template = .ok (d, s')) :
    Compiled s'.classes := by
  unfold Class.Shelf.add at h
  simp only [bind, Except.bind, pure, Except.pure] at h
  split at h
  · cases h
  · next header _ =>
    split at h
    · split at h
      · cases h
      · next d₁ hd =>
        split at h
        · cases h
        · next c hc =>
          obtain ⟨-, rfl⟩ := Prod.mk.inj (Except.ok.inj h)
          exact hs.push _ _ none (fun p hp => by cases hp) d₁ hd none ⟨0⟩ none c hc
    · split at h
      · cases h
      · next ref _ =>
        split at h
        · cases h
        · next d₁ hd =>
          split at h
          · cases h
          · next c hc =>
            obtain ⟨-, rfl⟩ := Prod.mk.inj (Except.ok.inj h)
            refine hs.push _ _ ((s.classes.get? ref.id.index).map fun c => (ref, c))
              (fun p hp => ?_) d₁ hd none ⟨0⟩ none c hc
            obtain ⟨c', hc', rfl⟩ := Option.map_eq_some_iff.1 hp
            exact hc'

end ReactiveView
