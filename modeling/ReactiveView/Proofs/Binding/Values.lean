import ReactiveView.Proofs.Class.Compiled
import ReactiveView.World.Write

/-!
# Writes as functions on values

The values of an instance are one list, in the order of the properties of its class. A primitive write
changes that list by a function of the class alone: `Class.written` puts the value in its place and then
recomputes, one after the other, the bound properties that the write reaches.

A property *follows* its binding when its value is the text of the binding rendered with the current
texts (`Class.Follows`). Recomputing a list of properties in which each stands after what it reads makes
all of them follow (`Class.Valid.follows_foldl`). So after a write every property that the write reaches
follows, and one that it does not reach, other than the written one, follows if it did before
(`Class.Valid.follows_written`); no value changes but the written one and those that the write reaches
(`Class.Valid.valueIn_written_of_not_mem`).
-/

set_option autoImplicit false

namespace ReactiveView

namespace Format

/-- Rendering asks for the texts of the sources only. -/
theorem render_congr {f : Format} {g h : Source → String} (hs : ∀ s ∈ f.sources, g s = h s) :
    f.render g = f.render h := by
  have key (slots : Dict Source (List Nat)) (parts : List String)
      (hs : ∀ s ∈ slots.keys, g s = h s) :
      slots.foldl (fun parts e => fillAt parts e.2 (g e.1)) parts =
        slots.foldl (fun parts e => fillAt parts e.2 (h e.1)) parts := by
    induction slots generalizing parts with
    | nil => rfl
    | cons e rest ih =>
      rw [List.foldl_cons, List.foldl_cons, hs e.1 List.mem_cons_self]
      exact ih _ fun s hs' => hs s (List.mem_cons_of_mem _ hs')
  unfold render filled
  rw [key f.slots f.parts hs]

theorem mem_properties {f : Format} {name : String} (h : .property name ∈ f.sources) :
    name ∈ f.properties :=
  List.mem_filterMap.2 ⟨_, h, rfl⟩

end Format

namespace Class

/-! ## The values of an instance -/

/-- The value of a property among the values of an instance. -/
def valueIn (c : Class) (vals : List Value) (name : String) : Option Value :=
  (c.descriptor.propertyIndex? name).bind fun n => vals[n]?

/-- The text of a source among the values of an instance. -/
def textIn (c : Class) (vals : List Value) (source : Source) : String :=
  match c.valueIn vals source.name with
  | some v => v.outputText
  | none => ""

/-- The values with another value for a property. -/
def put (c : Class) (vals : List Value) (name : String) (v : Value) : List Value :=
  match c.descriptor.propertyIndex? name with
  | some n => vals.set n v
  | none => vals

/-- The binding of a property. -/
def bindingOf? (c : Class) (name : String) : Option Format :=
  (c.descriptor.property? name).bind (·.binding)

/-- The values with a bound property recomputed. -/
def recomputed (c : Class) (vals : List Value) (name : String) : List Value :=
  match c.bindingOf? name with
  | some f => c.put vals name (.text (f.render (c.textIn vals)))
  | none => vals

/-- The values after a write of a property. -/
def written (c : Class) (vals : List Value) (name : String) (v : Value) : List Value :=
  (c.affected name).foldl c.recomputed (c.put vals name v)

/-- The values after a bound property and what is downstream of it have been recomputed. -/
def refreshed (c : Class) (vals : List Value) (name : String) : List Value :=
  match c.bindingOf? name with
  | some f => c.written vals name (.text (f.render (c.textIn vals)))
  | none => vals

/-- The value of a property is the text of its binding. -/
def Follows (c : Class) (vals : List Value) (name : String) : Prop :=
  ∀ f, c.bindingOf? name = some f →
    c.valueIn vals name = some (.text (f.render (c.textIn vals)))

variable {c : Class}

@[simp] theorem length_put (vals : List Value) (name : String) (v : Value) :
    (c.put vals name v).length = vals.length := by
  unfold put
  split
  · exact List.length_set
  · rfl

@[simp] theorem length_recomputed (vals : List Value) (name : String) :
    (c.recomputed vals name).length = vals.length := by
  unfold recomputed
  split
  · exact length_put _ _ _
  · rfl

@[simp] theorem length_foldl_recomputed (ns : List String) (vals : List Value) :
    (ns.foldl c.recomputed vals).length = vals.length := by
  induction ns generalizing vals with
  | nil => rfl
  | cons n ns ih => rw [List.foldl_cons, ih, length_recomputed]

@[simp] theorem length_written (vals : List Value) (name : String) (v : Value) :
    (c.written vals name v).length = vals.length := by
  unfold written
  rw [length_foldl_recomputed, length_put]

@[simp] theorem length_refreshed (vals : List Value) (name : String) :
    (c.refreshed vals name).length = vals.length := by
  unfold refreshed
  split
  · exact length_written _ _ _
  · rfl

/-- A refresh recomputes the property and then what is downstream of it. -/
theorem refreshed_eq_foldl {vals : List Value} {name : String} {f : Format}
    (hf : c.bindingOf? name = some f) :
    c.refreshed vals name = (c.affected name).foldl c.recomputed (c.recomputed vals name) := by
  unfold refreshed recomputed
  rw [hf]
  rfl

theorem valueIn_put_self {vals : List Value} {name : String} {v : Value}
    (h : (c.valueIn vals name).isSome = true) : c.valueIn (c.put vals name v) name = some v := by
  unfold valueIn put at *
  cases hn : c.descriptor.propertyIndex? name with
  | none =>
    rw [hn] at h
    cases h
  | some n =>
    rw [hn, Option.bind_some] at h
    obtain ⟨old, hold⟩ := Option.isSome_iff_exists.1 h
    exact List.getElem?_set_self (List.getElem?_eq_some_iff.1 hold).1

theorem valueIn_put_of_ne {vals : List Value} {name m : String} {v : Value} (h : m ≠ name) :
    c.valueIn (c.put vals name v) m = c.valueIn vals m := by
  unfold valueIn put
  cases hm : c.descriptor.propertyIndex? m with
  | none => rfl
  | some k =>
    cases hn : c.descriptor.propertyIndex? name with
    | none => rfl
    | some n =>
      have hne : n ≠ k := fun heq => h (Descriptor.propertyIndex?_inj (heq ▸ hm) hn)
      exact List.getElem?_set_ne hne

theorem valueIn_recomputed_of_ne {vals : List Value} {name m : String} (h : m ≠ name) :
    c.valueIn (c.recomputed vals name) m = c.valueIn vals m := by
  unfold recomputed
  split
  · exact valueIn_put_of_ne h
  · rfl

theorem valueIn_foldl_recomputed_of_not_mem {ns : List String} {vals : List Value} {m : String}
    (h : m ∉ ns) : c.valueIn (ns.foldl c.recomputed vals) m = c.valueIn vals m := by
  induction ns generalizing vals with
  | nil => rfl
  | cons n ns ih =>
    simp only [List.mem_cons, not_or] at h
    rw [List.foldl_cons, ih h.2, valueIn_recomputed_of_ne h.1]

theorem isSome_valueIn {vals : List Value} {p : PropertyDescriptor}
    (hlen : vals.length = c.descriptor.properties.length) (hp : p ∈ c.descriptor.properties) :
    (c.valueIn vals p.name).isSome = true := by
  obtain ⟨n, hn⟩ : ∃ n, c.descriptor.propertyIndex? p.name = some n := by
    rw [← Option.isSome_iff_exists, Descriptor.propertyIndex?, List.findIdx?_isSome,
      List.any_eq_true]
    exact ⟨p, hp, by simp⟩
  obtain ⟨q, hq, -⟩ := Descriptor.propertyIndex?_some hn
  obtain ⟨hlt, -⟩ := List.getElem?_eq_some_iff.1 hq
  unfold valueIn
  rw [hn, Option.bind_some, List.getElem?_eq_getElem (hlen ▸ hlt)]
  rfl

namespace Valid

variable (hc : c.Valid)

include hc

/-- The text of a binding depends on the values of what it reads. -/
theorem render_congr {vals vals' : List Value} {name : String} {f : Format}
    (hf : c.bindingOf? name = some f)
    (h : ∀ r ∈ c.readsOf name, c.valueIn vals r = c.valueIn vals' r) :
    f.render (c.textIn vals) = f.render (c.textIn vals') := by
  obtain ⟨p, hp, hpf⟩ := Option.bind_eq_some_iff.1 hf
  obtain ⟨hpm, rfl⟩ := Descriptor.property?_some hp
  refine Format.render_congr fun s hs => ?_
  obtain ⟨r, rfl⟩ := (hc.descriptor.sound p hpm).sources f hpf s hs
  rw [hc.readsOf_eq hpm hpf] at h
  unfold textIn
  rw [Source.name, h r (Format.mem_properties hs)]

theorem mem_order_of_bindingOf? {name : String} {f : Format} (hf : c.bindingOf? name = some f) :
    name ∈ c.graph.order := by
  obtain ⟨p, hp, hpf⟩ := Option.bind_eq_some_iff.1 hf
  obtain ⟨hpm, rfl⟩ := Descriptor.property?_some hp
  exact (hc.mem_order _).2 ⟨p, hpm, by rw [hpf]; rfl, rfl⟩

theorem bindingOf?_of_mem_order {name : String} (hn : name ∈ c.graph.order) :
    ∃ f, c.bindingOf? name = some f := by
  obtain ⟨p, hp, hb, rfl⟩ := (hc.mem_order name).1 hn
  obtain ⟨f, hf⟩ := Option.isSome_iff_exists.1 hb
  refine ⟨f, ?_⟩
  unfold bindingOf?
  rw [hc.descriptor.property?_name hp, Option.bind_some, hf]

/-- A property follows as long as its value and the values of what it reads stay. -/
theorem follows_congr {vals vals' : List Value} {name : String}
    (hv : c.valueIn vals' name = c.valueIn vals name)
    (hr : ∀ r ∈ c.readsOf name, c.valueIn vals' r = c.valueIn vals r)
    (h : c.Follows vals name) : c.Follows vals' name := by
  intro f hf
  rw [hv, h f hf, hc.render_congr hf hr]

/-- A recomputed property follows. -/
theorem follows_recomputed {vals : List Value} {name : String}
    (hlen : vals.length = c.descriptor.properties.length) :
    c.Follows (c.recomputed vals name) name := by
  intro f hf
  obtain ⟨p, hp, hpf⟩ := Option.bind_eq_some_iff.1 hf
  obtain ⟨hpm, rfl⟩ := Descriptor.property?_some hp
  have hself := hc.not_mem_readsOf_self (hc.mem_order_of_bindingOf? hf)
  have hreads (r : String) (hr : r ∈ c.readsOf p.name) :
      c.valueIn vals r = c.valueIn (c.recomputed vals p.name) r :=
    (valueIn_recomputed_of_ne fun h => hself (by rw [h] at hr; exact hr)).symm
  rw [← hc.render_congr hf hreads]
  unfold recomputed
  rw [hf]
  exact valueIn_put_self (isSome_valueIn hlen hpm)

/-- Recomputing properties in an order in which none is read by one before it makes all of them
follow. -/
theorem follows_foldl {ns : List String} {vals : List Value}
    (hlen : vals.length = c.descriptor.properties.length) (hnd : ns.Nodup)
    (hpw : ns.Pairwise fun a b => b ∉ c.readsOf a) :
    ∀ n ∈ ns, c.Follows (ns.foldl c.recomputed vals) n := by
  induction ns generalizing vals with
  | nil => exact fun n hn => by cases hn
  | cons n ns ih =>
    rw [List.nodup_cons] at hnd
    rw [List.pairwise_cons] at hpw
    have hlen' : (c.recomputed vals n).length = c.descriptor.properties.length := by
      rw [length_recomputed, hlen]
    intro m hm
    rcases List.mem_cons.1 hm with rfl | hm
    · refine hc.follows_congr ?_ (fun r hr => ?_) (hc.follows_recomputed hlen)
      · exact valueIn_foldl_recomputed_of_not_mem hnd.1
      · exact valueIn_foldl_recomputed_of_not_mem fun hrm => hpw.1 r hrm hr
    · exact ih hlen' hnd.2 hpw.2 m hm

theorem nodup_affected (changed : String) : (c.affected changed).Nodup :=
  hc.topological.nodup.sublist (Graph.downstream_sublist _ _ _)

theorem pairwise_affected (changed : String) :
    (c.affected changed).Pairwise fun a b => b ∉ c.readsOf a :=
  hc.topological.pairwise.sublist (Graph.downstream_sublist _ _ _)

/-! ## After a write -/

omit hc in
/-- A write changes the written value and the values that it reaches. -/
theorem valueIn_written_of_not_mem {vals : List Value} {name m : String} {v : Value}
    (hne : m ≠ name) (hm : m ∉ c.affected name) :
    c.valueIn (c.written vals name v) m = c.valueIn vals m := by
  unfold written
  rw [valueIn_foldl_recomputed_of_not_mem hm, valueIn_put_of_ne hne]

/-- A written value is there after the write. -/
theorem valueIn_written_self {vals : List Value} {name : String} {v : Value}
    (h : (c.valueIn vals name).isSome = true) :
    c.valueIn (c.written vals name v) name = some v := by
  have hself : name ∉ c.affected name := Graph.not_mem_downstream_self hc.topological name
  unfold written
  rw [valueIn_foldl_recomputed_of_not_mem hself, valueIn_put_self h]

/-- After a write a property follows if the write reaches it, or if it is not the written one and
followed before. -/
theorem follows_written {vals : List Value} {name m : String} {v : Value}
    (hlen : vals.length = c.descriptor.properties.length)
    (h : m ∈ c.affected name ∨ m ≠ name ∧ c.Follows vals m) :
    c.Follows (c.written vals name v) m := by
  by_cases hm : m ∈ c.affected name
  · refine hc.follows_foldl ?_ (hc.nodup_affected name) (hc.pairwise_affected name) m hm
    rw [length_put, hlen]
  · obtain ⟨hne, hfollows⟩ := h.resolve_left hm
    intro f hf
    have hmo := hc.mem_order_of_bindingOf? hf
    refine hc.follows_congr (valueIn_written_of_not_mem hne hm) (fun r hr => ?_) hfollows f hf
    refine valueIn_written_of_not_mem (fun hrn => hm ?_) fun hra => hm ?_
    · exact hc.mem_affected_of_reads hmo hr (Or.inl hrn)
    · exact hc.mem_affected_of_reads hmo hr (Or.inr hra)

/-! ## After a refresh -/

omit hc in
/-- A refresh changes the refreshed value and the values downstream of it. -/
theorem valueIn_refreshed_of_not_mem {vals : List Value} {name m : String}
    (hne : m ≠ name) (hm : m ∉ c.affected name) :
    c.valueIn (c.refreshed vals name) m = c.valueIn vals m := by
  unfold refreshed
  split
  · exact valueIn_written_of_not_mem hne hm
  · rfl

/-- After a refresh the refreshed property follows, and so does what is downstream of it or followed
before. -/
theorem follows_refreshed {vals : List Value} {name m : String}
    (hlen : vals.length = c.descriptor.properties.length) (hn : name ∈ c.graph.order)
    (h : m = name ∨ m ∈ c.affected name ∨ c.Follows vals m) :
    c.Follows (c.refreshed vals name) m := by
  obtain ⟨f, hf⟩ := hc.bindingOf?_of_mem_order hn
  by_cases hmn : m = name
  · subst hmn
    have hself : m ∉ c.affected m := Graph.not_mem_downstream_self hc.topological m
    rw [refreshed_eq_foldl hf]
    refine hc.follows_congr (valueIn_foldl_recomputed_of_not_mem hself) (fun r hr => ?_)
      (hc.follows_recomputed hlen)
    -- what the property reads cannot be downstream of it
    refine valueIn_foldl_recomputed_of_not_mem fun hra => hself ?_
    exact hc.mem_affected_of_reads hn hr (Or.inr hra)
  · unfold refreshed
    rw [hf]
    exact hc.follows_written hlen ((h.resolve_left hmn).imp id fun h => ⟨hmn, h⟩)

end Valid

end Class

end ReactiveView
