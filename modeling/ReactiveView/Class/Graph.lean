import ReactiveView.Descriptor

/-!
# The graph of dynamic bindings

A bound property reads the properties that its format mentions, some of which may be bound
themselves. `order` lists the bound properties so that each stands after all it reads, by taking
again and again, first come first served, the properties all of whose bound reads have been taken;
if some remain that cannot be taken, a binding depends on itself, and `Graph.of` names the first of
them.

Once such an order is known, the properties that a write reaches are found in one pass along it
(`downstream`).

`Reads` is the declarative counterpart: one property reads another through one binding.
-/

set_option autoImplicit false

namespace ReactiveView

/-- The bound properties that read each property, and an order of all bound properties in which each
stands after what it reads. -/
structure Graph where
  dependents : Dict String (List String)
  order : List String

namespace Graph

/-- Whether the binding of `p` reads the property `q`. -/
def Reads (p : PropertyDescriptor) (q : String) : Prop := q ∈ p.reads

/-- The properties that have a binding. -/
def bound (ps : List PropertyDescriptor) : List PropertyDescriptor :=
  ps.filter fun p => p.binding.isSome

/-- The names of the properties that have a binding. -/
def boundNames (ps : List PropertyDescriptor) : List String := (bound ps).map (·.name)

/-- For each property, the bound properties that read it, in the order of declaration. A property that
reads another one twice is listed once. -/
def dependentsOf (ps : List PropertyDescriptor) : Dict String (List String) :=
  (bound ps).foldl (fun d p => p.reads.eraseDups.foldl (fun d q => d.append q p.name) d) []

/-- For each bound property, how many bound properties it reads. -/
def countsOf (ps : List PropertyDescriptor) : Dict String Nat :=
  (bound ps).foldl
    (fun d p => d.insert p.name (p.reads.eraseDups.filter (boundNames ps).contains).length) []

/-- Takes one from the count of each listed property; gives those that come down to zero. -/
def lower (counts : Dict String Nat) : List String → Dict String Nat × List String
  | [] => (counts, [])
  | q :: qs =>
    match counts.get? q with
    | none => lower counts qs
    | some n =>
      let (counts, ready) := lower (counts.insert q (n - 1)) qs
      (counts, if n - 1 = 0 then q :: ready else ready)

/-- Takes ready properties one after the other. -/
def take (dependents : Dict String (List String)) (fuel : Nat) (counts : Dict String Nat)
    (taken ready : List String) : Dict String Nat × List String :=
  match fuel, ready with
  | 0, _ => (counts, taken)
  | _, [] => (counts, taken)
  | fuel + 1, p :: rest =>
    let (counts, more) := lower counts ((dependents.get? p).getD [])
    take dependents fuel counts (taken ++ [p]) (rest ++ more)

/-- The graph of the bindings of some properties, unless one depends on itself. -/
def of (ps : List PropertyDescriptor) : Except Error Graph :=
  let dependents := dependentsOf ps
  let counts := countsOf ps
  let ready := (ps.map (·.name)).filter fun n => counts.get? n == some 0
  let (left, order) := take dependents (ps.length + 1) counts [] ready
  if order.length < counts.length then
    let stuck := ps.find? fun p => decide (0 < (left.get? p.name).getD 0)
    .error (.bindingCycle ((stuck.map (·.name)).getD ""))
  else .ok ⟨dependents, order⟩

/-- The bound properties that a write of `changed` reaches, in the order of the graph: those that
read it, or read one that is reached before them. -/
def downstream (readsOf : String → List String) (order : List String) (changed : String) :
    List String :=
  order.foldl
    (fun reached q => if (readsOf q).any fun r => r == changed || reached.contains r
      then reached ++ [q] else reached) []

/-- The properties of a list that have no binding take no part in the graph. -/
theorem bound_of_forall_none (ps : List PropertyDescriptor) (h : ∀ p ∈ ps, p.binding = none) :
    bound ps = [] := by
  simp only [bound, List.filter_eq_nil_iff]
  intro p hp
  simp [h p hp]

/-- What a write reaches is bound. -/
theorem mem_order_of_mem_downstream (readsOf : String → List String) (order : List String)
    (changed q : String) (h : q ∈ downstream readsOf order changed) : q ∈ order := by
  have aux : ∀ (order reached : List String),
      q ∈ order.foldl (fun reached q => if (readsOf q).any fun r => r == changed ||
        reached.contains r then reached ++ [q] else reached) reached → q ∈ reached ∨ q ∈ order := by
    intro order
    induction order with
    | nil => intro reached h; exact Or.inl h
    | cons x xs ih =>
      intro reached h
      simp only [List.foldl_cons] at h
      split at h
      · rcases ih _ h with h | h
        · rcases List.mem_append.1 h with h | h
          · exact Or.inl h
          · exact Or.inr (by simp_all)
        · exact Or.inr (List.mem_cons_of_mem _ h)
      · rcases ih _ h with h | h
        · exact Or.inl h
        · exact Or.inr (List.mem_cons_of_mem _ h)
  rcases aux order [] h with h | h
  · cases h
  · exact h

end Graph

end ReactiveView
