import ReactiveView.Proofs.Class.Compiled
import ReactiveView.Proofs.Template.Composition

/-!
# Lines of inheritance

The *line* of a class is its ancestors from the root on, and then the class itself. In a compiled table every class
has a line, and the constructors that have been gathered for it over the compilations of its ancestors are the own
constructors of the classes in its line, in the order of the line; classes without an own constructor add nothing
(`Compiled.exists_line`).
-/

set_option autoImplicit false

namespace ReactiveView

/-- A descriptor has the name, the parent and the constructor that it was read with. -/
theorem Template.heading_of_parse {r : Reading} {definition : Definition} {parent : Option (ClassRef × Descriptor)}
    {d : Descriptor} (h : parse r definition parent = .ok d) :
    d.name = definition.header.name ∧ d.isAbstract = definition.header.isAbstract ∧ d.parent = parent.map (·.1) ∧
      d.constructor = definition.constructor := by
  rw [parse_eq] at h
  simp only [bind, Except.bind, pure, Except.pure] at h
  split at h
  · cases h
  · split at h
    · cases h
    · split at h
      · cases h
      · obtain rfl := Except.ok.inj h
        exact ⟨rfl, rfl, rfl, rfl⟩

/-- What is compiled without a parent has its own constructor and no other. -/
theorem Class.constructors_compile_root {d : Descriptor} {ns : Option NamespaceId} {queue : QueueId}
    {factory : Option Host.Factory} {c : Class} (h : compile d none ns queue factory = .ok c) :
    c.constructors = d.constructor.toList := by
  unfold compile at h
  split at h
  · cases h
  · split at h
    · cases h
    · split at h
      · cases h
      · obtain rfl := Except.ok.inj h
        exact List.nil_append _

/-- The classes of an inheritance chain, from the root down to the class with an identity. -/
inductive Line (T : Table Class) : ClassId → List Class → Prop where
  | root {id : ClassId} {c : Class} (hc : T.get? id.index = some c) (hparent : c.descriptor.parent = none) :
      Line T id [c]
  | child {id : ClassId} {c : Class} {parent : ClassRef} {line : List Class} (hc : T.get? id.index = some c)
      (hparent : c.descriptor.parent = some parent) (hline : Line T parent.id line) : Line T id (line ++ [c])

/-- The own constructors of the classes of a line, in order. -/
def ownConstructors (line : List Class) : List Host.Script := line.filterMap fun c => c.descriptor.constructor

section Lines

variable {T : Table Class} {id : ClassId} {c : Class} {line : List Class}

/-- A class adds its own constructor to those above it, if it has one. -/
theorem ownConstructors_concat (line : List Class) (c : Class) :
    ownConstructors (line ++ [c]) = ownConstructors line ++ c.descriptor.constructor.toList := by
  unfold ownConstructors
  rw [List.filterMap_append]
  cases hown : c.descriptor.constructor with
  | none => simp [hown]
  | some own => simp [hown]

/-- A class has one line. -/
theorem Line.unique {line' : List Class} (h : Line T id line) (h' : Line T id line') : line = line' := by
  induction h generalizing line' with
  | root hc hparent =>
    cases h' with
    | root hc' hparent' =>
      rw [hc] at hc'
      rw [Option.some.inj hc']
    | child hc' hparent' hline' =>
      obtain rfl := Option.some.inj (hc.symm.trans hc')
      rw [hparent] at hparent'
      cases hparent'
  | child hc hparent hline ih =>
    cases h' with
    | root hc' hparent' =>
      obtain rfl := Option.some.inj (hc.symm.trans hc')
      rw [hparent] at hparent'
      cases hparent'
    | child hc' hparent' hline' =>
      obtain rfl := Option.some.inj (hc.symm.trans hc')
      obtain rfl := Option.some.inj (hparent.symm.trans hparent')
      rw [ih hline']

/-- Lines stay when a class is added to the table. -/
theorem Line.push (h : Line T id line) (added : Class) : Line (T.push added) id line := by
  have hkept {id : ClassId} {c : Class} (hc : T.get? id.index = some c) : (T.push added).get? id.index = some c := by
    rw [Table.get?_push_of_lt _ _ _ (Array.getElem?_eq_some_iff.1 hc).1, hc]
  induction h with
  | root hc hparent => exact .root (hkept hc) hparent
  | child hc hparent hline ih => exact .child (hkept hc) hparent ih

/-- In a compiled table every class has a line, and its chain of constructors holds those of the line. -/
theorem Compiled.exists_line (hT : Compiled T) (hc : T.get? id.index = some c) :
    ∃ line, Line T id line ∧ c.constructors = ownConstructors line := by
  induction hT generalizing id c with
  | empty => simp [Table.get?] at hc
  | @push T hT r definition parent hparent d hd ns queue factory added hadded ih =>
    rcases Table.get?_push_eq_some hc with rfl | hold
    · obtain ⟨rfl, -⟩ := Class.compile_spec hadded
      have hheading := (Template.heading_of_parse hd).2.2.1
      cases parent with
      | none =>
        refine ⟨[c], .root hc hheading, ?_⟩
        rw [Class.constructors_compile_root hadded]
        exact (ownConstructors_concat [] c).symm
      | some p =>
        obtain ⟨line, hline, hconstructors⟩ := ih (hparent p rfl)
        refine ⟨line ++ [c], .child hc hheading (hline.push c), ?_⟩
        rw [Class.constructors_compile _ _ _ _ _ _ _ hadded, hconstructors, ownConstructors_concat]
    · obtain ⟨line, hline, hconstructors⟩ := ih hold
      exact ⟨line, hline.push added, hconstructors⟩

theorem Compiled.constructors_of_line (hT : Compiled T) (hc : T.get? id.index = some c) (hline : Line T id line) :
    c.constructors = ownConstructors line := by
  obtain ⟨found, hfound, hconstructors⟩ := hT.exists_line hc
  rw [hconstructors, hfound.unique hline]

end Lines

end ReactiveView
