import ReactiveView.Class.Graph
import ReactiveView.Table
import ReactiveView.Template.Parse

/-!
# Compiled classes

Compiling a descriptor resolves what is inherited: the chain of constructors, outermost ancestor
first, the classes it descends from, and the graph of its dynamic bindings. A concrete class must
have a view, and only an abstract class may have a factory.

`compileInOrder` compiles a list of templates one after the other, each with those before it to
refer to.

`constructors_compile` states how the chain of constructors grows.
-/

set_option autoImplicit false

namespace ReactiveView

/-- A compiled class. -/
structure Class where
  descriptor : Descriptor
  /-- The supplied constructors of the class and its ancestors, outermost ancestor first. -/
  constructors : List Host.Script
  /-- The classes it descends from, closest first. -/
  ancestors : List ClassId
  graph : Graph
  /-- The namespace it was compiled in. -/
  ns : Option NamespaceId
  /-- The queue of its deferred writes. -/
  queue : QueueId
  factory : Option Host.Factory

namespace Class

/-- The name of a class. -/
def name (c : Class) : String := c.descriptor.name

/-- Compiles a descriptor. -/
def compile (d : Descriptor) (parent : Option (ClassId × Class)) (ns : Option NamespaceId)
    (queue : QueueId) (factory : Option Host.Factory) : Except Error Class :=
  if !d.isAbstract && d.view.isNone then .error (.noView d.name)
  else if !d.isAbstract && factory.isSome then .error (.factoryOnConcrete d.name)
  else
    match Graph.of d.properties with
    | .error e => .error e
    | .ok graph =>
      let inherited := (parent.map fun p => p.2.constructors).getD []
      .ok {
        descriptor := d
        constructors := inherited ++ d.constructor.toList
        ancestors :=
          match parent with
          | some (id, p) => id :: p.ancestors
          | none => []
        graph := graph, ns := ns, queue := queue, factory := factory }

/-- The properties that a property reads, by name. -/
def readsOf (c : Class) (name : String) : List String :=
  match c.descriptor.property? name with
  | some p => p.reads
  | none => []

/-- The bound properties that a write of a property reaches, each after what it reads. -/
def affected (c : Class) (changed : String) : List String :=
  Graph.downstream c.readsOf c.graph.order changed

/-- The chain of constructors is the parent's chain and then the own constructor. -/
theorem constructors_compile (d : Descriptor) (id : ClassId) (p c : Class)
    (ns : Option NamespaceId) (queue : QueueId) (factory : Option Host.Factory)
    (h : compile d (some (id, p)) ns queue factory = .ok c) :
    c.constructors = p.constructors ++ d.constructor.toList := by
  unfold compile at h
  (repeat' split at h) <;> first | cases h; rfl | cases h

/-! ## Compiling templates in order -/

/-- Classes compiled so far: their table and the latest of each name. -/
structure Shelf where
  classes : Table Class := {}
  names : Dict String ClassRef := []

/-- Reads and compiles one template with the classes of a shelf to refer to. -/
def Shelf.add (s : Shelf) (strict : Bool) (methods : Dict String (List String))
    (template : Markup) : Except Error (Descriptor × Shelf) := do
  let header ← Template.readHeader template
  let parent ←
    match header.parent with
    | none => pure none
    | some name =>
      match s.names.get? name with
      | none => .error (.unknownClass name)
      | some ref => pure ((s.classes.get? ref.id.index).map fun c => (ref, c))
  let own := Dict.ofList (((methods.get? header.name).getD []).map fun m => (m, ([] : Host.Script)))
  let d ← Template.parse ⟨s.names.get?, strict⟩ { header, template, methods := own }
    (parent.map fun p => (p.1, p.2.descriptor))
  let c ← compile d (parent.map fun p => (p.1.id, p.2)) none ⟨0⟩ none
  return (d, ⟨s.classes.push c, s.names.insert d.name ⟨⟨s.classes.size⟩, d.name⟩⟩)

/-- The descriptors of templates compiled in order, up to the first error. -/
def compileInOrder (strict : Bool) (methods : Dict String (List String)) (s : Shelf) :
    List Markup → List (Except Error Descriptor)
  | [] => []
  | template :: rest =>
    match s.add strict methods template with
    | .error e => [.error e]
    | .ok (d, s) => .ok d :: compileInOrder strict methods s rest

end Class

end ReactiveView
