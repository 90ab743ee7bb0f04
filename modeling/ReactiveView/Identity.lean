/-!
# Identities

Everything that lives (nodes of trees, instances, collections, formatted attributes, write queues,
namespaces, compiled classes) is known by a number of its own kind. Two things are the same exactly
when their numbers are.
-/

set_option autoImplicit false

namespace ReactiveView

/-- A node of a live tree. -/
structure NodeId where
  index : Nat
deriving DecidableEq, Repr, Inhabited

/-- A live object made by a class. -/
structure InstanceId where
  index : Nat
deriving DecidableEq, Repr, Inhabited

/-- An ordered sequence of children of one instance. -/
structure CollectionId where
  index : Nat
deriving DecidableEq, Repr, Inhabited

/-- An attribute of a live element whose text is computed from a format. -/
structure BindingId where
  index : Nat
deriving DecidableEq, Repr, Inhabited

/-- A queue of deferred attribute writes. -/
structure QueueId where
  index : Nat
deriving DecidableEq, Repr, Inhabited

/-- A table of classes and objects. -/
structure NamespaceId where
  index : Nat
deriving DecidableEq, Repr, Inhabited

/-- A compiled class. -/
structure ClassId where
  index : Nat
deriving DecidableEq, Repr, Inhabited

end ReactiveView
