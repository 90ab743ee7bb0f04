import ReactiveView.Descriptor
import ReactiveView.Settings
import ReactiveView.World.Report

/-!
# Answers to a host

Every command of a host program is answered with plain data, in which labels stand for instances.
-/

set_option autoImplicit false

namespace ReactiveView.Host

/-- What a host is told of a class. -/
structure ClassSummary where
  name : String
  isAbstract : Bool
  parent : Option String
  properties : List String
  predefinedProperties : List (String × Shown)
  predefinedAttributes : List (String × Shown)
  hasConstructor : Bool
  rootTag : Option String
  /-- The names of the classes of its namespace, while that is in use. -/
  classNames : Option (List String)

/-- What a host is told of the place that holds an instance. -/
inductive HeldBy where
  | nothing
  | sequence
  | slot (property : String) (ownerAlive : Bool)
deriving DecidableEq, Repr

/-- What a host is told of a namespace. -/
structure NamespaceSummary where
  classes : List String
  objects : List String
  documents : Nat

/-- The answer to a command. -/
inductive Answer where
  | nothing
  | flag (b : Bool)
  | count (n : Nat)
  | maybeCount (n : Option Nat)
  | text (s : String)
  | maybeText (s : Option String)
  | texts (ss : List String)
  | maybeTexts (ss : Option (List String))
  | value (v : Shown)
  | values (vs : List Shown)
  | fields (d : List (String × Shown))
  | settings (s : Settings)
  | summary (s : NamespaceSummary) (loaded : Option Nat)
  | classSummary (s : ClassSummary)
  | descriptor (d : Descriptor)
  | made (className html : String)
  | queue (pending flushes : Nat) (hasDeadline : Bool)
  | classOf (name : String) (classNames : Option (List String))
  | state (attached : Bool) (heldBy : HeldBy) (inTree : Bool)
  | collection (size : Nat) (property element : String) (owner : Option String)

end ReactiveView.Host
