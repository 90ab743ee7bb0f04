import ReactiveView.Format
import ReactiveView.Handler
import ReactiveView.Host.Script
import ReactiveView.Markup.Basic
import ReactiveView.Types

/-!
# Class descriptors

A descriptor is what a class template says, once read: the properties and attributes of the class,
its methods, and the shape of its view. Inherited parts come first. A descriptor is never changed
after it has been read.

The view is a tree of shapes. A text shape renders a source or stands for itself; a marker is a
comment, and a marker with a property is the place where the children in that property stand; an
extension point is the place where the view of a subclass is put in. `ViewNode.replaceAt?` puts a
view at a place, and `ViewNode.at?` looks at one.

`at?_nil` and `replaceAt?_nil` fix what the empty path means.
-/

set_option autoImplicit false

namespace ReactiveView

/-- A compiled class and its name. -/
structure ClassRef where
  id : ClassId
  name : String
deriving DecidableEq, Repr

/-- The instances that an element or array property accepts. -/
inductive ElementType where
  | any
  | ofClass (c : ClassRef)
deriving DecidableEq, Repr

/-- The name of an element type. -/
def ElementType.name : ElementType → String
  | any => "Element"
  | ofClass c => c.name

/-- What a property holds. -/
inductive PropertyKind where
  /-- A primitive value, of the declared types if there are any. -/
  | primitive (types : Option (List PrimitiveType))
  /-- One instance or null. -/
  | slot (element : ElementType)
  /-- A collection of instances. -/
  | sequence (element : ElementType)

namespace PropertyKind

/-- Whether a property holds primitive values. -/
def isPrimitive : PropertyKind → Bool
  | primitive _ => true
  | _ => false

/-- The declared types of a primitive property. -/
def types? : PropertyKind → Option (List PrimitiveType)
  | primitive types => types
  | _ => none

end PropertyKind

/-- A property of a class. -/
structure PropertyDescriptor where
  name : String
  kind : PropertyKind
  /-- What an instance holds when nothing is supplied. -/
  default : Value
  /-- The format that computes the property from others. -/
  binding : Option Format := none
  /-- The key under which a supplied value is put into the default object. -/
  passthrough : Option String := none
  /-- Whether the view has a place for the property. -/
  hasSite : Bool := false

/-- The properties that a bound property reads. -/
def PropertyDescriptor.reads (p : PropertyDescriptor) : List String :=
  match p.binding with
  | some f => f.properties
  | none => []

/-- A primitive property without anything declared but its types. -/
def PropertyDescriptor.ofTypes (name : String) (types : Option (List PrimitiveType)) :
    PropertyDescriptor :=
  { name := name, kind := .primitive types, default := defaultFor types }

/-- An attribute of a class. -/
structure AttributeDescriptor where
  name : String
  types : Option (List PrimitiveType)
  default : Value

/-- An attribute of an element of the view: as written, and as a format if it has holes. -/
structure AttributeShape where
  name : QName
  value : String
  format : Option Format

/-- An element of the view, its children apart. -/
structure ElementShape where
  name : QName
  attrs : List AttributeShape := []
  domHandlers : Dict String Handler := []
  childHandlers : Dict String Handler := []
  exposeKey : Option String := none

/-- The shape of a view. -/
inductive ViewNode where
  | element (shape : ElementShape) (children : List ViewNode)
  | text (value : String) (source : Option Source)
  | marker (value : String) (property : Option String)
  | extensionPoint

namespace ViewNode

/-- The tag of an element. -/
def tag? : ViewNode → Option String
  | element shape _ => some shape.name.tag
  | _ => none

/-- The children of an element. -/
def children : ViewNode → List ViewNode
  | element _ children => children
  | _ => []

/-- The node that a path of child positions leads to. -/
def at? : List Nat → ViewNode → Option ViewNode
  | [], v => some v
  | i :: rest, v =>
    match v.children[i]? with
    | some child => at? rest child
    | none => none

/-- The view with another node in the place that a path leads to. -/
def replaceAt? (new : ViewNode) : List Nat → ViewNode → Option ViewNode
  | [], _ => some new
  | i :: rest, v =>
    match v with
    | element shape children =>
      match children[i]? with
      | some child =>
        match replaceAt? new rest child with
        | some child => some (element shape (children.set i child))
        | none => none
      | none => none
    | _ => none

/-- The empty path leads to the view itself. -/
@[simp] theorem at?_nil (v : ViewNode) : at? [] v = some v := rfl

/-- A node put at the empty path takes the place of the whole view. -/
@[simp] theorem replaceAt?_nil (new v : ViewNode) : replaceAt? new [] v = some new := rfl

/-- A node put at a path is found there. -/
theorem at?_of_replaceAt? (new : ViewNode) (path : List Nat) (v w : ViewNode)
    (h : replaceAt? new path v = some w) : at? path w = some new := by
  induction path generalizing v w with
  | nil => simp at h; subst h; rfl
  | cons i rest ih =>
    unfold replaceAt? at h
    split at h
    · next shape children =>
      split at h
      · next child hc =>
        split at h
        · next child' hr =>
          cases h
          have hi : i < children.length := by
            rcases Nat.lt_or_ge i children.length with hlt | hge
            · exact hlt
            · rw [List.getElem?_eq_none hge] at hc; cases hc
          unfold at?
          simp only [ViewNode.children, List.getElem?_set_self hi]
          exact ih child child' hr
        · cases h
      · cases h
    · cases h

end ViewNode

/-- A class template, once read. -/
structure Descriptor where
  name : String
  isAbstract : Bool
  parent : Option ClassRef
  /-- The constructor supplied for this class alone. -/
  constructor : Option Host.Script
  properties : List PropertyDescriptor
  attributes : List AttributeDescriptor
  /-- The methods of the class and of those it inherits from. -/
  methods : Dict String Host.Script
  view : Option ViewNode
  /-- Where the view of a subclass is put in. -/
  extensionPoint : Option (List Nat)
  exposeKeys : List String

namespace Descriptor

/-- The property with a name. -/
def property? (d : Descriptor) (name : String) : Option PropertyDescriptor :=
  d.properties.find? fun p => p.name == name

/-- The position of a property. -/
def propertyIndex? (d : Descriptor) (name : String) : Option Nat :=
  d.properties.findIdx? fun p => p.name == name

/-- The position of an attribute. -/
def attributeIndex? (d : Descriptor) (name : String) : Option Nat :=
  d.attributes.findIdx? fun a => a.name == name

/-- The names of the properties, inherited ones first. -/
def propertyNames (d : Descriptor) : List String := d.properties.map (·.name)

/-- The tag of the outermost element of the view. -/
def rootTag? (d : Descriptor) : Option String := d.view.bind ViewNode.tag?

/-- The defaults of the properties by name. -/
def predefinedProperties (d : Descriptor) : Dict String Value :=
  Dict.ofList (d.properties.map fun p => (p.name, p.default))

/-- The defaults of the attributes by name. -/
def predefinedAttributes (d : Descriptor) : Dict String Value :=
  Dict.ofList (d.attributes.map fun a => (a.name, a.default))

end Descriptor

end ReactiveView
