import ReactiveView.Template.View

/-!
# Reading class templates

The children of a class template are declarations, in any place, at most one root element, comments,
and blank text. `parse` takes the declarations first, so that substitutions can be checked against
them, then the root element, puts the resulting view into the parent's view at its extension point,
and settles the properties.

`compose` says how views are put together; `compose_without_parent` and `compose_without_own` are
its two simple cases.
-/

set_option autoImplicit false

namespace ReactiveView.Template

/-- The children of a class template, sorted. -/
structure Parts where
  root : Option Markup := none
  properties : List Markup := []
  attributes : List Markup := []

/-- Sorts the children of the template of a class. -/
def sortParts (className : String) (parts : Parts) : List Markup → Except Error Parts
  | [] => .ok parts
  | .text s :: rest =>
    if Text.allBlank s then sortParts className parts rest else .error (.textOutsideRoot className)
  | .comment _ :: rest => sortParts className parts rest
  | .element name attrs apart children :: rest =>
    let m := Markup.element name attrs apart children
    if name.tag = propertyTag then
      sortParts className { parts with properties := parts.properties ++ [m] } rest
    else if name.tag = attributeTag then
      sortParts className { parts with attributes := parts.attributes ++ [m] } rest
    else
      match parts.root with
      | some _ => .error (.secondRoot className)
      | none => sortParts className { parts with root := some m } rest

/-- Takes declarations in order. -/
def declareAll (declare : Draft → Markup → Except Error Draft) (d : Draft) :
    List Markup → Except Error Draft
  | [] => .ok d
  | m :: ms =>
    match declare d m with
    | .error e => .error e
    | .ok d => declareAll declare d ms

/-- The view of a root element, if there is one. -/
def readRoot (r : Reading) (d : Draft) : Option Markup → Except Error (Option ViewNode × Draft)
  | none => .ok (none, d)
  | some root => (readNode r d [] root).map fun (nodes, d) => (nodes.getLast?, d)

/-- Puts an own view into the parent's view; gives the view and its extension point. -/
def compose (parent : Option Descriptor) (own : Option ViewNode)
    (ownPoint : Option (List Nat)) : Except Error (Option ViewNode × Option (List Nat)) :=
  match parent.bind (·.view), own with
  | none, own => .ok (own, ownPoint)
  | some inherited, none => .ok (some inherited, parent.bind (·.extensionPoint))
  | some inherited, some own =>
    match parent.bind (·.extensionPoint) with
    | none => .error .parentNotExtensible
    | some place =>
      match ViewNode.replaceAt? own place inherited with
      | none => .error .extensionPointLost
      | some view => .ok (some view, ownPoint.map fun path => place ++ path)

/-- A class template with what the host supplies for it. -/
structure Definition where
  header : Header
  template : Markup
  methods : Dict String Host.Script := []
  constructor : Option Host.Script := none

/-- Reads a class template, given its parent's name and descriptor. -/
def parse (r : Reading) (definition : Definition) (parent : Option (ClassRef × Descriptor)) :
    Except Error Descriptor := do
  let header := definition.header
  let inherited := parent.map (·.2)
  let draft ← (Draft.ofParent inherited).addMethods definition.methods
  let parts ← sortParts header.name {} definition.template.contentChildren
  let draft ← declareAll declareAttribute draft parts.attributes
  let draft ← declareAll (declareProperty r.strict) draft parts.properties
  let (own, draft) ← readRoot r draft parts.root
  let (view, extensionPoint) ← compose inherited own draft.extensionPoint
  let draft ← checkProperties draft
  return {
    name := header.name
    isAbstract := header.isAbstract
    parent := parent.map (·.1)
    constructor := definition.constructor
    properties := draft.properties
    attributes := draft.attributes
    methods := draft.methods
    view := view
    extensionPoint := extensionPoint
    exposeKeys := draft.exposeKeys }

/-- A class without a parent has its own view. -/
theorem compose_without_parent (own : Option ViewNode) (point : Option (List Nat)) :
    compose none own point = .ok (own, point) := rfl

/-- A class without an own root has its parent's view. -/
theorem compose_without_own (parent : Descriptor) (v : ViewNode) (hv : parent.view = some v)
    (point : Option (List Nat)) :
    compose (some parent) none point = .ok (some v, parent.extensionPoint) := by
  simp [compose, hv]

end ReactiveView.Template
