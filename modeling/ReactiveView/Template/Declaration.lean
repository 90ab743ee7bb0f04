import ReactiveView.Descriptor
import ReactiveView.Json.Reader
import ReactiveView.Template.Header
import ReactiveView.Template.Pieces

/-!
# Declarations of properties and attributes

While a template is read, a `Draft` holds what is known of the class so far: it starts with what the
parent has and grows with every declaration and every substitution. `declareAttribute` and
`declareProperty` take the declaration elements of the template, `checkProperties` settles defaults
and checks bindings once every place of every property is known.

A declaration of an inherited property changes only what it mentions.

Stated: the draft of a class without parent is empty (`Draft.ofParent_none`), and settling keeps the
number of properties (`length_checkEach`).
-/

set_option autoImplicit false

namespace ReactiveView.Template

/-- What is known of a class while its template is read. -/
structure Draft where
  properties : List PropertyDescriptor
  attributes : List AttributeDescriptor
  methods : Dict String Host.Script
  /-- The properties whose default is written in the template. -/
  ownDefaults : List String := []
  /-- The properties declared in the template. -/
  ownDeclarations : List String := []
  exposeKeys : List String
  extensionPoint : Option (List Nat) := none

namespace Draft

/-- The draft of a class with a parent or without one. -/
def ofParent : Option Descriptor → Draft
  | some d =>
    { properties := d.properties, attributes := d.attributes, methods := d.methods
      exposeKeys := d.exposeKeys }
  | none => { properties := [], attributes := [], methods := [], exposeKeys := [] }

/-- The property with a name. -/
def property? (d : Draft) (name : String) : Option PropertyDescriptor :=
  d.properties.find? fun p => p.name == name

/-- The attribute with a name. -/
def attribute? (d : Draft) (name : String) : Option AttributeDescriptor :=
  d.attributes.find? fun a => a.name == name

/-- Puts a property in the place of the one with its name. -/
def setProperty (d : Draft) (p : PropertyDescriptor) : Draft :=
  { d with properties := d.properties.map fun q => if q.name == p.name then p else q }

/-- Adds a property. -/
def addProperty (d : Draft) (p : PropertyDescriptor) : Draft :=
  { d with properties := d.properties ++ [p] }

/-- Whether a name is that of a method. -/
def isMethod (d : Draft) (name : String) : Bool := d.methods.contains name

/-- Adds methods; a reserved name is refused. -/
def addMethods (d : Draft) : List (String × Host.Script) → Except Error Draft
  | [] => .ok d
  | (name, script) :: rest =>
    if reservedNames.contains name then .error (.reservedMethod name)
    else addMethods { d with methods := d.methods.insert name script } rest

end Draft

/-! ## Parts of declarations -/

/-- The default that a declaration writes as data text. -/
def writtenDefault (decl : Markup) : Except Error (Option Value) :=
  let text := Text.trimmed decl.textContent
  if text.isEmpty then .ok none
  else
    match Json.parse? text with
    | some j => .ok (some (Value.ofJson j))
    | none => .error (.badDefault text)

/-- The types that a declaration names. -/
def writtenTypes (decl : Markup) : Except Error (Option (List PrimitiveType)) :=
  match decl.attr? "type" with
  | none => .ok none
  | some declaration => (parseTypes declaration).map some

/-- Whether a value can be the default of something primitive. -/
def checkDefault (name : String) (v : Value) (types : Option (List PrimitiveType)) :
    Except Error Unit :=
  if !v.isPrimitive then .error (.defaultNotPrimitive name)
  else
    match types with
    | some ts => if acceptsValue ts v then .ok () else .error (.defaultMismatch name)
    | none => .ok ()

/-- The format of a binding, from its pieces. -/
def bindingOfPieces (name : String) (f : Format) : List Piece → Except Error Format
  | [] => .ok f
  | .plain s :: rest => bindingOfPieces name (f.addText (String.ofList s)) rest
  | .ofText code :: rest =>
    match textSubstitution? code with
    | none => .error (.badSubstitution (String.ofList code))
    | some (none, .property p) => bindingOfPieces name (f.addHole (.property p)) rest
    | some _ => .error (.bindingReference name)
  | .ofElement _ :: rest => bindingOfPieces name f rest
  | .fault e :: _ => .error e

/-- Reads the source of a dynamic binding, which must read at least one property. -/
def parseBinding (name source : String) : Except Error Format :=
  match bindingOfPieces name {} (valuePieces (.bindingUnterminated name) source.toList) with
  | .error e => .error e
  | .ok f => if f.properties.isEmpty then .error (.bindingWithoutReference name) else .ok f

/-- The binding that a declaration writes. -/
def writtenBinding (name : String) (decl : Markup) : Except Error (Option Format) :=
  match decl.attr? "binding" with
  | none => .ok none
  | some source => (parseBinding name source).map some

/-! ## Declarations -/

/-- Takes the declaration of an attribute. -/
def declareAttribute (d : Draft) (decl : Markup) : Except Error Draft := do
  let some name := decl.attr? "name" | .error .attributeWithoutName
  if !isAttributeName name then .error (.badAttributeName name)
  else if (d.attribute? name).isSome then .error (.attributeDeclared name)
  else
    let types ← writtenTypes decl
    match ← writtenDefault decl with
    | some v =>
      checkDefault name v types
      return { d with attributes := d.attributes ++ [⟨name, types, v⟩] }
    | none => return { d with attributes := d.attributes ++ [⟨name, types, defaultFor types⟩] }

/-- An inherited property with what a declaration mentions put over it. -/
def overridden (p : PropertyDescriptor) (types : Option (List PrimitiveType))
    (default : Option Value) (binding : Option Format) (passthrough : Option String) :
    PropertyDescriptor :=
  { p with
    kind := if types.isSome then .primitive types else p.kind
    default := default.getD p.default
    binding := if binding.isSome then binding else p.binding
    passthrough := if passthrough.isSome then passthrough else p.passthrough }

/-- Takes the declaration of a property. -/
def declareProperty (strict : Bool) (d : Draft) (decl : Markup) : Except Error Draft := do
  let some name := decl.attr? "name" | .error .propertyWithoutName
  if !isPropertyName strict name then .error (.badPropertyName name)
  else if d.ownDeclarations.contains name then .error (.propertyDeclared name)
  else if d.isMethod name then .error (.nameIsMethod name)
  else
    let types ← writtenTypes decl
    let default ← writtenDefault decl
    let passthrough := decl.attr? "passthrough"
    if passthrough == some "" then .error (.emptyPassthrough name)
    else
      let binding ← writtenBinding name decl
      let d ←
        match d.property? name with
        | some p =>
          if p.kind.isPrimitive then
            .ok (d.setProperty (overridden p types default binding passthrough))
          else .error (.inheritedElement name)
        | none =>
          let p := PropertyDescriptor.ofTypes name types
          .ok (d.addProperty
            { p with default := default.getD p.default, binding, passthrough })
      return { d with
        ownDefaults := if default.isSome then name :: d.ownDefaults else d.ownDefaults
        ownDeclarations := name :: d.ownDeclarations }

/-! ## Settling the properties -/

/-- Settles the default of a property and checks it against its kind. -/
def settleDefault (d : Draft) (p : PropertyDescriptor) : Except Error PropertyDescriptor :=
  match p.kind with
  | .primitive types =>
    if p.passthrough.isSome then .error (.passthroughOnPrimitive p.name)
    else if d.ownDefaults.contains p.name then
      (checkDefault p.name p.default types).map fun _ => p
    else if d.ownDeclarations.contains p.name || !p.default.isPrimitive then
      .ok { p with default := defaultFor types }
    else
      match types with
      | some ts =>
        if acceptsValue ts p.default then .ok p else .ok { p with default := defaultFor types }
      | none => .ok p
  | .slot _ =>
    match p.default with
    | .null | .object _ =>
      if p.binding.isSome then .error (.elementBinding p.name) else .ok p
    | _ => .error (.elementDefault p.name)
  | .sequence _ =>
    let checked : Except Error PropertyDescriptor :=
      match p.default with
      | .null => .ok { p with default := .array [] }
      | .array items =>
        if items.all fun v => match v with | .object _ => true | _ => false then .ok p
        else .error (.arrayDefaultItems p.name)
      | _ => .error (.arrayDefault p.name)
    match checked with
    | .error e => .error e
    | .ok p =>
      if p.binding.isSome || p.passthrough.isSome then .error (.arrayExtras p.name) else .ok p

/-- Checks what a binding reads, name by name. -/
def checkReads (ps : List PropertyDescriptor) (name : String) : List String → Except Error Unit
  | [] => .ok ()
  | dependency :: rest =>
    if dependency = name then .error (.boundToItself name)
    else
      match ps.find? fun p => p.name == dependency with
      | none => .error (.boundToUnknown name dependency)
      | some p =>
        if p.kind.isPrimitive then checkReads ps name rest
        else .error (.boundToElement name dependency)

/-- Checks the binding of a property, if it has one. -/
def checkBinding (ps : List PropertyDescriptor) (p : PropertyDescriptor) : Except Error Unit :=
  match p.binding with
  | none => .ok ()
  | some f =>
    let acceptsText :=
      match p.kind.types? with
      | some ts => ts.contains .text
      | none => true
    if acceptsText then checkReads ps p.name f.properties else .error (.boundWithoutText p.name)

/-- Settles and checks one property. -/
def checkProperty (d : Draft) (p : PropertyDescriptor) : Except Error PropertyDescriptor :=
  if d.isMethod p.name then .error (.propertyIsMethod p.name)
  else
    match settleDefault d p with
    | .error e => .error e
    | .ok p =>
      match checkBinding d.properties p with
      | .error e => .error e
      | .ok () => .ok p

/-- Settles and checks properties in order. -/
def checkEach (d : Draft) : List PropertyDescriptor → Except Error (List PropertyDescriptor)
  | [] => .ok []
  | p :: ps =>
    match checkProperty d p with
    | .error e => .error e
    | .ok p =>
      match checkEach d ps with
      | .error e => .error e
      | .ok ps => .ok (p :: ps)

/-- Settles the defaults and checks the bindings of a draft whose view has been read. -/
def checkProperties (d : Draft) : Except Error Draft :=
  match checkEach d d.properties with
  | .error e => .error e
  | .ok ps => .ok { d with properties := ps }

/-! ## Laws -/

/-- Without a parent nothing is there at first. -/
theorem Draft.ofParent_none : (Draft.ofParent none).properties = [] := rfl

/-- Settling keeps the number of properties. -/
theorem length_checkEach (d : Draft) (ps qs : List PropertyDescriptor)
    (h : checkEach d ps = .ok qs) : qs.length = ps.length := by
  induction ps generalizing qs with
  | nil => cases h; rfl
  | cons p ps ih =>
    unfold checkEach at h
    split at h
    · cases h
    · split at h
      · cases h
      · next hq => cases h; simp [ih _ hq]

end ReactiveView.Template
