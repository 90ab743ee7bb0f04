import ReactiveView.Template.Declaration
import ReactiveView.Text.Lowercase

/-!
# Reading the view of a class

The root element of a template is walked once, in document order, and turned into the shape of a
view. Texts are cut into plain texts, text substitutions and markers; attributes are kept, read as
formats, or read as handlers or expose keys, by their names. Every substitution registers its
property or is checked against what is known of it: a text substitution needs a declared attribute
or a primitive property, whose types it may declare once; an element substitution is the only place
of its property.

The walk threads the draft of the class, and stops at the first error. `registerAttribute_undeclared`
states the condition under which an attribute substitution is refused.
-/

set_option autoImplicit false

namespace ReactiveView.Template

/-- Finds the class a template refers to. -/
abbrev Resolver := String → Option ClassRef

/-- The setting in which a template is read. -/
structure Reading where
  resolve : Resolver
  strict : Bool

/-- The tag of the place where the view of a subclass is put in. -/
def extensionPointTag : String := "ooml-extension-point"

/-- The tag of the declaration of a property. -/
def propertyTag : String := "ooml-property"

/-- The tag of the declaration of an attribute. -/
def attributeTag : String := "ooml-attribute"

/-! ## Substitutions -/

/-- The declared types of a substitution. -/
def declaredTypes : Option String → Except Error (Option (List PrimitiveType))
  | none => .ok none
  | some declaration => (parseTypes declaration).map some

/-- Takes a substitution of an attribute. -/
def registerAttribute (d : Draft) (declared : Option String) (name : String) :
    Except Error Draft :=
  if !isAttributeName name then .error (.badAttributeName name)
  else
    match d.attribute? name with
    | none => .error (.attributeNotDeclared name)
    | some a =>
      match declaredTypes declared with
      | .error e => .error e
      | .ok none => .ok d
      | .ok (some ts) =>
        match a.types with
        | some known => if sameTypes known ts then .ok d else .error (.attributeTypesDiffer name)
        | none => .error (.attributeTypesDiffer name)

/-- Takes a substitution of a primitive property. -/
def registerPrimitive (r : Reading) (d : Draft) (declared : Option String) (name : String) :
    Except Error Draft :=
  if !isPropertyName r.strict name then .error (.badPropertyName name)
  else if d.isMethod name then .error (.nameIsMethod name)
  else
    match declaredTypes declared with
    | .error e => .error e
    | .ok types =>
      match d.property? name with
      | none => .ok (d.addProperty { PropertyDescriptor.ofTypes name types with hasSite := true })
      | some p =>
        match p.kind with
        | .primitive known =>
          match known, types with
          | some ks, some ts =>
            if sameTypes ks ts then .ok (d.setProperty { p with hasSite := true })
            else .error (.typesDiffer name)
          | none, some ts =>
            .ok (d.setProperty { p with kind := .primitive (some ts), hasSite := true })
          | _, none => .ok (d.setProperty { p with hasSite := true })
        | _ => .error (.usedAsElement name)

/-- Takes the inside of a text substitution; gives its source. -/
def registerText (r : Reading) (d : Draft) (code : List Char) : Except Error (Source × Draft) :=
  match textSubstitution? code with
  | none => .error (.badSubstitution (String.ofList code))
  | some (declared, .attr name) =>
    (registerAttribute d declared name).map fun d => (.attr name, d)
  | some (declared, .property name) =>
    (registerPrimitive r d declared name).map fun d => (.property name, d)

/-- The element type that a class name stands for. -/
def elementType (r : Reading) (className : String) : Except Error ElementType :=
  if isAnyElement className then .ok .any
  else
    match r.resolve className with
    | some c => .ok (.ofClass c)
    | none => .error (.unknownClass className)

/-- Takes the inside of an element substitution; gives its property. -/
def registerElement (r : Reading) (d : Draft) (code : List Char) : Except Error (String × Draft) :=
  match elementSubstitution? code with
  | none => .error (.badElementSubstitution (String.ofList code))
  | some phrase =>
    let name := phrase.property
    if !isPropertyName r.strict name then .error (.badPropertyName name)
    else if d.isMethod name then .error (.nameIsMethod name)
    else
      match elementType r phrase.className with
      | .error e => .error e
      | .ok element =>
        let kind := if phrase.isArray then PropertyKind.sequence element else .slot element
        match d.property? name with
        | none =>
          .ok (name, d.addProperty { name := name, kind := kind, default := .null, hasSite := true })
        | some p =>
          if p.hasSite then .error (.elementDefined name)
          else if p.kind.types?.isSome then .error (.primitiveDeclared name)
          else .ok (name, d.setProperty { p with kind := kind, hasSite := true })

/-! ## Texts and values -/

/-- The nodes of the pieces of a text. -/
def nodesOfPieces (r : Reading) (d : Draft) : List Piece → Except Error (List ViewNode × Draft)
  | [] => .ok ([], d)
  | .plain s :: rest =>
    (nodesOfPieces r d rest).map fun (nodes, d) => (.text (String.ofList s) none :: nodes, d)
  | .ofText code :: rest =>
    match registerText r d code with
    | .error e => .error e
    | .ok (source, d) =>
      (nodesOfPieces r d rest).map fun (nodes, d) => (.text "" (some source) :: nodes, d)
  | .ofElement code :: rest =>
    match registerElement r d code with
    | .error e => .error e
    | .ok (name, d) =>
      (nodesOfPieces r d rest).map fun (nodes, d) => (.marker "" (some name) :: nodes, d)
  | .fault e :: _ => .error e

/-- The nodes of a text. -/
def readText (r : Reading) (d : Draft) (s : String) : Except Error (List ViewNode × Draft) :=
  nodesOfPieces r d (textPieces s.toList)

/-- The format of the pieces of a value. -/
def formatOfPieces (r : Reading) (d : Draft) (f : Format) :
    List Piece → Except Error (Format × Draft)
  | [] => .ok (f, d)
  | .plain s :: rest => formatOfPieces r d (f.addText (String.ofList s)) rest
  | .ofText code :: rest =>
    match registerText r d code with
    | .error e => .error e
    | .ok (source, d) => formatOfPieces r d (f.addHole source) rest
  | .ofElement _ :: rest => formatOfPieces r d f rest
  | .fault e :: _ => .error e

/-- The format of a value with holes. -/
def readFormat (r : Reading) (d : Draft) (value : String) : Except Error (Format × Draft) :=
  formatOfPieces r d {} (valuePieces .bracesNotClosed value.toList)

/-! ## Attributes of elements -/

/-- What follows a lead in a name. -/
def afterLead? (lead : String) (name : String) : Option String :=
  if lead.toList.isPrefixOf name.toList then some (String.ofList (name.toList.drop lead.length))
  else none

/-- The handler that an attribute writes for an event. -/
def readHandler (d : Draft) (attrName event body : String) : Except Error Handler :=
  if event.isEmpty then .error (.handlerWithoutEvent attrName)
  else Handler.compile d.isMethod body

/-- Takes one attribute of an element, `name` being its name in lower case. -/
def readAttribute (r : Reading) (d : Draft) (shape : ElementShape) (a : Attr) (name : String) :
    Except Error (ElementShape × Draft) := do
  match afterLead? "childon" name with
  | some event =>
    let handler ← readHandler d name event a.value
    if shape.childHandlers.contains event then .error (.childHandlerRepeated event)
    else return ({ shape with childHandlers := shape.childHandlers.insert event handler }, d)
  | none =>
    match afterLead? "domon" name with
    | some event =>
      let handler ← readHandler d name event a.value
      if shape.domHandlers.contains event then .error (.domHandlerRepeated event)
      else return ({ shape with domHandlers := shape.domHandlers.insert event handler }, d)
    | none =>
      if (afterLead? "on" name).isSome then .error (.nativeHandler name)
      else if name = "ooml-expose" then
        let key := Text.trimmed a.value
        if !isExposeKey key then .error (.badExposeKey key)
        else if d.exposeKeys.contains key then .error (.exposeKeyTaken key)
        else
          return ({ shape with exposeKey := some key },
            { d with exposeKeys := d.exposeKeys ++ [key] })
      else
        let target := if name = "ooml-style" then QName.plain "style" else a.name
        if hasHoles a.value.toList then
          let (format, d) ← readFormat r d a.value
          return ({ shape with attrs := shape.attrs ++ [⟨target, a.value, some format⟩] }, d)
        else return ({ shape with attrs := shape.attrs ++ [⟨target, a.value, none⟩] }, d)

/-- Takes the attributes of an element in order; `seen` are the names so far, in lower case. -/
def readAttributes (r : Reading) (d : Draft) (shape : ElementShape) (seen : List String) :
    List Attr → Except Error (ElementShape × Draft)
  | [] => .ok (shape, d)
  | a :: rest =>
    let name := Text.lowercase a.name.tag
    if seen.contains name then .error (.repeatedAttribute name)
    else
      match readAttribute r d shape a name with
      | .error e => .error e
      | .ok (shape, d) => readAttributes r d shape (name :: seen) rest

/-! ## Nodes -/

mutual

/-- The nodes of a tree that stands at `path`. -/
def readNode (r : Reading) (d : Draft) (path : List Nat) :
    Markup → Except Error (List ViewNode × Draft)
  | .text s => readText r d s
  | .comment s => .ok ([.marker s none], d)
  | .element name attrs apart children =>
    if name.tag = extensionPointTag then
      if d.extensionPoint.isSome then .error .secondExtensionPoint
      else .ok ([.extensionPoint], { d with extensionPoint := some path })
    else if name.tag = propertyTag ∨ name.tag = attributeTag then
      .error (.misplacedDeclaration name.tag)
    else
      match readAttributes r d { name := name } [] attrs with
      | .error e => .error e
      | .ok (shape, d) =>
        if apart then .ok ([.element shape []], d)
        else
          match readNodes r d path [] children with
          | .error e => .error e
          | .ok (nodes, d) => .ok ([.element shape nodes], d)

/-- The nodes of the children of an element that stands at `path`, after the nodes `read`. -/
def readNodes (r : Reading) (d : Draft) (path : List Nat) (read : List ViewNode) :
    List Markup → Except Error (List ViewNode × Draft)
  | [] => .ok (read, d)
  | m :: ms =>
    match readNode r d (path ++ [read.length]) m with
    | .error e => .error e
    | .ok (nodes, d) => readNodes r d path (read ++ nodes) ms

end

/-- A substitution of an attribute that is not declared is refused. -/
theorem registerAttribute_undeclared (d : Draft) (declared : Option String) (name : String)
    (hn : isAttributeName name = true) (hd : d.attribute? name = none) :
    registerAttribute d declared name = .error (.attributeNotDeclared name) := by
  simp [registerAttribute, hn, hd]

end ReactiveView.Template
