/-!
# Errors

An error is named by its cause. Each cause belongs to one of six kinds (`Error.kind`) and has one
wording (`Error.message`); `Error.display` puts the kind in front. Causes of the kind `syntaxKind`
arise when templates are read, those of the kinds `typeKind`, `referenceKind` and `rangeKind` where
a value or a name is used, `logicKind` marks an inner condition that does not hold, and `ioKind` a
file that cannot be read.

`display_raised_type` states how an error raised by host code is displayed.
-/

set_option autoImplicit false

namespace ReactiveView

/-- The kinds of errors. -/
inductive ErrorKind where
  | syntaxKind
  | typeKind
  | referenceKind
  | rangeKind
  | logicKind
  | ioKind
deriving DecidableEq, Repr

/-- The causes of errors. -/
inductive Error where
  -- type declarations and settings
  | unknownType (word : String)
  | repeatedType (word : String)
  | secondNumericType (word : String)
  | settingsNotObject
  | unknownSetting
  | badSetting
  -- edits of live trees
  | anchorOutsideTree
  | anchorNotListed
  | referenceOutsideTree
  | referenceNotListed
  -- class headers
  | concreteAndAbstract
  | notClassTemplate
  | badClassHeader (declaration : String)
  | reservedClassName (name : String)
  | unknownClass (name : String)
  -- declarations in templates
  | reservedMethod (name : String)
  | secondRoot (className : String)
  | textOutsideRoot (className : String)
  | attributeWithoutName
  | badAttributeName (name : String)
  | attributeDeclared (name : String)
  | propertyWithoutName
  | badPropertyName (name : String)
  | propertyDeclared (name : String)
  | nameIsMethod (name : String)
  | emptyPassthrough (name : String)
  | inheritedElement (name : String)
  | badDefault (text : String)
  | defaultNotPrimitive (name : String)
  | defaultMismatch (name : String)
  | bindingUnterminated (name : String)
  | bindingReference (name : String)
  | bindingWithoutReference (name : String)
  -- views of templates
  | secondExtensionPoint
  | misplacedDeclaration (tag : String)
  | repeatedAttribute (name : String)
  | handlerWithoutEvent (attr : String)
  | childHandlerRepeated (event : String)
  | domHandlerRepeated (event : String)
  | nativeHandler (attr : String)
  | badExposeKey (key : String)
  | exposeKeyTaken (key : String)
  | braceNotClosed
  | bracesNotClosed
  | badSubstitution (code : String)
  | badElementSubstitution (code : String)
  | attributeNotDeclared (name : String)
  | attributeTypesDiffer (name : String)
  | usedAsElement (name : String)
  | typesDiffer (name : String)
  | elementDefined (name : String)
  | primitiveDeclared (name : String)
  | unknownHandlerMethod (body : String) (method : String)
  | badHandlerStatement (statement : String)
  | emptyHandler
  -- finished descriptors
  | propertyIsMethod (name : String)
  | passthroughOnPrimitive (name : String)
  | elementDefault (name : String)
  | elementBinding (name : String)
  | arrayDefaultItems (name : String)
  | arrayDefault (name : String)
  | arrayExtras (name : String)
  | boundWithoutText (name : String)
  | boundToItself (name : String)
  | boundToUnknown (name dependency : String)
  | boundToElement (name dependency : String)
  | parentNotExtensible
  | extensionPointLost
  -- compiled classes
  | noView (className : String)
  | factoryOnConcrete (className : String)
  | bindingCycle (name : String)
  -- construction
  | abstractClass (className : String)
  | unrelatedProduct (className product : String)
  | badInitialText
  | initialNotObject (className shape : String)
  | unknownProperty (name className : String)
  | unknownAttribute (name className : String)
  | unboundRoot (className : String)
  | unboundSlot (name : String)
  | undeclaredSource (name : String)
  | passthroughDefault (name : String)
  | viewMissing
  -- writes
  | notPrimitive (name shape : String)
  | typeMismatch (name types : String)
  | wrongClass (expected actual : String)
  | objectForAnyElement
  | notElement (shape : String)
  | notSlot (name : String)
  | arrayWithoutCollection
  | notArray (shape : String)
  | noBinding (name : String)
  | assignFrom (shape : String)
  -- attachment
  | inUse (className : String)
  | insideItself (className : String)
  | releasedFree (className : String)
  | notInUse (className : String)
  | collectionGone
  | notInCollection
  | ownerGone
  | notElementProperty (name : String)
  | noCollectionHeld
  -- collections
  | appearsTwice (className : String)
  | insertRange (index size : Nat)
  | removeRange (index size : Nat)
  | moveRange (source target size : Nat)
  | badIndentation (indentation : Nat)
  | nothingRemoved
  -- events
  | unknownMethod (name className : String)
  | notExposed (key : String)
  | unknownEventClass (name : String)
  -- namespaces
  | classExists (name : String)
  | circularClasses (names : List String)
  | namespaceGone
  | badMarker (declaration : String)
  | objectExists (name : String)
  | noDocument
  -- files and host code
  | unreadable (path reason : String)
  | raised (kind : ErrorKind) (message : String)

namespace Error

/-- The kind of a cause. -/
def kind : Error → ErrorKind
  | settingsNotObject | badSetting => .typeKind
  | unknownSetting => .referenceKind
  | anchorOutsideTree | anchorNotListed | referenceOutsideTree | referenceNotListed => .logicKind
  | unknownClass _ | attributeNotDeclared _ | boundToUnknown .. => .referenceKind
  | extensionPointLost => .logicKind
  | abstractClass _ | unrelatedProduct .. | initialNotObject .. => .typeKind
  | unknownProperty .. | unknownAttribute .. => .referenceKind
  | unboundRoot _ | unboundSlot _ | undeclaredSource _ | passthroughDefault _ | viewMissing =>
    .logicKind
  | notPrimitive .. | typeMismatch .. | wrongClass .. | objectForAnyElement | notElement _
  | notArray _ | assignFrom _ | notElementProperty _ => .typeKind
  | notSlot _ | arrayWithoutCollection | noBinding _ | noCollectionHeld => .logicKind
  | inUse _ | insideItself _ | notInUse _ | appearsTwice _ => .referenceKind
  | releasedFree _ | collectionGone | notInCollection | ownerGone | nothingRemoved => .logicKind
  | insertRange .. | removeRange .. | moveRange .. | badIndentation _ => .rangeKind
  | unknownMethod .. | notExposed _ | unknownEventClass _ => .referenceKind
  | namespaceGone | noDocument => .logicKind
  | unreadable .. => .ioKind
  | raised kind _ => kind
  | _ => .syntaxKind

/-- The wording of a cause. -/
def message : Error → String
  | unknownType word => s!"Invalid type declaration \"{word}\""
  | repeatedType word => s!"Duplicate type \"{word}\" in type declaration"
  | secondNumericType word =>
    s!"Illegal type declaration \"{word}\"; only one number type is allowed"
  | settingsNotObject => "Namespace settings must be an object"
  | unknownSetting => "Invalid namespace setting"
  | badSetting => "Invalid namespace setting"
  | anchorOutsideTree => "insertion anchor is not part of a live tree"
  | anchorNotListed => "insertion anchor is missing from its parent"
  | referenceOutsideTree => "reference node is not part of a live tree"
  | referenceNotListed => "reference node is missing from its parent"
  | concreteAndAbstract => "A class template cannot be both concrete and abstract"
  | notClassTemplate => "Template is not a class declaration"
  | badClassHeader declaration => s!"Invalid class declaration \"{declaration}\""
  | reservedClassName name => s!"\"{name}\" is a reserved class name"
  | unknownClass name => s!"The class \"{name}\" does not exist"
  | reservedMethod name => s!"\"{name}\" is a reserved name and cannot be a method"
  | secondRoot className => s!"The class \"{className}\" has more than one root element"
  | textOutsideRoot className => s!"Unexpected text outside the root element of \"{className}\""
  | attributeWithoutName => "An attribute declaration is missing its name"
  | badAttributeName name => s!"\"{name}\" is not a valid attribute name"
  | attributeDeclared name => s!"The attribute \"{name}\" has already been declared"
  | propertyWithoutName => "A property declaration is missing its name"
  | badPropertyName name => s!"\"{name}\" is not a valid property name"
  | propertyDeclared name => s!"The property \"{name}\" has already been declared"
  | nameIsMethod name => s!"\"{name}\" already exists as a method"
  | emptyPassthrough name => s!"The passthrough key for \"{name}\" is empty"
  | inheritedElement name =>
    s!"The inherited property \"{name}\" is an element substitution and cannot be redeclared"
  | badDefault text => s!"Invalid default value \"{text}\""
  | defaultNotPrimitive name => s!"The default value of \"{name}\" is not a primitive value"
  | defaultMismatch name => s!"The default value of \"{name}\" does not match its declared types"
  | bindingUnterminated name => s!"Unterminated parameter in the binding of \"{name}\""
  | bindingReference name => s!"The binding of \"{name}\" may only reference untyped properties"
  | bindingWithoutReference name => s!"The binding of \"{name}\" does not reference any property"
  | secondExtensionPoint => "A class view may only have one extension point"
  | misplacedDeclaration tag => s!"<{tag}> must be a direct child of the class template"
  | repeatedAttribute name => s!"Duplicate attribute \"{name}\""
  | handlerWithoutEvent attr => s!"The handler attribute \"{attr}\" has no event name"
  | childHandlerRepeated event => s!"Another child \"{event}\" event handler already exists"
  | domHandlerRepeated event => s!"Another DOM \"{event}\" event handler already exists"
  | nativeHandler attr => s!"Native DOM event handlers are not allowed (\"{attr}\")"
  | badExposeKey key => s!"\"{key}\" is not a valid expose key"
  | exposeKeyTaken key => s!"A node is already exposed with the key \"{key}\""
  | braceNotClosed => "Matching closing brace not found"
  | bracesNotClosed => "Unexpected end of input; expected closing text parameter braces"
  | badSubstitution code => s!"Invalid property declaration at \"{code}\""
  | badElementSubstitution code => s!"Invalid element substitution at \"{code}\""
  | attributeNotDeclared name => s!"The attribute \"{name}\" does not exist"
  | attributeTypesDiffer name =>
    s!"Invalid type declaration for the attribute substitution \"{name}\""
  | usedAsElement name => s!"The property \"{name}\" already exists as an element substitution"
  | typesDiffer name => s!"The types for the property \"{name}\" have already been declared"
  | elementDefined name => s!"The property \"{name}\" is already defined"
  | primitiveDeclared name => s!"The property \"{name}\" has a primitive type declaration and "
      ++ "cannot be an element substitution"
  | unknownHandlerMethod body method =>
    s!"The handler \"{body}\" calls \"{method}\", which is not a method"
  | badHandlerStatement statement => s!"Invalid handler statement \"{statement}\""
  | emptyHandler => "Event handler body is empty"
  | propertyIsMethod name => s!"\"{name}\" is both a property and a method"
  | passthroughOnPrimitive name =>
    s!"The passthrough property \"{name}\" must be an element substitution"
  | elementDefault name =>
    s!"The default value of the element property \"{name}\" must be null or an object"
  | elementBinding name => s!"The element property \"{name}\" cannot have a dynamic binding"
  | arrayDefaultItems name =>
    s!"The default value of the array property \"{name}\" must contain only objects"
  | arrayDefault name => s!"The default value of the array property \"{name}\" must be an array"
  | arrayExtras name =>
    s!"The array property \"{name}\" cannot have a binding or passthrough key"
  | boundWithoutText name => s!"The bound property \"{name}\" must accept strings"
  | boundToItself name => s!"The binding of \"{name}\" depends on itself"
  | boundToUnknown name dependency =>
    s!"The binding of \"{name}\" references the unknown property \"{dependency}\""
  | boundToElement name dependency =>
    s!"The binding of \"{name}\" references the element property \"{dependency}\""
  | parentNotExtensible =>
    "The parent class view has no extension point for this class's view"
  | extensionPointLost => "extension point path does not resolve"
  | noView className => s!"The class \"{className}\" has no view"
  | factoryOnConcrete className =>
    s!"Only abstract classes take a factory, but \"{className}\" is concrete"
  | bindingCycle name => s!"The binding of \"{name}\" depends on itself through other bindings"
  | abstractClass className =>
    s!"Unable to construct new instance; \"{className}\" is an abstract class"
  | unrelatedProduct className product =>
    s!"The factory for \"{className}\" returned an instance of the unrelated class \"{product}\""
  | badInitialText => "Invalid initial state"
  | initialNotObject className shape =>
    s!"The initial state for \"{className}\" must be an object, not {shape}"
  | unknownProperty name className =>
    s!"The property \"{name}\" does not exist on \"{className}\""
  | unknownAttribute name className =>
    s!"The attribute \"{name}\" does not exist on \"{className}\""
  | unboundRoot className => s!"class \"{className}\" has no root element to bind"
  | unboundSlot name => s!"no insertion point was bound for \"{name}\""
  | undeclaredSource name => s!"\"{name}\" is bound but not declared"
  | passthroughDefault name => s!"passthrough default of \"{name}\" is not an object"
  | viewMissing => "instance used before its view was bound"
  | notPrimitive name shape => s!"Cannot set \"{name}\"; {shape} is not a primitive value"
  | typeMismatch name types => s!"Cannot set \"{name}\"; expected type to be one of: {types}"
  | wrongClass expected actual => s!"Expected an instance of \"{expected}\", got \"{actual}\""
  | objectForAnyElement =>
    "A plain object cannot be converted into an unspecified element class"
  | notElement shape => s!"Invalid value provided to element property; got {shape}"
  | notSlot name => s!"\"{name}\" is not bound to an element slot"
  | arrayWithoutCollection => "array property has no collection"
  | notArray shape =>
    s!"Non-array provided to element array substitution property; got {shape}"
  | noBinding name => s!"\"{name}\" has no binding"
  | assignFrom shape => s!"Cannot assign from {shape}; expected an object"
  | inUse className => s!"This \"{className}\" instance is already in use"
  | insideItself className => s!"A \"{className}\" instance cannot be attached inside itself"
  | releasedFree className => s!"released a \"{className}\" instance that was not attached"
  | notInUse className => s!"This \"{className}\" instance is not in use"
  | collectionGone => "attached to a collection that no longer exists"
  | notInCollection => "instance could not be found in its collection"
  | ownerGone => "attached to an instance that no longer exists"
  | notElementProperty name => s!"\"{name}\" is not an element property"
  | noCollectionHeld => "array property holds no collection"
  | appearsTwice className => s!"The same \"{className}\" instance appears twice in one collection"
  | insertRange index size => s!"Cannot insert at {index}; the collection has {size} item(s)"
  | removeRange index size => s!"Cannot remove {index}; the collection has {size} item(s)"
  | moveRange source target size =>
    s!"Cannot move {source} to {target}; the collection has {size} item(s)"
  | badIndentation indentation => s!"Invalid indentation value {indentation}; expected 0 to 10"
  | nothingRemoved => "splice removed nothing"
  | unknownMethod name className => s!"The method \"{name}\" does not exist on \"{className}\""
  | notExposed key => s!"No node is exposed with the key \"{key}\""
  | unknownEventClass name => s!"\"{name}\" is not an event class"
  | classExists name => s!"A class already exists with the name \"{name}\""
  | circularClasses names =>
    "Circular class references between: " ++ ", ".intercalate names
  | namespaceGone => "namespace dropped while constructing"
  | badMarker declaration =>
    s!"Invalid instantiation \"{declaration}\"; expected \"Class name\""
  | objectExists name => s!"An object already exists with the name \"{name}\""
  | noDocument => "no document was loaded"
  | unreadable path reason => s!"{path}: {reason}"
  | raised _ message => message

/-- The error with its kind in front. -/
def display (e : Error) : String :=
  match e with
  | unreadable path reason => s!"failed to read {path}: {reason}"
  | _ =>
    match e.kind with
    | .syntaxKind => "SyntaxError: " ++ e.message
    | .typeKind => "TypeError: " ++ e.message
    | .referenceKind => "ReferenceError: " ++ e.message
    | .rangeKind => "RangeError: " ++ e.message
    | .logicKind => "internal invariant violated: " ++ e.message
    | .ioKind => e.message

/-- An error raised by host code is displayed under the kind it was raised with. -/
theorem display_raised_type (m : String) : (raised .typeKind m).display = "TypeError: " ++ m := rfl

end Error

end ReactiveView
