import ReactiveView.Error
import ReactiveView.Markup.Basic
import ReactiveView.Template.Grammar

/-!
# Class headers and references between classes

A template element declares a class by an attribute whose value is the header of the class: its name
and, after the word `extends`, its parent. One attribute declares a concrete class, the other an
abstract one.

A class depends on its parent and on the classes named by the element substitutions in its texts,
wherever in the template they stand. `braced` lists the stretches of a text between an opening brace
and the next closing one, which is all a dependency scan looks at.

`readHeader_text` states that a tree that is no element declares no class.
-/

set_option autoImplicit false

namespace ReactiveView.Template

open ReactiveView.Text (cut?)

/-- The declared name, kind and parent of a class. -/
structure Header where
  name : String
  isAbstract : Bool
  parent : Option String
deriving DecidableEq, Repr

/-- The attribute that declares a concrete class. -/
def classAttr : String := "ooml-class"

/-- The attribute that declares an abstract class. -/
def abstractClassAttr : String := "ooml-abstract-class"

/-- Reads the header of a class from its declaration. -/
def Header.ofDeclaration (isAbstract : Bool) (declaration : String) : Except Error Header :=
  let text := Text.trim declaration.toList
  match classPhrase? text with
  | none => .error (.badClassHeader (String.ofList text))
  | some (name, parent) =>
    if isAnyElement name then .error (.reservedClassName name) else .ok ⟨name, isAbstract, parent⟩

/-- Reads the header of a class template. -/
def readHeader (template : Markup) : Except Error Header :=
  match template.attr? classAttr, template.attr? abstractClassAttr with
  | some declaration, none => Header.ofDeclaration false declaration
  | none, some declaration => Header.ofDeclaration true declaration
  | some _, some _ => .error .concreteAndAbstract
  | none, none => .error .notClassTemplate

/-- Whether an element is the template of a class. -/
def isClassTemplate (m : Markup) : Bool :=
  m.tag? == some "template"
    && ((m.attr? classAttr).isSome || (m.attr? abstractClassAttr).isSome)

/-- The class templates of a document, in document order. -/
def classTemplates (document : List Markup) : List Markup := Markup.findIn isClassTemplate document

/-! ## References -/

/-- The stretches of a text between an opening brace and the next closing one. -/
def braced (cs : List Char) : List (List Char) :=
  match _h : cut? ['\x7b'] cs with
  | none => []
  | some (_, rest) =>
    match _h' : cut? ['\x7d'] rest with
    | none => []
    | some (code, after) => code :: braced after
termination_by cs.length
decreasing_by
  have h1 := Text.length_of_cut? _ _ _ _ (by simp) _h
  have h2 := Text.length_of_cut? _ _ _ _ (by simp) _h'
  omega

/-- The classes named by the element substitutions of a text. -/
def referencesInText (s : String) : List String :=
  (braced s.toList).filterMap fun code =>
    match elementSubstitution? code with
    | some phrase => if isAnyElement phrase.className then none else some phrase.className
    | none => none

mutual

/-- The classes named inside a tree. -/
def referencesIn : Markup → List String
  | .text s => referencesInText s
  | .comment _ => []
  | .element _ _ _ children => referencesInAll children

/-- The classes named inside a list of trees. -/
def referencesInAll : List Markup → List String
  | [] => []
  | m :: ms => referencesIn m ++ referencesInAll ms

end

/-- The classes that a template depends on, in order, each once. -/
def requires (header : Header) (template : Markup) : List String :=
  sortedKeys (header.parent.toList ++ referencesInAll template.contentChildren)

/-- What is no element declares no class. -/
theorem readHeader_text (s : String) : readHeader (.text s) = .error .notClassTemplate := rfl

end ReactiveView.Template
