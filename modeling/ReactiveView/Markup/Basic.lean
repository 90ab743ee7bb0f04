/-!
# Marked-up trees

A marked-up tree is a text, a comment, or an element with a qualified name, attributes in order, and
children. The children of an element stand in the tree in the ordinary way, or *apart* from it: a
template that was read from a document keeps its content apart, where it is not text of the
document and is not printed with it, though searches descend into it.

Queries on trees: ordinary children, content children, concatenated text, elements found in document
order. `textContent_text` and `find_text` state the base cases.
-/

set_option autoImplicit false

namespace ReactiveView

/-- The vocabulary that a name belongs to. -/
inductive Space where
  | none
  | html
  | svg
  | mathml
  | xlink
  | xml
  | xmlns
deriving DecidableEq, Repr

/-- A name within a vocabulary. -/
structure QName where
  space : Space
  tag : String
deriving DecidableEq, Repr

/-- The name of an element of ordinary markup. -/
def QName.html (tag : String) : QName := ⟨.html, tag⟩

/-- The name of an attribute without a vocabulary. -/
def QName.plain (tag : String) : QName := ⟨.none, tag⟩

/-- An attribute with its value. -/
structure Attr where
  name : QName
  value : String
deriving DecidableEq, Repr

/-- A marked-up tree; `apart` marks an element whose children are kept apart from it. -/
inductive Markup where
  | text (s : String)
  | comment (s : String)
  | element (name : QName) (attrs : List Attr) (apart : Bool) (children : List Markup)

/-- The value of the first attribute with a name. -/
def attrValue? (attrs : List Attr) (name : String) : Option String :=
  (attrs.find? fun a => a.name.tag == name).map (·.value)

namespace Markup

/-- The name of an element. -/
def tag? : Markup → Option String
  | element name _ _ _ => some name.tag
  | _ => none

/-- The value of an attribute of an element. -/
def attr? (m : Markup) (name : String) : Option String :=
  match m with
  | element _ attrs _ _ => attrValue? attrs name
  | _ => none

/-- The children that stand in the tree. -/
def ordinaryChildren : Markup → List Markup
  | element _ _ apart children => if apart then [] else children
  | _ => []

/-- The children, whether they stand in the tree or apart from it. -/
def contentChildren : Markup → List Markup
  | element _ _ _ children => children
  | _ => []

/-- Whether a tree is an element. -/
def isElement : Markup → Bool
  | element .. => true
  | _ => false

mutual

/-- The texts in a tree, one after the other; what stands apart is left out. -/
def textContent : Markup → String
  | text s => s
  | comment _ => ""
  | element _ _ apart children => if apart then "" else textOfChildren children

/-- The texts in a list of trees. -/
def textOfChildren : List Markup → String
  | [] => ""
  | m :: ms => textContent m ++ textOfChildren ms

end

mutual

/-- The elements that pass a test, in document order, what stands apart included. -/
def find (test : Markup → Bool) : Markup → List Markup
  | element name attrs apart children =>
    let below := findIn test children
    if test (element name attrs apart children) then element name attrs apart children :: below
    else below
  | _ => []

/-- The elements that pass a test in a list of trees. -/
def findIn (test : Markup → Bool) : List Markup → List Markup
  | [] => []
  | m :: ms => find test m ++ findIn test ms

end

/-- A text is its own text. -/
theorem textContent_text (s : String) : textContent (text s) = s := by simp [textContent]

/-- No element is found in a text. -/
theorem find_text (test : Markup → Bool) (s : String) : find test (text s) = [] := by simp [find]

end Markup

end ReactiveView
