import ReactiveView.Markup.Basic

/-!
# Printing marked-up trees

A tree is printed with its attributes in order and its ordinary children. In a text the ampersand,
the angle brackets and the no-break space are written as references; in the value of an attribute
the ampersand, the no-break space and the quote are. Texts directly inside the elements that hold
raw text are printed as they are, and elements that have no content are printed without children and
without an end tag.

`printed_text` states how a text that stands alone is printed.
-/

set_option autoImplicit false

namespace ReactiveView.Markup

/-- A character of a text. -/
def escapedText (c : Char) : List Char :=
  if c = '&' then "&amp;".toList
  else if c = '<' then "&lt;".toList
  else if c = '>' then "&gt;".toList
  else if c.toNat = 0xA0 then "&nbsp;".toList
  else [c]

/-- A character of the value of an attribute. -/
def escapedValue (c : Char) : List Char :=
  if c = '&' then "&amp;".toList
  else if c.toNat = 0xA0 then "&nbsp;".toList
  else if c = '"' then "&quot;".toList
  else [c]

/-- The elements whose texts are printed as they are. -/
def rawTextTags : List String :=
  ["style", "script", "xmp", "iframe", "noembed", "noframes", "plaintext", "noscript"]

/-- The elements without content. -/
def voidTags : List String :=
  ["area", "base", "basefont", "bgsound", "br", "col", "embed", "frame", "hr", "img", "input",
    "keygen", "link", "meta", "param", "source", "track", "wbr"]

/-- Whether an element holds raw text. -/
def isRawText (name : QName) : Bool := name.space == .html && rawTextTags.contains name.tag

/-- Whether an element has no content. -/
def isVoid (name : QName) : Bool := name.space == .html && voidTags.contains name.tag

/-- What is printed before the name of an attribute. -/
def attrLead (name : QName) : String :=
  match name.space with
  | .xml => "xml:"
  | .xlink => "xlink:"
  | .xmlns => if name.tag == "xmlns" then "" else "xmlns:"
  | .none => ""
  | _ => "unknown_namespace:"

/-- An attribute as printed, with the space before it. -/
def attrText (a : Attr) : String :=
  " " ++ attrLead a.name ++ a.name.tag ++ "=\""
    ++ String.ofList (a.value.toList.flatMap escapedValue) ++ "\""

/-- The attributes as printed. -/
def attrTexts (attrs : List Attr) : String := String.join (attrs.map attrText)

mutual

/-- A tree as printed inside an element that holds raw text or does not. -/
def print (raw : Bool) : Markup → String
  | text s => if raw then s else String.ofList (s.toList.flatMap escapedText)
  | comment s => "<!--" ++ s ++ "-->"
  | element name attrs apart children =>
    let opened := "<" ++ name.tag ++ attrTexts attrs ++ ">"
    if isVoid name then opened
    else
      opened ++ (if apart then "" else printAll (isRawText name) children) ++ "</" ++ name.tag ++ ">"

/-- A list of trees as printed. -/
def printAll (raw : Bool) : List Markup → String
  | [] => ""
  | m :: ms => print raw m ++ printAll raw ms

end

/-- A tree as printed where it stands alone. -/
def printed (m : Markup) : String := print false m

/-- A text without special characters is printed as it is. -/
theorem printed_text (s : String) (h : ∀ c ∈ s.toList, escapedText c = [c]) :
    printed (text s) = s := by
  have : ∀ cs : List Char, (∀ c ∈ cs, escapedText c = [c]) → cs.flatMap escapedText = cs := by
    intro cs
    induction cs with
    | nil => simp
    | cons c cs ih =>
      intro hc
      simp only [List.flatMap_cons, hc c (by simp), ih (fun d hd => hc d (by simp [hd]))]
      rfl
  simp [printed, print, this s.toList h]

end ReactiveView.Markup
