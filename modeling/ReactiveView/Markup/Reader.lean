import ReactiveView.Markup.Printer
import ReactiveView.Markup.Token

/-!
# Reading documents

A document is read token by token into a list of trees. The state of the reading is the stack of the
open elements, innermost first, each with the children read so far. A start tag opens an element, an
end tag closes the innermost open element of its name together with all that is open inside it; an
end tag without such an element is passed over.

Some elements close themselves: an element without content at once, a paragraph before an element
that cannot stand in it, an item of a list before the next item. Which open elements a search may
look past is decided by classifying each of them as the one searched for, as a boundary, or as
neither (`Role`). The content of a template is kept apart, and a template is a boundary to every
search. Inside `svg` and `math` the names get back the capital letters of their vocabulary.

The parts of a table open the levels above them that are missing. What surrounds a place decides whether
they may stand there at all (`Setting`); the content of a template is a setting of its own, which its
first element determines, so a row may be the content of a template, but not after other content.

`Document.read` is total: it takes at most one step for each character. `innermost?_nil` and
`Document.close_nil` state that on an empty stack nothing is found and nothing closed, and
`settingOf_withSetting` that the noted content of a template is what its setting is.
-/

set_option autoImplicit false

namespace ReactiveView.Markup

/-! ## Vocabularies -/

/-- Elements before which an open paragraph ends. -/
def endsParagraph : List String :=
  ["address", "article", "aside", "blockquote", "center", "details", "dialog", "dir", "div", "dl",
    "fieldset", "figcaption", "figure", "footer", "header", "hgroup", "main", "menu", "nav", "ol",
    "p", "search", "section", "summary", "ul", "h1", "h2", "h3", "h4", "h5", "h6", "pre", "listing",
    "form", "li", "dd", "dt", "plaintext", "hr", "xmp", "table"]

/-- Elements that bound the search for an open element of ordinary markup. -/
def scopeTags : List String :=
  ["applet", "caption", "html", "table", "td", "th", "marquee", "object", "template"]

/-- Elements that an end tag of no special element cannot reach across. -/
def specialTags : List String :=
  ["address", "applet", "area", "article", "aside", "base", "basefont", "bgsound", "blockquote",
    "body", "br", "button", "caption", "center", "col", "colgroup", "dd", "details", "dir", "div",
    "dl", "dt", "embed", "fieldset", "figcaption", "figure", "footer", "form", "frame", "frameset",
    "h1", "h2", "h3", "h4", "h5", "h6", "head", "header", "hgroup", "hr", "html", "iframe", "img",
    "input", "keygen", "li", "link", "listing", "main", "marquee", "menu", "meta", "nav",
    "noembed", "noframes", "noscript", "object", "ol", "p", "param", "plaintext", "pre", "script",
    "search", "section", "select", "source", "style", "summary", "table", "tbody", "td", "template",
    "textarea", "tfoot", "th", "thead", "title", "tr", "track", "ul", "wbr", "xmp"]

/-- Headings. -/
def headingTags : List String := ["h1", "h2", "h3", "h4", "h5", "h6"]

/-- Elements whose text is not markup. -/
def verbatimTags : List String :=
  ["script", "style", "xmp", "iframe", "noembed", "noframes", "noscript"]

/-- Elements whose text is not markup but for references. -/
def referenceTextTags : List String := ["textarea", "title"]

/-- Elements that may stand anywhere and say nothing about what surrounds them. -/
def headTags : List String :=
  ["base", "basefont", "bgsound", "link", "meta", "noframes", "script", "style", "template", "title"]

/-- Groups of rows of a table. -/
def rowGroupTags : List String := ["tbody", "thead", "tfoot"]

/-- Cells of a table. -/
def cellTags : List String := ["td", "th"]

/-- Elements that stand in tables only. -/
def tablePartTags : List String := ["caption", "colgroup", "col", "tr"] ++ rowGroupTags ++ cellTags

/-- Tags of the skeleton of a document, which the trees leave out. -/
def skeletonTags : List String := ["html", "head", "body"]

/-- Elements before which drawings and formulas end. -/
def breakoutTags : List String :=
  ["b", "big", "blockquote", "body", "br", "center", "code", "dd", "div", "dl", "dt", "em", "embed",
    "h1", "h2", "h3", "h4", "h5", "h6", "head", "hr", "i", "img", "li", "listing", "menu", "meta",
    "nobr", "ol", "p", "pre", "ruby", "s", "small", "span", "strong", "strike", "sub", "sup",
    "table", "tt", "u", "ul", "var"]

/-- The element names of drawings with capital letters. -/
def drawingTags : List String :=
  ["altGlyph", "altGlyphDef", "altGlyphItem", "animateColor", "animateMotion", "animateTransform",
    "clipPath", "feBlend", "feColorMatrix", "feComponentTransfer", "feComposite",
    "feConvolveMatrix", "feDiffuseLighting", "feDisplacementMap", "feDistantLight", "feDropShadow",
    "feFlood", "feFuncA", "feFuncB", "feFuncG", "feFuncR", "feGaussianBlur", "feImage", "feMerge",
    "feMergeNode", "feMorphology", "feOffset", "fePointLight", "feSpecularLighting", "feSpotLight",
    "feTile", "feTurbulence", "foreignObject", "glyphRef", "linearGradient", "radialGradient",
    "textPath"]

/-- The attribute names of drawings with capital letters. -/
def drawingAttrs : List String :=
  ["attributeName", "attributeType", "baseFrequency", "baseProfile", "calcMode", "clipPathUnits",
    "diffuseConstant", "edgeMode", "filterUnits", "glyphRef", "gradientTransform", "gradientUnits",
    "kernelMatrix", "kernelUnitLength", "keyPoints", "keySplines", "keyTimes", "lengthAdjust",
    "limitingConeAngle", "markerHeight", "markerUnits", "markerWidth", "maskContentUnits",
    "maskUnits", "numOctaves", "pathLength", "patternContentUnits", "patternTransform",
    "patternUnits", "pointsAtX", "pointsAtY", "pointsAtZ", "preserveAlpha", "preserveAspectRatio",
    "primitiveUnits", "refX", "refY", "repeatCount", "repeatDur", "requiredExtensions",
    "requiredFeatures", "specularConstant", "specularExponent", "spreadMethod", "startOffset",
    "stdDeviation", "stitchTiles", "surfaceScale", "systemLanguage", "tableValues", "targetX",
    "targetY", "textLength", "viewBox", "viewTarget", "xChannelSelector", "yChannelSelector",
    "zoomAndPan"]

/-- The spelling of a name in a list, case not counting. -/
def respell (names : List String) (name : String) : String :=
  (names.find? fun n => n.toLower == name).getD name

/-- An attribute of a drawing or formula in its vocabulary. -/
def foreignAttr (space : Space) (name value : String) : Attr :=
  match name with
  | "xlink:actuate" => ⟨⟨.xlink, "actuate"⟩, value⟩
  | "xlink:arcrole" => ⟨⟨.xlink, "arcrole"⟩, value⟩
  | "xlink:href" => ⟨⟨.xlink, "href"⟩, value⟩
  | "xlink:role" => ⟨⟨.xlink, "role"⟩, value⟩
  | "xlink:show" => ⟨⟨.xlink, "show"⟩, value⟩
  | "xlink:title" => ⟨⟨.xlink, "title"⟩, value⟩
  | "xlink:type" => ⟨⟨.xlink, "type"⟩, value⟩
  | "xml:lang" => ⟨⟨.xml, "lang"⟩, value⟩
  | "xml:space" => ⟨⟨.xml, "space"⟩, value⟩
  | "xmlns" => ⟨⟨.xmlns, "xmlns"⟩, value⟩
  | "xmlns:xlink" => ⟨⟨.xmlns, "xlink"⟩, value⟩
  | _ =>
    if space = .svg then ⟨.plain (respell drawingAttrs name), value⟩
    else if space = .mathml ∧ name = "definitionurl" then ⟨.plain "definitionURL", value⟩
    else ⟨.plain name, value⟩

/-! ## Open elements -/

/-- What is being read at a place: the content of a template of which nothing is known yet, ordinary
content, or a level of a table. -/
inductive Setting where
  | fresh
  | flow
  | table
  | caption
  | columns
  | rows
  | row
  | cell
deriving DecidableEq

/-- An element that is open, with the children read so far, the last one first. A template also keeps
what its content has turned out to be. -/
structure OpenElement where
  name : QName
  attrs : List Attr
  apart : Bool
  children : List Markup
  setting : Setting := .fresh

/-- A document in the course of being read: the open elements, innermost first, the trees read at
its top level, the last one first, and whether it declared its type. -/
structure Document where
  stack : List OpenElement := []
  top : List Markup := []
  declared : Bool := false

/-- How a search takes an open element. -/
inductive Role where
  | target
  | boundary
  | other
deriving DecidableEq

/-- How many open elements stand inside the innermost target that no boundary hides. -/
def innermost? (role : OpenElement → Role) : List OpenElement → Option Nat
  | [] => none
  | e :: es =>
    match role e with
    | .target => some 0
    | .boundary => none
    | .other => (innermost? role es).map (· + 1)

/-- What is being read inside some open elements: the innermost template or part of a table decides. -/
def settingOf : List OpenElement → Setting
  | [] => .flow
  | e :: es =>
    if e.apart then e.setting
    else if e.name.space != .html then settingOf es
    else if cellTags.contains e.name.tag then .cell
    else if e.name.tag = "tr" then .row
    else if rowGroupTags.contains e.name.tag then .rows
    else if e.name.tag = "caption" then .caption
    else if e.name.tag = "colgroup" then .columns
    else if e.name.tag = "table" then .table
    else settingOf es

/-- Notes what the content of the innermost template has turned out to be. -/
def withSetting (s : Setting) : List OpenElement → List OpenElement
  | [] => []
  | e :: es => if e.apart then { e with setting := s } :: es else e :: withSetting s es

/-- Directly inside a template its noted content is the setting. -/
theorem settingOf_withSetting (s : Setting) (e : OpenElement) (es : List OpenElement)
    (h : e.apart = true) : settingOf (withSetting s (e :: es)) = s := by
  simp [withSetting, settingOf, h]

/-- What the first element in a template makes of its content. -/
def settingFor (name : String) : Setting :=
  if name = "tr" then .rows
  else if name = "col" then .columns
  else if cellTags.contains name then .row
  else if tablePartTags.contains name then .table
  else .flow

/-- Adds a tree to a list of trees kept last first; a text joins the text before it. -/
def addTree (ms : List Markup) (m : Markup) : List Markup :=
  match m, ms with
  | .text s, .text t :: rest => .text (t ++ s) :: rest
  | _, _ => m :: ms

namespace Document

/-- Adds a tree at the current place. -/
def add (d : Document) (m : Markup) : Document :=
  match d.stack with
  | [] => { d with top := addTree d.top m }
  | e :: es => { d with stack := { e with children := addTree e.children m } :: es }

/-- Closes the innermost open element. -/
def close (d : Document) : Document :=
  match d.stack with
  | [] => d
  | e :: es =>
    ({ d with stack := es } : Document).add (.element e.name e.attrs e.apart e.children.reverse)

/-- Closes a number of open elements and one more. -/
def closeTo (d : Document) : Nat → Document
  | 0 => d.close
  | n + 1 => d.close.closeTo n

/-- Opens an element. -/
def openElement (d : Document) (name : QName) (attrs : List Attr) (apart : Bool) : Document :=
  { d with stack := { name, attrs, apart, children := [] } :: d.stack }

/-- The name of the innermost open element. -/
def current? (d : Document) : Option QName := d.stack.head?.map (·.name)

/-- Whether the innermost open element is one of ordinary markup with one of the given names. -/
def currentIs (d : Document) (tags : List String) : Bool :=
  match d.current? with
  | some n => n.space == .html && tags.contains n.tag
  | none => false

/-- Whether markup at the current place belongs to a drawing or formula. -/
def inForeign (d : Document) : Option Space :=
  match d.current? with
  | some n =>
    match n.space with
    | .svg => if ["foreignObject", "desc", "title"].contains n.tag then none else some .svg
    | .mathml =>
      if ["mi", "mo", "mn", "ms", "mtext", "annotation-xml"].contains n.tag then none
      else some .mathml
    | _ => none
  | none => none

/-- Searching for elements with some names, up to elements with some other names. -/
def seek (targets boundaries : List String) (e : OpenElement) : Role :=
  if e.name.space == .html then
    if e.apart then .boundary
    else if targets.contains e.name.tag then .target
    else if boundaries.contains e.name.tag then .boundary
    else .other
  else .other

/-- Closes the innermost open element with one of some names, if no boundary hides it. -/
def closeTag (d : Document) (targets boundaries : List String) : Document :=
  match innermost? (seek targets boundaries) d.stack with
  | some n => d.closeTo n
  | none => d

/-- Ends an open paragraph. -/
def closeParagraph (d : Document) : Document := d.closeTag ["p"] ("button" :: scopeTags)

/-- Elements that do not hide an open item from the next one. -/
def itemBoundaries : List String :=
  specialTags.filter fun t => !(["address", "div", "p"].contains t)

/-- Ends the elements that cannot stay open before a start tag. -/
def makeRoom (d : Document) (name : String) : Document :=
  let d :=
    if name = "li" then d.closeTag ["li"] (itemBoundaries.erase "li")
    else if name = "dd" ∨ name = "dt" then
      d.closeTag ["dd", "dt"] ((itemBoundaries.erase "dd").erase "dt")
    else if name = "option" ∨ name = "optgroup" then
      if d.currentIs ["option"] then d.close else d
    else if name = "button" then d.closeTag ["button"] scopeTags
    else d
  let d :=
    if endsParagraph.contains name ∧ (name ≠ "table" ∨ d.declared) then d.closeParagraph else d
  if headingTags.contains name ∧ d.currentIs headingTags then d.close else d

/-- Closes open elements up to a template or an element with one of some names. -/
def closeUpTo (tags : List String) (fuel : Nat) (d : Document) : Document :=
  match fuel, d.stack with
  | fuel + 1, e :: _ =>
    if e.apart || (e.name.space == .html && tags.contains e.name.tag) then d
    else d.close.closeUpTo tags fuel
  | _, _ => d

/-- Opens an element directly inside a template or an element with one of some names. -/
def openWithin (d : Document) (tags : List String) (name : String) (attrs : List Attr) : Document :=
  (d.closeUpTo tags d.stack.length).openElement (.html name) attrs false

/-- Opens a part of a table at its level: levels in between are opened, deeper ones are closed. A part
of a table that stands in no table, and in no template that holds parts of a table, is passed over. -/
def startTablePart (name : String) (attrs : List Attr) (fuel : Nat) (d : Document) : Document :=
  match fuel with
  | 0 => d
  | fuel + 1 =>
    let closing (tags : List String) : Document :=
      match innermost? (seek tags ["html", "table", "template"]) d.stack with
      | some n => (d.closeTo n).startTablePart name attrs fuel
      | none => d
    match settingOf d.stack with
    | .fresh =>
      { d with stack := withSetting (settingFor name) d.stack }.startTablePart name attrs fuel
    | .flow => d
    | .caption => closing ["caption"]
    | .cell => closing cellTags
    | .row =>
      if cellTags.contains name then d.openWithin ["tr"] name attrs else closing ["tr"]
    | .rows =>
      if name = "tr" then d.openWithin rowGroupTags name attrs
      else if cellTags.contains name then
        (d.openWithin rowGroupTags "tr" []).startTablePart name attrs fuel
      else closing rowGroupTags
    | .columns =>
      if name = "col" then (d.openElement (.html name) attrs false).close
      else if d.currentIs ["colgroup"] then d.close.startTablePart name attrs fuel
      else d
    | .table =>
      if name = "col" then (d.openWithin ["table"] "colgroup" []).startTablePart name attrs fuel
      else if name = "tr" ∨ cellTags.contains name = true then
        (d.openWithin ["table"] "tbody" []).startTablePart name attrs fuel
      else d.openWithin ["table"] name attrs

/-- Settles that a template whose content was unknown holds ordinary content, unless the element that
starts may stand anywhere. -/
def settleFlow (d : Document) (name : String) : Document :=
  if settingOf d.stack = .fresh ∧ headTags.contains name = false then
    { d with stack := withSetting .flow d.stack }
  else d

/-- Opens an element of ordinary markup. -/
def startOrdinary (d : Document) (name : String) (attrs : List (String × String))
    (selfClosing : Bool) : Document :=
  let name := if name = "image" then "img" else name
  if tablePartTags.contains name then
    startTablePart name (attrs.map fun a => ⟨.plain a.1, a.2⟩) 8 d
  else if skeletonTags.contains name then d.settleFlow name
  else if name = "svg" ∨ name = "math" then
    let space := if name = "svg" then Space.svg else .mathml
    let d := d.settleFlow name
    let d := d.openElement ⟨space, name⟩ (attrs.map fun a => foreignAttr space a.1 a.2) false
    if selfClosing then d.close else d
  else
    let d := (d.settleFlow name).makeRoom name
    let d := d.openElement (.html name) (attrs.map fun a => ⟨.plain a.1, a.2⟩) (name = "template")
    if isVoid (.html name) then d.close else d

/-- Closes drawings and formulas up to ordinary markup. -/
def leaveForeign (fuel : Nat) (d : Document) : Document :=
  match fuel with
  | 0 => d
  | fuel + 1 => if d.inForeign.isSome then d.close.leaveForeign fuel else d
termination_by fuel

/-- Takes a start tag. -/
def start (d : Document) (name : String) (attrs : List (String × String)) (selfClosing : Bool) :
    Document :=
  match d.inForeign with
  | none => d.startOrdinary name attrs selfClosing
  | some space =>
    if breakoutTags.contains name then
      (leaveForeign d.stack.length d).startOrdinary name attrs selfClosing
    else
      let tag := if space = .svg then respell drawingTags name else name
      let d := d.openElement ⟨space, tag⟩ (attrs.map fun a => foreignAttr space a.1 a.2) false
      if selfClosing then d.close else d

/-- Takes an end tag of ordinary markup. -/
def finishOrdinary (d : Document) (name : String) : Document :=
  if skeletonTags.contains name then d
  else if name = "template" then
    match innermost? (fun e => if e.apart then .target else .other) d.stack with
    | some n => d.closeTo n
    | none => d
  else if settingOf d.stack = .fresh then d
  else if name = "br" then d.startOrdinary "br" [] false
  else if name = "p" then
    match innermost? (seek ["p"] ("button" :: scopeTags)) d.stack with
    | some n => d.closeTo n
    | none => (d.openElement (.html "p") [] false).close
  else if name = "li" then d.closeTag ["li"] ("ol" :: "ul" :: scopeTags)
  else if headingTags.contains name then d.closeTag headingTags scopeTags
  else if name = "table" ∨ tablePartTags.contains name = true then
    d.closeTag [name] (["table", "template"].erase name)
  else if specialTags.contains name then d.closeTag [name] (scopeTags.erase name)
  else d.closeTag [name] specialTags

/-- Takes an end tag. -/
def finish (d : Document) (name : String) : Document :=
  if d.inForeign.isSome then
    let role (e : OpenElement) : Role :=
      if e.name.space == .html then .boundary
      else if e.name.tag.toLower == name then .target
      else .other
    match innermost? role d.stack with
    | some n => d.closeTo n
    | none => d.finishOrdinary name
  else
    match d.stack with
    | e :: _ =>
      if e.name.space != .html && e.name.tag.toLower == name then d.close
      else d.finishOrdinary name
    | [] => d.finishOrdinary name

/-- Drops one line feed at the front. -/
def dropLineFeed : List Char → List Char
  | '\n' :: rest => rest
  | cs => cs

/-- Takes the text that is not markup after the start tag of an element that holds such text. -/
def verbatim (d : Document) (name : String) (cs : List Char) : Document × List Char :=
  if d.inForeign.isNone && d.currentIs [name] then
    if verbatimTags.contains name then
      let (body, rest) := Token.rawText name.toList (cs.length + 1) [] cs
      (if body.isEmpty then d else d.add (.text (String.ofList body)), rest)
    else if referenceTextTags.contains name then
      let cs := if name = "textarea" then dropLineFeed cs else cs
      let (body, rest) := Token.rawText name.toList (cs.length + 1) [] cs
      (if body.isEmpty then d else d.add (.text (resolved false body)), rest)
    else if name = "pre" ∨ name = "listing" then (d, dropLineFeed cs)
    else (d, cs)
  else (d, cs)

/-- Takes a token, with what follows it. -/
def step (d : Document) (t : Token) (rest : List Char) : Document × List Char :=
  match t with
  | .text s => (d.add (.text s), rest)
  | .comment s => (d.add (.comment s), rest)
  | .declaration => ({ d with declared := d.declared || (d.stack.isEmpty && d.top.isEmpty) }, rest)
  | .start name attrs selfClosing => (d.start name attrs selfClosing).verbatim name rest
  | .finish name => (d.finish name, rest)

/-- Takes token after token. -/
def run (fuel : Nat) (d : Document) (cs : List Char) : Document :=
  match fuel with
  | 0 => d
  | fuel + 1 =>
    match Token.next? cs with
    | none => d
    | some (t, rest) =>
      let (d, rest) := d.step t rest
      run fuel d rest

/-- The trees of a document, with all that is open closed. -/
def trees (d : Document) : List Markup := (d.closeTo d.stack.length).top.reverse

/-- Line ends are single line feeds, and a byte order mark at the front is dropped. -/
def normalized (cs : List Char) : List Char :=
  let rec lines : List Char → List Char
    | '\r' :: '\n' :: rest => '\n' :: lines rest
    | '\r' :: rest => '\n' :: lines rest
    | c :: rest => c :: lines rest
    | [] => []
  match cs with
  | c :: rest => if c.toNat = 0xFEFF then lines rest else lines cs
  | [] => []

/-- Reads a document. -/
def read (source : String) : List Markup :=
  let cs := normalized source.toList
  (run (cs.length + 1) {} cs).trees

/-- On an empty stack nothing is open to be closed. -/
theorem close_nil (top : List Markup) (declared : Bool) :
    (⟨[], top, declared⟩ : Document).close = ⟨[], top, declared⟩ := rfl

end Document

/-- On an empty stack nothing is found. -/
theorem innermost?_nil (role : OpenElement → Role) : innermost? role [] = none := rfl

end ReactiveView.Markup
