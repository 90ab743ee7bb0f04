import ReactiveView.Markup.Basic
import ReactiveView.Markup.Reference
import ReactiveView.Text.Scan

/-!
# Tokens of markup

A document is a sequence of tokens: stretches of text, comments, start tags with their attributes,
end tags, and declarations, which carry nothing. Names of tags and attributes are kept in lower case,
and of several attributes with one name only the first counts. References are resolved in texts and
values.

`Token.next?` takes the next token off a text. `addAttr_of_mem` states that a repeated attribute is
left out.
-/

set_option autoImplicit false

namespace ReactiveView.Markup

/-- A token of a document. -/
inductive Token where
  | text (s : String)
  | comment (s : String)
  | start (name : String) (attrs : List (String × String)) (selfClosing : Bool)
  | finish (name : String)
  | declaration

namespace Token

/-- The blanks between the parts of a tag. -/
def isTagBlank (c : Char) : Bool :=
  c == ' ' || c == '\t' || c == '\n' || c.toNat == 12 || c == '\r'

/-- Whether a character ends the name of a tag. -/
def endsTagName (c : Char) : Bool := isTagBlank c || c == '/' || c == '>'

/-- Adds an attribute unless one of that name is there. -/
def addAttr (attrs : List (String × String)) (name value : String) : List (String × String) :=
  if attrs.any fun a => a.1 == name then attrs else attrs ++ [(name, value)]

/-- Reads the value of an attribute after its equals sign. -/
def value? (cs : List Char) : Option (String × List Char) :=
  match cs.dropWhile isTagBlank with
  | [] => none
  | c :: rest =>
    if c = '"' ∨ c = '\'' then
      match Text.cut? [c] rest with
      | some (v, rest) => some (resolved true v, rest)
      | none => none
    else if c = '>' then some ("", c :: rest)
    else
      let v := (c :: rest).takeWhile fun c => !(isTagBlank c || c == '>')
      some (resolved true v, (c :: rest).drop v.length)

/-- Reads attributes up to the end of a tag; tells whether the tag closes itself. -/
def attributes? (fuel : Nat) (attrs : List (String × String)) (cs : List Char) :
    Option (List (String × String) × Bool × List Char) :=
  match fuel with
  | 0 => none
  | fuel + 1 =>
    match cs.dropWhile isTagBlank with
    | [] => none
    | '>' :: rest => some (attrs, false, rest)
    | '/' :: '>' :: rest => some (attrs, true, rest)
    | '/' :: rest => attributes? fuel attrs rest
    | c :: rest =>
      let more := rest.takeWhile fun c => !(endsTagName c || c == '=')
      let name := String.ofList ((c :: more).map Char.toLower)
      let rest := rest.drop more.length
      match rest.dropWhile isTagBlank with
      | '=' :: after =>
        match value? after with
        | some (v, rest) => attributes? fuel (addAttr attrs name v) rest
        | none => none
      | _ => attributes? fuel (addAttr attrs name "") rest

/-- Reads the name and the attributes of a tag. -/
def tag? (cs : List Char) : Option (String × List (String × String) × Bool × List Char) :=
  let name := cs.takeWhile fun c => !endsTagName c
  match attributes? (cs.length + 1) [] (cs.drop name.length) with
  | some (attrs, selfClosing, rest) =>
    some (String.ofList (name.map Char.toLower), attrs, selfClosing, rest)
  | none => none

/-- Reads a comment after its opening. -/
def commentBody (cs : List Char) : Token × List Char :=
  match cs with
  | '>' :: rest => (comment "", rest)
  | '-' :: '>' :: rest => (comment "", rest)
  | _ =>
    match Text.cut? "-->".toList cs, Text.cut? "--!>".toList cs with
    | some (body, rest), some (other, otherRest) =>
      if other.length < body.length then (comment (String.ofList other), otherRest)
      else (comment (String.ofList body), rest)
    | some (body, rest), none => (comment (String.ofList body), rest)
    | none, some (body, rest) => (comment (String.ofList body), rest)
    | none, none => (comment (String.ofList cs), [])

/-- Reads what ends at the next closing angle bracket. -/
def upToBracket (cs : List Char) : List Char × List Char :=
  (cs.takeWhile fun c => c != '>', (cs.dropWhile fun c => c != '>').drop 1)

/-- Whether a text opens with a word, case not counting. -/
def opensWith (word : List Char) (cs : List Char) : Bool :=
  word.isPrefixOf ((cs.take word.length).map Char.toLower)

/-- A stretch of text: the first character, whatever it is, and all up to the next `<`. -/
def textRun (c : Char) (rest : List Char) : Token × List Char :=
  let more := rest.takeWhile fun c => c != '<'
  (text (resolved false (c :: more)), rest.drop more.length)

/-- Takes the next token off a text; a tag that is not finished ends the text. -/
def next? (cs : List Char) : Option (Token × List Char) :=
  match cs with
  | [] => none
  | '<' :: '!' :: rest =>
    if opensWith "--".toList rest then some (commentBody (rest.drop 2))
    else if opensWith "doctype".toList rest then some (declaration, (upToBracket rest).2)
    else
      let (body, rest) := upToBracket rest
      some (comment (String.ofList body), rest)
  | '<' :: '?' :: rest =>
    let (body, rest) := upToBracket ('?' :: rest)
    some (comment (String.ofList body), rest)
  | '<' :: '/' :: c :: rest =>
    if c.isAlpha then
      match tag? (c :: rest) with
      | some (name, _, _, rest) => some (finish name, rest)
      | none => none
    else if c = '>' then some (declaration, rest)
    else
      let (body, rest) := upToBracket (c :: rest)
      some (comment (String.ofList body), rest)
  | '<' :: c :: rest =>
    if c.isAlpha then
      match tag? (c :: rest) with
      | some (name, attrs, selfClosing, rest) => some (start name attrs selfClosing, rest)
      | none => none
    else some (textRun '<' (c :: rest))
  | c :: rest => some (textRun c rest)

/-- Reads raw text up to the end tag of the element that holds it, the tag excluded. -/
def rawText (name : List Char) (fuel : Nat) (read : List Char) (cs : List Char) :
    List Char × List Char :=
  match fuel with
  | 0 => (read.reverse ++ cs, [])
  | fuel + 1 =>
    match cs with
    | [] => (read.reverse, [])
    | c :: rest =>
      let closes :=
        opensWith ('<' :: '/' :: name) cs
          && match cs.drop (name.length + 2) with
            | [] => false
            | c :: _ => endsTagName c
      if closes then (read.reverse, cs) else rawText name fuel (c :: read) rest

/-- A repeated attribute is left out. -/
theorem addAttr_of_mem (attrs : List (String × String)) (name value : String)
    (h : (attrs.any fun a => a.1 == name) = true) : addAttr attrs name value = attrs := by
  simp [addAttr, h]

end Token

end ReactiveView.Markup
