import ReactiveView.Format
import ReactiveView.Text.Blank
import ReactiveView.Text.Scan

/-!
# The words of templates

The small languages that occur inside templates, as recognisers on characters:

* names of properties (strict or loose), of attributes, of classes, and the keys under which nodes
  are exposed;
* the inside of a text substitution, `[types] [this.][attributes.]name`;
* the inside of an element substitution, `Class this.name` or `for Class of this.name`;
* the header of a class, `Name` or `Name extends Parent`.

All letters and digits here are ASCII. The parts of a phrase are separated by runs of blanks, so
each phrase is recognised on its list of words.

`isPropertyName_mono` states that a strict property name is also a loose one.
-/

set_option autoImplicit false

namespace ReactiveView.Template

open ReactiveView.Text (words splitAt)

/-! ## Character classes -/

/-- A small ASCII letter. -/
def isLower (c : Char) : Bool := 'a' ≤ c && c ≤ 'z'

/-- A capital ASCII letter. -/
def isUpper (c : Char) : Bool := 'A' ≤ c && c ≤ 'Z'

/-- An ASCII letter. -/
def isLetter (c : Char) : Bool := isLower c || isUpper c

/-- An ASCII digit. -/
def isNumeral (c : Char) : Bool := '0' ≤ c && c ≤ '9'

/-- An ASCII letter or digit. -/
def isAlnum (c : Char) : Bool := isLetter c || isNumeral c

/-- A first character followed by any number of later ones. -/
def leads (first later : Char → Bool) : List Char → Bool
  | [] => false
  | c :: rest => first c && rest.all later

/-! ## Names -/

/-- The names that every instance already has. -/
def reservedNames : List String :=
  ["attributes", "on", "detach", "attach", "assign", "namespace", "constructor", "toObject",
    "toJSON", "dispatch", "prototype"]

/-- A small letter, then letters and digits. -/
def isStrictShape (cs : List Char) : Bool := leads isLower isAlnum cs

/-- A letter, underscore or dollar sign, then these and digits. -/
def isIdentifier (cs : List Char) : Bool :=
  leads (fun c => isLetter c || c == '_' || c == '$') (fun c => isAlnum c || c == '_' || c == '$') cs

/-- Whether a name starts with two underscores. -/
def startsWithUnderscores : List Char → Bool
  | '_' :: '_' :: _ => true
  | _ => false

/-- Whether a property can have this name. -/
def isPropertyName (strict : Bool) (name : String) : Bool :=
  (if strict then isStrictShape name.toList else isIdentifier name.toList)
    && !startsWithUnderscores name.toList && !reservedNames.contains name

/-- Whether an attribute can have this name: a small letter, then small letters, digits, hyphens. -/
def isAttributeName (name : String) : Bool :=
  leads isLower (fun c => isLower c || isNumeral c || c == '-') name.toList

/-- Whether a node can be exposed under this key. -/
def isExposeKey (key : String) : Bool :=
  leads isLetter (fun c => isAlnum c || c == '_') key.toList

/-- Whether a class name stands for instances of any class. -/
def isAnyElement (name : String) : Bool := name == "Element" || name == "OOML.Element"

/-- Parts of letters with points between them. -/
def isDottedWord (cs : List Char) : Bool :=
  (splitAt '.' cs).all fun part => !part.isEmpty && part.all isLetter

/-- Parts of letters with points between them, the last of which may go on with digits. -/
def isDottedClass (cs : List Char) : Bool :=
  match (splitAt '.' cs).reverse with
  | [] => false
  | last :: earlier =>
    leads isLetter isAlnum last && earlier.all fun part => !part.isEmpty && part.all isLetter

/-! ## Phrases -/

/-- Drops a word at the front if something remains after it. -/
def dropLead? (lead : List Char) (cs : List Char) : Option (List Char) :=
  if lead.isPrefixOf cs ∧ lead.length < cs.length then some (cs.drop lead.length) else none

/-- The source that a substitution names; `this.` and `attributes.` count as such only if a name is
left after them. -/
def sourceOf (cs : List Char) : Source :=
  let rest := (dropLead? "this.".toList cs).getD cs
  match dropLead? "attributes.".toList rest with
  | some name => .attr (String.ofList name)
  | none => .property (String.ofList rest)

/-- Words of letters with bars between them. -/
def isTypeList (cs : List Char) : Bool :=
  (splitAt '|' cs).all fun part => !part.isEmpty && part.all isLetter

/-- The inside of a text substitution: the types it declares, if any, and its source. -/
def textSubstitution? (code : List Char) : Option (Option String × Source) :=
  match words code with
  | [name] => some (none, sourceOf name)
  | [types, name] => if isTypeList types then some (some (String.ofList types), sourceOf name) else none
  | _ => none

/-- An element substitution: an array or a single slot, the class, and the property. -/
structure ElementPhrase where
  isArray : Bool
  className : String
  property : String
deriving DecidableEq, Repr

/-- The property named by `this.name`. -/
def thisName? (cs : List Char) : Option String :=
  match dropLead? "this.".toList cs with
  | some name =>
    if name.all fun c => isAlnum c || c == '_' then some (String.ofList name) else none
  | none => none

/-- The inside of an element substitution. -/
def elementSubstitution? (code : List Char) : Option ElementPhrase :=
  match words code with
  | [className, name] =>
    if isDottedWord className then
      (thisName? name).map fun p => ⟨false, String.ofList className, p⟩
    else none
  | [lead, className, link, name] =>
    if lead = "for".toList ∧ link = "of".toList ∧ isDottedWord className then
      (thisName? name).map fun p => ⟨true, String.ofList className, p⟩
    else none
  | _ => none

/-- The header of a class: its name and its parent's. -/
def classPhrase? (declaration : List Char) : Option (String × Option String) :=
  match words declaration with
  | [name] => if leads isLetter isAlnum name then some (String.ofList name, none) else none
  | [name, link, parent] =>
    if leads isLetter isAlnum name ∧ link = "extends".toList ∧ isDottedClass parent then
      some (String.ofList name, some (String.ofList parent))
    else none
  | _ => none

/-! ## Laws -/

/-- A weaker pair of classes recognises more. -/
theorem leads_mono {f l f' l' : Char → Bool} (hf : ∀ c, f c = true → f' c = true)
    (hl : ∀ c, l c = true → l' c = true) (cs : List Char) (h : leads f l cs = true) :
    leads f' l' cs = true := by
  cases cs with
  | nil => exact h
  | cons c rest =>
    simp only [leads, Bool.and_eq_true, List.all_eq_true] at h ⊢
    exact ⟨hf c h.1, fun d hd => hl d (h.2 d hd)⟩

/-- A strict property name is a loose one. -/
theorem isPropertyName_mono (name : String) (h : isPropertyName true name = true) :
    isPropertyName false name = true := by
  simp only [isPropertyName, Bool.and_eq_true, if_true] at h ⊢
  refine ⟨⟨?_, h.1.2⟩, h.2⟩
  refine leads_mono ?_ ?_ _ h.1.1
  · intro c hc; simp [isLetter, hc]
  · intro c hc; simp [hc]

end ReactiveView.Template
