import ReactiveView.Error
import ReactiveView.Text.Scan
import ReactiveView.Value

/-!
# Declared types

A type declaration lists type tags with bars between them. Every tag must be known, none may occur
twice, and at most one of them may come from the numeric family. A property or attribute with
declared types accepts the primitive values that match one of them.

`parseTypes` reads a declaration; `typesText` writes one. `Declarable` says which lists of types can
be declared at all.
-/

set_option autoImplicit false

namespace ReactiveView

/-- The primitive types that a declaration can name. -/
inductive PrimitiveType where
  | null
  | boolean
  | text
  | number
  | float
  | integer
  | natural
deriving DecidableEq, Repr

namespace PrimitiveType

/-- The word that stands for a type in declarations. -/
def tag : PrimitiveType → String
  | null => "null"
  | boolean => "boolean"
  | text => "string"
  | number => "number"
  | float => "float"
  | integer => "integer"
  | natural => "natural"

/-- All types. -/
def all : List PrimitiveType := [null, boolean, text, number, float, integer, natural]

/-- The type a word stands for. -/
def ofTag? (word : String) : Option PrimitiveType := all.find? fun t => t.tag == word

/-- Whether a type belongs to the numeric family. -/
def isNumeric : PrimitiveType → Bool
  | number | float | integer | natural => true
  | null | boolean | text => false

/-- Whether a value is of a type. -/
def accepts : PrimitiveType → Value → Bool
  | null, .null => true
  | boolean, .bool _ => true
  | text, .text _ => true
  | number, .number _ => true
  | float, .number x => (Binary.ofFloat x).isFinite
  | integer, .number x => (Binary.ofFloat x).isWhole
  | natural, .number x => (Binary.ofFloat x).isWhole && (Binary.ofFloat x).isNonNegative
  | _, _ => false

end PrimitiveType

/-- Reads the remaining tags of a declaration after the types `read`. -/
def parseTags (read : List PrimitiveType) : List String → Except Error (List PrimitiveType)
  | [] => .ok read
  | word :: words =>
    match PrimitiveType.ofTag? word with
    | none => .error (.unknownType word)
    | some t =>
      if read.contains t then .error (.repeatedType word)
      else if t.isNumeric && read.any PrimitiveType.isNumeric then .error (.secondNumericType word)
      else parseTags (read ++ [t]) words

/-- Reads a type declaration. -/
def parseTypes (declaration : String) : Except Error (List PrimitiveType) :=
  parseTags [] ((Text.splitAt '|' declaration.toList).map String.ofList)

/-- A list of types written as a declaration. -/
def typesText (ts : List PrimitiveType) : String :=
  String.ofList (Text.joinWith ['|'] (ts.map fun t => t.tag.toList))

/-- A list of types as messages name it. -/
def describeTypes (ts : List PrimitiveType) : String :=
  Text.joinStrings ", " (ts.map PrimitiveType.tag)

/-- Whether a value is of one of the types. -/
def acceptsValue (ts : List PrimitiveType) (v : Value) : Bool := ts.any (·.accepts v)

/-- The value of a property or attribute with no default of its own. -/
def defaultFor : Option (List PrimitiveType) → Value
  | none => .null
  | some ts =>
    if ts.contains .null then .null
    else if ts.any PrimitiveType.isNumeric then .number 0.0
    else if ts.contains .boolean then .bool false
    else if ts.contains .text then .text ""
    else .null

/-- Whether two declarations list the same types, in any order. -/
def sameTypes (a b : List PrimitiveType) : Bool := a.all b.contains && b.all a.contains

/-- The lists that can be declared: not empty, without repetition, with at most one numeric type. -/
def Declarable (ts : List PrimitiveType) : Prop :=
  ts ≠ [] ∧ ts.Nodup ∧ (ts.filter PrimitiveType.isNumeric).length ≤ 1

/-- Reading back the tag of a type gives the type. -/
theorem PrimitiveType.ofTag?_tag (t : PrimitiveType) : ofTag? t.tag = some t := by
  cases t <;> rfl

/-- A word that stands for a type is its tag. -/
theorem PrimitiveType.tag_of_ofTag? (word : String) (t : PrimitiveType)
    (h : ofTag? word = some t) : t.tag = word := by
  have := List.find?_some h
  simpa using this

end ReactiveView
