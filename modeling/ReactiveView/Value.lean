import ReactiveView.Identity
import ReactiveView.Dict
import ReactiveView.Decimal.Style
import ReactiveView.Json.Basic

/-!
# Values

A value is what a property or an attribute holds and what a caller hands in. Null, booleans,
numbers and texts are *primitive*: only these can be rendered into a view. Instances and collections
are referred to by their identity; plain arrays and objects are material from which element and
array properties make instances.

Stated here: rendering is empty on everything that is not primitive (`outputText_of_not_primitive`),
and a merge answers only for two objects (`mergedWith_eq_none_iff`).
-/

set_option autoImplicit false

namespace ReactiveView

/-- A dynamic value. -/
inductive Value where
  | null
  | bool (b : Bool)
  | number (x : Float)
  | text (s : String)
  | inst (i : InstanceId)
  | coll (c : CollectionId)
  | array (items : List Value)
  | object (fields : List (String × Value))

namespace Value

instance : Inhabited Value := ⟨null⟩

/-- Null, booleans, numbers and texts. -/
def isPrimitive : Value → Bool
  | null | bool _ | number _ | text _ => true
  | inst _ | coll _ | array _ | object _ => false

/-- Whether the value is null. -/
def isNull : Value → Bool
  | null => true
  | _ => false

/-- The boolean a value is. -/
def bool? : Value → Option Bool
  | bool b => some b
  | _ => none

/-- The number a value is. -/
def number? : Value → Option Float
  | number x => some x
  | _ => none

/-- The text a value is. -/
def text? : Value → Option String
  | text s => some s
  | _ => none

/-- The instance a value is. -/
def inst? : Value → Option InstanceId
  | inst i => some i
  | _ => none

/-- The collection a value is. -/
def coll? : Value → Option CollectionId
  | coll c => some c
  | _ => none

/-- The name of a value's shape. -/
def shapeName : Value → String
  | null => "null"
  | bool _ => "boolean"
  | number _ => "number"
  | text _ => "string"
  | inst _ => "instance"
  | coll _ => "collection"
  | array _ => "array"
  | object _ => "object"

/-- The text a primitive value leaves in a view; any other value leaves none. -/
def outputText : Value → String
  | null => ""
  | bool b => if b then "true" else "false"
  | number x => Decimal.viewText x
  | text s => s
  | inst _ | coll _ | array _ | object _ => ""

/-- The entries of the first object overridden by those of the second. -/
def mergedWith : Value → Value → Option Value
  | object base, object extra => some (object (Dict.union base extra))
  | _, _ => none

/-! ## Equality -/

mutual

/-- Equality of values. Instances and collections are equal by identity, numbers by value (so what is
not a number equals nothing), arrays and objects part by part. -/
def same : Value → Value → Bool
  | null, null => true
  | bool a, bool b => a == b
  | number a, number b => (Binary.ofFloat a).sameValue (Binary.ofFloat b)
  | text a, text b => a == b
  | inst a, inst b => a == b
  | coll a, coll b => a == b
  | array a, array b => sameItems a b
  | object a, object b => sameFields a b
  | _, _ => false

/-- Equality of lists of values. -/
def sameItems : List Value → List Value → Bool
  | [], [] => true
  | a :: as, b :: bs => same a b && sameItems as bs
  | _, _ => false

/-- Equality of lists of entries. -/
def sameFields : List (String × Value) → List (String × Value) → Bool
  | [], [] => true
  | (k, a) :: as, (l, b) :: bs => k == l && same a b && sameFields as bs
  | _, _ => false

end

/-! ## From data -/

mutual

/-- The value that plain data stands for. -/
def ofJson : Json → Value
  | .null => null
  | .bool b => bool b
  | .number n => number n.toFloat
  | .text s => text s
  | .array items => array (ofJsonItems items)
  | .object members => object (ofJsonMembers members)

/-- The values of a list of data. -/
def ofJsonItems : List Json → List Value
  | [] => []
  | j :: js => ofJson j :: ofJsonItems js

/-- The values of a list of members. -/
def ofJsonMembers : List (String × Json) → List (String × Value)
  | [] => []
  | (k, j) :: js => (k, ofJson j) :: ofJsonMembers js

end

/-! ## The handles inside a value -/

mutual

/-- The instances that occur in a value, at any depth. -/
def instances : Value → List InstanceId
  | inst i => [i]
  | array items => instancesOfItems items
  | object fields => instancesOfFields fields
  | _ => []

/-- The instances that occur in a list of values. -/
def instancesOfItems : List Value → List InstanceId
  | [] => []
  | v :: vs => instances v ++ instancesOfItems vs

/-- The instances that occur in a list of entries. -/
def instancesOfFields : List (String × Value) → List InstanceId
  | [] => []
  | (_, v) :: vs => instances v ++ instancesOfFields vs

end

mutual

/-- The collections that occur in a value, at any depth. -/
def collections : Value → List CollectionId
  | coll c => [c]
  | array items => collectionsOfItems items
  | object fields => collectionsOfFields fields
  | _ => []

/-- The collections that occur in a list of values. -/
def collectionsOfItems : List Value → List CollectionId
  | [] => []
  | v :: vs => collections v ++ collectionsOfItems vs

/-- The collections that occur in a list of entries. -/
def collectionsOfFields : List (String × Value) → List CollectionId
  | [] => []
  | (_, v) :: vs => collections v ++ collectionsOfFields vs

end

/-! ## Laws -/

/-- What is not primitive leaves no text. -/
theorem outputText_of_not_primitive (v : Value) (h : v.isPrimitive = false) : v.outputText = "" := by
  cases v <;> simp_all [isPrimitive, outputText]

/-- Only two objects can be merged. -/
theorem mergedWith_eq_none_iff (a b : Value) :
    a.mergedWith b = none ↔ ¬ ((∃ d, a = object d) ∧ ∃ e, b = object e) := by
  cases a <;> cases b <;> simp [mergedWith]

end Value

end ReactiveView
