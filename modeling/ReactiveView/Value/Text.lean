import ReactiveView.Value
import ReactiveView.Text.Quoted
import ReactiveView.Text.Scan

/-!
# Values as data and as debugging text

Both forms are taken part by part. What an instance or a collection turns into depends on the state
that they live in, so it is a parameter here.

`ofJson_plainJson_text` says that a text comes back from data as it was.
-/

set_option autoImplicit false

namespace ReactiveView.Value

section Data

variable (ofInst : InstanceId → Json) (ofColl : CollectionId → Json)

mutual

/-- A value as plain data. -/
def toJson : Value → Json
  | null => .null
  | bool b => .bool b
  | number x => Json.ofFloat x
  | text s => .text s
  | inst i => ofInst i
  | coll c => ofColl c
  | array items => .array (toJsonItems items)
  | object fields => .object (toJsonFields fields)

/-- A list of values as plain data. -/
def toJsonItems : List Value → List Json
  | [] => []
  | v :: vs => toJson v :: toJsonItems vs

/-- A list of entries as members. -/
def toJsonFields : List (String × Value) → List (String × Json)
  | [] => []
  | (k, v) :: vs => (k, toJson v) :: toJsonFields vs

end

end Data

section Debug

variable (ofInst : InstanceId → String) (ofColl : CollectionId → String)

mutual

/-- The debugging text of a value. -/
def debugText : Value → String
  | null => "null"
  | bool b => if b then "true" else "false"
  | number x => Decimal.viewText x
  | text s => Text.quoted s
  | inst i => ofInst i
  | coll c => ofColl c
  | array items => "[" ++ Text.joinStrings ", " (debugItems items) ++ "]"
  | object fields => "\x7b" ++ Text.joinStrings ", " (debugFields fields) ++ "\x7d"

/-- The debugging texts of a list of values. -/
def debugItems : List Value → List String
  | [] => []
  | v :: vs => debugText v :: debugItems vs

/-- The debugging texts of a list of entries. -/
def debugFields : List (String × Value) → List String
  | [] => []
  | (k, v) :: vs => (Text.quoted k ++ ": " ++ debugText v) :: debugFields vs

end

end Debug

/-- A value without instances and collections as plain data. -/
def plainJson (v : Value) : Json := v.toJson (fun _ => .null) (fun _ => .null)

/-- The debugging text of a value without instances and collections. -/
def plainDebug (v : Value) : String := v.debugText (fun _ => "") (fun _ => "")

/-- A text comes back from data as it was. -/
theorem ofJson_plainJson_text (s : String) : ofJson (text s).plainJson = text s := by
  simp [plainJson, toJson, ofJson]

end ReactiveView.Value
