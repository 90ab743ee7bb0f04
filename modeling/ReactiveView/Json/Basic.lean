import ReactiveView.Dict
import ReactiveView.Decimal.Binary

/-!
# Data values

`Json` is plain data: what host programs hand over as text and what instances are projected to. A
number keeps whether it was written as a whole number that fits sixty-four bits or not, because
settings accept only the former. The members of an object are an ordered dictionary.

The statement `Number.toFloat_integer` gives the number that a whole number denotes.
-/

set_option autoImplicit false

namespace ReactiveView

/-- A number of data text: a whole number that fits sixty-four bits, or a floating-point number. -/
inductive Json.Number where
  | integer (n : Int)
  | float (x : Float)

/-- Plain data. -/
inductive Json where
  | null
  | bool (b : Bool)
  | number (n : Json.Number)
  | text (s : String)
  | array (items : List Json)
  | object (members : List (String × Json))

instance : Inhabited Json := ⟨.null⟩

namespace Json

/-- The floating-point number nearest to an integer. -/
def floatOfInt (n : Int) : Float :=
  if n < 0 then -(Float.ofScientific n.natAbs false 0) else Float.ofScientific n.natAbs false 0

/-- The floating-point number a number denotes. -/
def Number.toFloat : Number → Float
  | integer n => floatOfInt n
  | float x => x

/-- A floating-point number as data: whole numbers below `2 ^ 53` become whole numbers, whereby a
negative zero loses its sign, and what is not finite becomes null. -/
def ofFloat (x : Float) : Json :=
  let b := Binary.ofFloat x
  if b.isFinite then
    match b.integer? with
    | some n => if n.natAbs < Nat.pow 2 53 then number (.integer n) else number (.float x)
    | none => number (.float x)
  else null

/-- The member of an object under a key. -/
def get? (j : Json) (key : String) : Option Json :=
  match j with
  | object members => Dict.get? members key
  | _ => none

/-- A whole number denotes its nearest floating-point number. -/
theorem Number.toFloat_integer (n : Int) : (Number.integer n).toFloat = floatOfInt n := rfl

end Json

end ReactiveView
