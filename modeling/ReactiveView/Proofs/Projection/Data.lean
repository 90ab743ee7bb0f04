import ReactiveView.Proofs.Binding.Values
import ReactiveView.Proofs.Projection.Numbers
import ReactiveView.World.Projection

/-!
# Values that have gone through data

A primitive value without infinite numbers comes back from its data as a value that is projected to the same
data, renders as the same text and is of the same types.
-/

set_option autoImplicit false

namespace ReactiveView

namespace Value

/-- A number is finite; nothing is asked of other values. -/
def Finite : Value → Prop
  | number x => (Binary.ofFloat x).isFinite = true
  | _ => True

/-- Two primitive values that show alike: as data, in a view, and against declared types. -/
structure Alike (v u : Value) : Prop where
  isPrimitive : v.isPrimitive = true
  plainJson : v.plainJson = u.plainJson
  outputText : v.outputText = u.outputText
  accepts : ∀ t : PrimitiveType, t.accepts v = t.accepts u

theorem Alike.rfl {v : Value} (h : v.isPrimitive = true) : v.Alike v := ⟨h, .refl _, .refl _, fun _ => .refl _⟩

theorem alike_of_integer? {x y : Float} {n : Int} (hn : n.natAbs < 2 ^ 53)
    (hx : (Binary.ofFloat x).integer? = some n) (hy : (Binary.ofFloat y).integer? = some n) :
    (number x).Alike (number y) where
  isPrimitive := .refl _
  plainJson := (Json.ofFloat_of_integer? hx hn).trans (Json.ofFloat_of_integer? hy hn).symm
  outputText := (viewText_of_integer? hx hn).trans (viewText_of_integer? hy hn).symm
  accepts t := by
    cases t <;> simp only [PrimitiveType.accepts, Binary.isFinite_of_integer? hx,
      Binary.isFinite_of_integer? hy, Binary.isWhole_of_integer? hx, Binary.isWhole_of_integer? hy,
      Binary.isNonNegative_of_integer? hx, Binary.isNonNegative_of_integer? hy]

/-- A primitive value comes back from data alike. -/
theorem alike_ofJson_plainJson {v : Value} (hv : v.isPrimitive = true) (hfin : v.Finite) :
    (ofJson v.plainJson).Alike v := by
  cases v with
  | null => exact .rfl rfl
  | bool b => exact .rfl rfl
  | text s => exact .rfl rfl
  | number x =>
    rcases Json.ofFloat_cases hfin with h | ⟨n, hn, hx, h⟩
    · have hsame : ofJson (number x).plainJson = number x := by
        change ofJson (Json.ofFloat x) = _
        rw [h]
        rfl
      rw [hsame]
      exact .rfl rfl
    · have hsame : ofJson (number x).plainJson = number (Json.floatOfInt n) := by
        change ofJson (Json.ofFloat x) = _
        rw [h]
        rfl
      rw [hsame]
      exact alike_of_integer? hn (integer?_floatOfInt hn) hx
  | _ => cases hv

/-- A primitive value is projected alone. -/
theorem toJson_of_isPrimitive {v : Value} (hv : v.isPrimitive = true) (ofInst : InstanceId → Json)
    (ofColl : CollectionId → Json) : v.toJson ofInst ofColl = v.plainJson := by
  cases v with
  | null => rfl
  | bool b => rfl
  | text s => rfl
  | number x => rfl
  | _ => cases hv

end Value

end ReactiveView
