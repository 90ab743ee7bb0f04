import ReactiveView.Error
import ReactiveView.Json.Basic

/-!
# Settings of a namespace

A namespace restricts property names or not, and waits a number of milliseconds before deferred
writes are carried out. Settings are read from a data object whose members are looked at in key
order; each setting may be spelled in either of two ways, but not in both. The first member that is
unknown, repeated or of the wrong shape decides the error.

`ofJson_of_not_object` says that nothing but an object is accepted.
-/

set_option autoImplicit false

namespace ReactiveView

/-- What a namespace is set up with. -/
structure Settings where
  /-- Whether property names start with a small letter and hold letters and digits only. -/
  strictNames : Bool := true
  /-- Milliseconds from the last deferred write to the time it is due. -/
  writeDelay : Nat := 50
deriving DecidableEq, Repr

namespace Settings

/-- Settings of which some have been read. -/
structure Read where
  strictNames : Option Bool := none
  writeDelay : Option Nat := none

/-- Reads one member. -/
def Read.member (r : Read) (key : String) (v : Json) : Except Error Read :=
  if key = "strictPropertyNames" ∨ key = "strict_property_names" then
    match r.strictNames, v with
    | none, .bool b => .ok { r with strictNames := some b }
    | _, _ => .error .badSetting
  else if key = "writeDelayMs" ∨ key = "write_delay_ms" then
    match r.writeDelay, v with
    | none, .number (.integer n) =>
      if 0 ≤ n then .ok { r with writeDelay := some n.toNat } else .error .badSetting
    | _, _ => .error .badSetting
  else .error .unknownSetting

/-- Reads the members in order. -/
def Read.members (r : Read) : List (String × Json) → Except Error Read
  | [] => .ok r
  | (key, v) :: rest =>
    match r.member key v with
    | .ok r => r.members rest
    | .error e => .error e

/-- The settings that a data object spells out, the others at their defaults. -/
def ofJson (j : Json) : Except Error Settings :=
  match j with
  | .object members =>
    match ({} : Read).members members with
    | .ok r => .ok ⟨r.strictNames.getD true, r.writeDelay.getD 50⟩
    | .error e => .error e
  | _ => .error .settingsNotObject

/-- Only an object spells out settings. -/
theorem ofJson_of_not_object (j : Json) (h : ∀ members, j ≠ .object members) :
    ofJson j = .error .settingsNotObject := by
  cases j <;> simp_all [ofJson]

end Settings

end ReactiveView
