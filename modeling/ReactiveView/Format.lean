import ReactiveView.Dict

/-!
# Formats

A format is a text with holes: fixed parts, and parts that are filled with the text of a property or
an attribute. The holes are parts that stand empty; for each source of text the format lists the
positions of its holes.

`render` fills every hole at once, `fill` the holes of one source. The statements say that filling
keeps the number of parts (`length_fill`) and every part at a position that is not filled
(`getElem?_fillAt_of_not_mem`).
-/

set_option autoImplicit false

namespace ReactiveView

/-- Where the text of a hole comes from. -/
inductive Source where
  | property (name : String)
  | attr (name : String)
deriving DecidableEq, Repr

namespace Source

/-- The name of the property or attribute. -/
def name : Source → String
  | property name => name
  | attr name => name

/-- Properties come before attributes, and within one kind names are in order. -/
def precedes : Source → Source → Bool
  | property a, property b => a < b
  | property _, attr _ => true
  | attr _, property _ => false
  | attr a, attr b => a < b

instance : LT Source := ⟨fun a b => a.precedes b = true⟩

instance : DecidableLT Source := fun a b => inferInstanceAs (Decidable (a.precedes b = true))

end Source

/-- Fixed parts and holes in the order of the text, and the holes of each source. -/
structure Format where
  parts : List String := []
  slots : Dict Source (List Nat) := []
deriving Repr

namespace Format

/-- Puts a text at each of the listed positions. -/
def fillAt (parts : List String) (positions : List Nat) (text : String) : List String :=
  positions.foldl (fun parts i => parts.set i text) parts

/-- Fills the holes of one source among the parts. -/
def fill (slots : Dict Source (List Nat)) (parts : List String) (source : Source) (text : String) :
    List String :=
  match slots.get? source with
  | some positions => fillAt parts positions text
  | none => parts

/-- The parts one after the other. -/
def joined (parts : List String) : String := String.join parts

/-- The sources of a format in order. -/
def sources (f : Format) : List Source := f.slots.keys

/-- The properties among the sources of a format. -/
def properties (f : Format) : List String :=
  f.sources.filterMap fun s =>
    match s with
    | .property name => some name
    | .attr _ => none

/-- The parts with every hole filled. -/
def filled (f : Format) (textOf : Source → String) : List String :=
  f.slots.foldl (fun parts e => fillAt parts e.2 (textOf e.1)) f.parts

/-- The text of a format whose sources have the given texts. -/
def render (f : Format) (textOf : Source → String) : String := joined (f.filled textOf)

/-- Adds a fixed part at the end; an empty one is left out. -/
def addText (f : Format) (text : String) : Format :=
  if text.isEmpty then f else { f with parts := f.parts ++ [text] }

/-- Adds a hole at the end. -/
def addHole (f : Format) (source : Source) : Format :=
  { parts := f.parts ++ [""], slots := f.slots.append source f.parts.length }

/-- Filling keeps the number of parts. -/
@[simp] theorem length_fillAt (parts : List String) (positions : List Nat) (text : String) :
    (fillAt parts positions text).length = parts.length := by
  unfold fillAt
  induction positions generalizing parts with
  | nil => rfl
  | cons i rest ih => simpa using ih (parts.set i text)

/-- Filling keeps the number of parts. -/
@[simp] theorem length_fill (slots : Dict Source (List Nat)) (parts : List String)
    (source : Source) (text : String) : (fill slots parts source text).length = parts.length := by
  unfold fill
  split <;> simp

/-- A part at none of the filled positions stays. -/
theorem getElem?_fillAt_of_not_mem (parts : List String) (positions : List Nat) (text : String)
    (i : Nat) (h : i ∉ positions) : (fillAt parts positions text)[i]? = parts[i]? := by
  unfold fillAt
  induction positions generalizing parts with
  | nil => rfl
  | cons j rest ih =>
    simp only [List.mem_cons, not_or] at h
    simp only [List.foldl_cons]
    rw [ih _ h.2, List.getElem?_set_ne (Ne.symm h.1)]

end Format

end ReactiveView
