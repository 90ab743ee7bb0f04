import ReactiveView.Json.Printer
import ReactiveView.Value.Text
import ReactiveView.World.Basic

/-!
# Instances as data and as debugging text

An instance is projected to an object with its properties, a collection to the list of its items.
Projections follow containment downward, so the number of instances bounds their depth.
-/

set_option autoImplicit false

namespace ReactiveView

/-- The largest indentation that data is printed with. -/
def maxIndentation : Nat := 10

/-- A stretch of a list between two positions, both clamped; a missing one stands for an end. -/
def stretch {α : Type} (items : List α) (start stop : Option Nat) : List α :=
  let stop := min (stop.getD items.length) items.length
  let start := min (start.getD 0) stop
  (items.take stop).drop start

/-- Without positions the stretch is the whole list. -/
theorem stretch_none {α : Type} (items : List α) : stretch items none none = items := by
  simp [stretch]

namespace World

/-- An instance as data, at most `fuel` levels deep. -/
def instanceData (w : World) : Nat → InstanceId → Json
  | 0, _ => .null
  | fuel + 1, i =>
    match w.inst? i, w.classOf? i with
    | some x, some c =>
      .object (Dict.ofList (c.descriptor.propertyNames.zip (x.values.map fun v =>
        v.toJson (w.instanceData fuel) fun coll =>
          .array ((w.itemsOf coll).map (w.instanceData fuel)))))
    | _, _ => .null

/-- The number of levels that a projection can have. -/
def depthBound (w : World) : Nat := w.instances.size + 1

/-- An instance as data. -/
def toData (w : World) (i : InstanceId) : Json := w.instanceData w.depthBound i

/-- A stretch of the items of a collection as data. -/
def itemsData (w : World) (c : CollectionId) (start stop : Option Nat) : Json :=
  .array ((stretch (w.itemsOf c) start stop).map w.toData)

/-- A stretch of the items of a collection as text. -/
def itemsText (w : World) (c : CollectionId) (start stop : Option Nat) (indentation : Nat) :
    Except Error String :=
  if maxIndentation < indentation then .error (.badIndentation indentation)
  else if indentation = 0 then .ok (w.itemsData c start stop).compact
  else .ok ((w.itemsData c start stop).pretty indentation)

/-! ## Debugging texts -/

/-- The debugging text of an instance. -/
def instanceDebug (w : World) (i : InstanceId) : String := s!"Instance({w.className i})"

/-- The debugging text of a class. -/
def classDebug (c : Class) : String := s!"OomlClass({c.name})"

/-- The debugging text of a list of texts. -/
def listDebug (texts : List String) : String := "[" ++ Text.joinStrings ", " texts ++ "]"

/-- The debugging text of a collection. -/
def collectionDebug (w : World) (c : CollectionId) : String :=
  match w.coll? c with
  | some x =>
    "Collection \x7b property: " ++ Text.quoted x.property ++ ", element: ElementType("
      ++ x.element.name ++ "), items: " ++ listDebug (x.items.map w.instanceDebug) ++ " \x7d"
  | none => ""

/-- The debugging text of a value. -/
def valueDebug (w : World) (v : Value) : String := v.debugText w.instanceDebug w.collectionDebug

/-- The debugging text of a namespace. -/
def spaceDebug (ns : Namespace) : String :=
  "Namespace \x7b classes: " ++ listDebug (ns.classes.keys.map Text.quoted) ++ ", objects: "
    ++ listDebug (ns.objects.keys.map Text.quoted) ++ " \x7d"

/-- The data of a collection is the list of the data of its items. -/
theorem itemsData_all (w : World) (c : CollectionId) :
    w.itemsData c none none = .array ((w.itemsOf c).map w.toData) := by
  simp [itemsData, stretch_none]

end World

end ReactiveView
