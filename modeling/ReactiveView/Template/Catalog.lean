import ReactiveView.Files
import ReactiveView.Markup.Reader
import ReactiveView.Template.Header

/-!
# Catalogues of template files

A template file declares classes and instantiates objects. Its catalogue entry lists the headers of
its class templates and the instantiations it asks for, both in document order and without compiling
anything. `discover` makes the catalogue of all template files at or below a place; one file that
cannot be read or has a bad header fails it.

`discover_of_missing` states what happens at a place that does not exist.
-/

set_option autoImplicit false

namespace ReactiveView.Template

/-- The attribute of an element that is to be replaced by an object. -/
def markerAttr : String := "ooml-instantiate"

/-- The extension of template files. -/
def fileExtension : String := "ooml"

/-- Whether an element is to be replaced by an object. -/
def isMarker (m : Markup) : Bool := (m.attr? markerAttr).isSome

/-- What a template file declares. -/
structure CatalogEntry where
  path : String
  source : String
  classes : List Header
  instantiations : List String

/-- The headers of class templates, up to the first bad one. -/
def readHeaders : List Markup → Except Error (List Header)
  | [] => .ok []
  | m :: ms =>
    match readHeader m with
    | .error e => .error e
    | .ok h => (readHeaders ms).map fun hs => h :: hs

/-- Reads a template file. -/
def CatalogEntry.read (f : FileAt) : Except Error CatalogEntry := do
  let source ← FileTree.readText f
  let document := Markup.Document.read source
  let classes ← readHeaders (classTemplates document)
  return {
    path := FileTree.pathText f.place
    source := source
    classes := classes
    instantiations := (Markup.findIn isMarker document).filterMap fun m => m.attr? markerAttr }

/-- Reads template files, up to the first that cannot be read. -/
def readAll : List FileAt → Except Error (List CatalogEntry)
  | [] => .ok []
  | f :: fs =>
    match CatalogEntry.read f with
    | .error e => .error e
    | .ok entry => (readAll fs).map fun entries => entry :: entries

/-- The template files at or below a place. -/
def templateFiles (t : FileTree) (place : List String) : List FileAt :=
  t.filesBelow place fileExtension

/-- The catalogue of the template files at or below a place. -/
def discover (t : FileTree) (place : List String) : Except Error (List CatalogEntry) :=
  if t.hasPlace place then readAll (templateFiles t place)
  else .error (.unreadable (FileTree.pathText place) "directory does not exist")

/-- A place that does not exist has no catalogue. -/
theorem discover_of_missing (t : FileTree) (place : List String) (h : t.hasPlace place = false) :
    discover t place
      = .error (.unreadable (FileTree.pathText place) "directory does not exist") := by
  simp [discover, h]

end ReactiveView.Template
