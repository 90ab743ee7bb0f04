import ReactiveView.Error
import ReactiveView.Text.Scan

/-!
# File trees

The files that a program is given: each with its path below a fixed directory and its bytes, and
directories that may be empty. A path is looked at by its components; files are listed in the
lexicographic order of these, not in that of the path texts.

The extension of a name is what follows its last dot, provided that something stands before the dot.
`extension?_of_leading_dot` states that a name which only starts with a dot has none.
-/

set_option autoImplicit false

namespace ReactiveView

/-- A file below the directory at hand with its bytes, or a directory. -/
inductive FileEntry where
  | file (path : String) (content : List UInt8)
  | directory (path : String)
deriving DecidableEq

/-- The files and directories below the directory at hand. -/
abbrev FileTree := List FileEntry

/-- A file with the components of its path. -/
structure FileAt where
  place : List String
  content : List UInt8

namespace FileTree

/-- The components of a path. -/
def components (path : String) : List String :=
  ((Text.splitAt '/' path.toList).map String.ofList).filter fun c => c != "" && c != "."

/-- A path written out; the directory at hand is a dot. -/
def pathText (place : List String) : String :=
  if place.isEmpty then "." else Text.joinStrings "/" place

/-- What follows the last dot of a reversed name, if something stands before the dot. -/
def extensionOf? (reversed : List Char) : Option (List Char) :=
  match Text.cut? ['.'] reversed with
  | some (ext, before) => if before.isEmpty then none else some ext.reverse
  | none => none

/-- The extension of a file name. -/
def extension? (name : String) : Option String :=
  (extensionOf? name.toList.reverse).map String.ofList

/-- The components of the path of an entry. -/
def placeOf : FileEntry → List String
  | .file path _ => components path
  | .directory path => components path

/-- Whether a place is a file, or a directory because something is at or below it. -/
def hasPlace (t : FileTree) (place : List String) : Bool :=
  place.isEmpty || t.any fun e => place.isPrefixOf (placeOf e)

/-- Puts a file at its place in a sorted list. -/
def insertFile (f : FileAt) : List FileAt → List FileAt
  | [] => [f]
  | g :: rest => if f.place < g.place then f :: g :: rest else g :: insertFile f rest

/-- The files at or below a place whose names have an extension, in the order of their paths. -/
def filesBelow (t : FileTree) (place : List String) (extension : String) : List FileAt :=
  t.foldl (fun found e =>
    match e with
    | .file path content =>
      let at' := components path
      if place.isPrefixOf at' && (at'.getLast?.bind extension?) == some extension then
        insertFile ⟨at', content⟩ found
      else found
    | .directory _ => found) []

/-- The text of a file. -/
def readText (f : FileAt) : Except Error String :=
  match String.fromUTF8? ⟨f.content.toArray⟩ with
  | some s => .ok s
  | none => .error (.unreadable (pathText f.place) "stream did not contain valid UTF-8")

/-- A name whose only dot stands at its start has no extension. -/
theorem extension?_of_leading_dot (cs : List Char) (h : '.' ∉ cs) :
    extensionOf? ('.' :: cs).reverse = none := by
  have hcut : ∀ ds : List Char, '.' ∉ ds → Text.cut? ['.'] (ds ++ ['.']) = some (ds, []) := by
    intro ds hd
    induction ds with
    | nil => rfl
    | cons d ds ih =>
      simp only [List.mem_cons, not_or] at hd
      have hne : ¬ (List.isPrefixOf ['.'] (d :: (ds ++ ['.'])) = true) := by
        simp [List.isPrefixOf, hd.1]
      simp only [List.cons_append]
      unfold Text.cut?
      rw [if_neg hne, ih hd.2]
  unfold extensionOf?
  rw [List.reverse_cons, hcut cs.reverse (by simpa using h)]
  rfl

end FileTree

end ReactiveView
