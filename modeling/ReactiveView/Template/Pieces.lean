import ReactiveView.Error
import ReactiveView.Text.Scan

/-!
# The pieces of template texts

A text of a template is cut at its braces into plain stretches and substitutions, in doubled braces
for texts and in single braces for elements. The value of an attribute, and the source of a dynamic
binding, are cut at doubled braces only. Cutting goes on until the first place that cannot be cut;
the error that this means stands as the last piece, since the pieces before it are taken first.

`textPieces_nil` and `valuePieces_nil` state that an empty text has no pieces.
-/

set_option autoImplicit false

namespace ReactiveView.Template

open ReactiveView.Text (cut?)

/-- A piece of a template text. -/
inductive Piece where
  /-- A stretch that stands for itself. -/
  | plain (s : List Char)
  /-- The inside of a text substitution. -/
  | ofText (code : List Char)
  /-- The inside of an element substitution. -/
  | ofElement (code : List Char)
  /-- A place where the text cannot be cut. -/
  | fault (e : Error)

/-- A stretch as a piece, unless it is empty. -/
def plainPiece (cs : List Char) : List Piece := if cs.isEmpty then [] else [.plain cs]

/-- The number of bytes of a text. -/
def byteSize (cs : List Char) : Nat := cs.foldr (fun c size => c.utf8Size + size) 0

/-- Cuts a text at its braces. A closing brace nearer than three bytes cannot close a substitution. -/
def textPieces (cs : List Char) : List Piece :=
  match _h : cut? ['\x7b'] cs with
  | none => plainPiece cs
  | some (before, rest) =>
    plainPiece before ++
      match _h' : cut? ['\x7d'] rest with
      | none => [.fault .braceNotClosed]
      | some (code, after) =>
        if byteSize code < 2 then [.fault .braceNotClosed]
        else if code.head? = some '\x7b' then
          if after.head? = some '\x7d' then .ofText code.tail :: textPieces after.tail
          else [.fault .bracesNotClosed]
        else .ofElement code :: textPieces after
termination_by cs.length
decreasing_by
  · have h1 := Text.length_of_cut? _ _ _ _ (by simp) _h
    have h2 := Text.length_of_cut? _ _ _ _ (by simp) _h'
    rw [List.length_tail]
    omega
  · have h1 := Text.length_of_cut? _ _ _ _ (by simp) _h
    have h2 := Text.length_of_cut? _ _ _ _ (by simp) _h'
    omega

/-- Cuts a text at its doubled braces; `fault` is the error of an opening without a closing. -/
def valuePieces (fault : Error) (cs : List Char) : List Piece :=
  match _h : cut? ['\x7b', '\x7b'] cs with
  | none => plainPiece cs
  | some (before, rest) =>
    plainPiece before ++
      match _h' : cut? ['\x7d', '\x7d'] rest with
      | none => [.fault fault]
      | some (code, after) => .ofText code :: valuePieces fault after
termination_by cs.length
decreasing_by
  have h1 := Text.length_of_cut? _ _ _ _ (by simp) _h
  have h2 := Text.length_of_cut? _ _ _ _ (by simp) _h'
  omega

/-- Whether a value holds doubled opening braces. -/
def hasHoles (cs : List Char) : Bool := (cut? ['\x7b', '\x7b'] cs).isSome

/-- An empty text has no pieces. -/
theorem textPieces_nil : textPieces [] = [] := by
  rw [textPieces]
  rfl

/-- An empty value has no pieces. -/
theorem valuePieces_nil (fault : Error) : valuePieces fault [] = [] := by
  rw [valuePieces]
  rfl

end ReactiveView.Template
