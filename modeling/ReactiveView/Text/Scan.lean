/-!
# Cutting a text at a mark

`cut?` splits a text at the first occurrence of a mark, `splitAt` at every occurrence of one
character. Both lose nothing: the statements `eq_of_cut?` and `joinWith_splitAt` put the input back
together from the pieces.
-/

set_option autoImplicit false

namespace ReactiveView.Text

/-- What stands before and after the first occurrence of `mark`. -/
def cut? (mark : List Char) : List Char → Option (List Char × List Char)
  | [] => if mark.isEmpty then some ([], []) else none
  | c :: cs =>
    if mark.isPrefixOf (c :: cs) then some ([], (c :: cs).drop mark.length)
    else
      match cut? mark cs with
      | some (before, after) => some (c :: before, after)
      | none => none

/-- The input is what stands before the mark, the mark, and what stands after it. -/
theorem eq_of_cut? (mark cs before after : List Char) (h : cut? mark cs = some (before, after)) :
    cs = before ++ mark ++ after := by
  induction cs generalizing before after with
  | nil =>
    unfold cut? at h
    split at h
    · next hm => cases h; simpa using hm
    · cases h
  | cons c cs ih =>
    unfold cut? at h
    split at h
    · next hm =>
      cases h
      obtain ⟨rest, hr⟩ := List.isPrefixOf_iff_prefix.1 hm
      rw [← hr]; simp
    · split at h
      · next b a hc => cases h; simp [ih b after hc]
      · cases h

/-- After a cut at a mark that is not empty the rest is shorter than the input. -/
theorem length_of_cut? (mark cs before after : List Char) (hm : mark ≠ [])
    (h : cut? mark cs = some (before, after)) : after.length < cs.length := by
  have := congrArg List.length (eq_of_cut? mark cs before after h)
  have hp : 0 < mark.length := List.length_pos_iff.2 hm
  simp at this
  omega

/-- The pieces of a text between the occurrences of `sep`; there is always at least one. -/
def splitAt (sep : Char) : List Char → List (List Char)
  | [] => [[]]
  | c :: cs =>
    if c = sep then [] :: splitAt sep cs
    else
      match splitAt sep cs with
      | [] => [[c]]
      | piece :: pieces => (c :: piece) :: pieces

/-- Puts pieces together with `sep` between them. -/
def joinWith (sep : List Char) : List (List Char) → List Char
  | [] => []
  | [piece] => piece
  | piece :: pieces => piece ++ sep ++ joinWith sep pieces

/-- A text split has at least one piece. -/
theorem splitAt_ne_nil (sep : Char) (cs : List Char) : splitAt sep cs ≠ [] := by
  cases cs with
  | nil => simp [splitAt]
  | cons c cs =>
    unfold splitAt
    split
    · simp
    · split <;> simp

/-- Splitting loses nothing. -/
theorem joinWith_splitAt (sep : Char) (cs : List Char) : joinWith [sep] (splitAt sep cs) = cs := by
  induction cs with
  | nil => rfl
  | cons c cs ih =>
    unfold splitAt
    split
    · next hc =>
      subst hc
      cases hs : splitAt c cs with
      | nil => exact absurd hs (splitAt_ne_nil c cs)
      | cons p ps => rw [← ih, hs]; simp [joinWith]
    · cases hs : splitAt sep cs with
      | nil => exact absurd hs (splitAt_ne_nil sep cs)
      | cons p ps =>
        rw [← ih, hs]
        cases ps <;> simp [joinWith]

/-- Strings joined with a separator text between them. -/
def joinStrings (sep : String) (pieces : List String) : String := sep.intercalate pieces

end ReactiveView.Text
