import ReactiveView.Template.Pieces

/-!
# How a text falls into pieces

`Cuts` says how the text of a template falls into pieces: stretches without an opening brace stand for
themselves; the inside of doubled braces, which reaches to the first closing brace, is a text substitution;
the inside of single braces is an element substitution; and at the first place where neither is the case
there is a fault. Every text falls into the pieces that the scanner finds (`cuts_textPieces`).
-/

set_option autoImplicit false

namespace ReactiveView

namespace Text

/-- Without a cut the character does not occur. -/
theorem not_mem_of_cut?_eq_none {c : Char} {cs : List Char} (h : cut? [c] cs = none) : c ∉ cs := by
  induction cs with
  | nil => exact List.not_mem_nil
  | cons x cs ih =>
    unfold cut? at h
    split at h
    · cases h
    · next hx =>
      split at h
      · cases h
      · next hcut =>
        simp only [List.isPrefixOf, Bool.and_true, beq_iff_eq] at hx
        exact List.not_mem_cons_of_ne_of_not_mem hx (ih hcut)

/-- A cut is made where the character occurs first. -/
theorem not_mem_of_cut? {c : Char} {cs before after : List Char}
    (h : cut? [c] cs = some (before, after)) : c ∉ before := by
  induction cs generalizing before after with
  | nil => cases h
  | cons x cs ih =>
    unfold cut? at h
    split at h
    · obtain ⟨rfl, -⟩ := Prod.mk.inj (Option.some.inj h)
      exact List.not_mem_nil
    · next hx =>
      split at h
      · next b a hcut =>
        obtain ⟨rfl, rfl⟩ := Prod.mk.inj (Option.some.inj h)
        simp only [List.isPrefixOf, Bool.and_true, beq_iff_eq] at hx
        exact List.not_mem_cons_of_ne_of_not_mem hx (ih hcut)
      · cases h

/-- A cut at the first occurrence of a character. -/
theorem cut?_spec {c : Char} {cs before after : List Char} (h : cut? [c] cs = some (before, after)) :
    cs = before ++ c :: after ∧ c ∉ before :=
  ⟨by simpa using eq_of_cut? _ _ _ _ h, not_mem_of_cut? h⟩

end Text

namespace Template

/-- How a text falls into pieces, up to the first place where it cannot be cut. -/
inductive Cuts : List Char → List Piece → Prop where
  | plain (cs : List Char) (hcs : '\x7b' ∉ cs) : Cuts cs (plainPiece cs)
  | ofText (before inner after : List Char) {pieces : List Piece} (hbefore : '\x7b' ∉ before)
      (hinner : '\x7d' ∉ inner) (hafter : Cuts after pieces) :
      Cuts (before ++ '\x7b' :: '\x7b' :: (inner ++ '\x7d' :: '\x7d' :: after))
        (plainPiece before ++ .ofText inner :: pieces)
  | ofElement (before code after : List Char) {pieces : List Piece} (hbefore : '\x7b' ∉ before)
      (hcode : '\x7d' ∉ code) (hhead : code.head? ≠ some '\x7b') (hafter : Cuts after pieces) :
      Cuts (before ++ '\x7b' :: (code ++ '\x7d' :: after))
        (plainPiece before ++ .ofElement code :: pieces)
  | fault (before rest : List Char) {e : Error} (hbefore : '\x7b' ∉ before)
      (he : e = .braceNotClosed ∨ e = .bracesNotClosed) :
      Cuts (before ++ '\x7b' :: rest) (plainPiece before ++ [.fault e])

/-- Every text falls into the pieces that the scanner finds. -/
theorem cuts_textPieces (cs : List Char) : Cuts cs (textPieces cs) := by
  induction cs using textPieces.induct with
  | case1 cs hcut =>
    unfold textPieces
    split
    · exact .plain cs (Text.not_mem_of_cut?_eq_none hcut)
    · next before rest hcut' =>
      rw [hcut] at hcut'
      cases hcut'
  | case2 cs before rest hcut ihBoth ihOne =>
    obtain ⟨rfl, hbefore⟩ := Text.cut?_spec hcut
    unfold textPieces
    split
    · next hnone =>
      rw [hcut] at hnone
      cases hnone
    · next before' rest' hcut' =>
      obtain ⟨rfl, rfl⟩ := Prod.mk.inj (Option.some.inj (hcut.symm.trans hcut'))
      split
      · exact .fault before rest hbefore (.inl rfl)
      · next code after hclose =>
        obtain ⟨rfl, hcode⟩ := Text.cut?_spec hclose
        split
        · exact .fault before _ hbefore (.inl rfl)
        · split
          · next hdouble =>
            obtain ⟨inner, rfl⟩ := List.head?_eq_some_iff.1 hdouble
            have hinner : '\x7d' ∉ inner := fun h => hcode (List.mem_cons_of_mem _ h)
            split
            · next hboth =>
              have hrest := ihBoth _ after hclose
              obtain ⟨afterBoth, rfl⟩ := List.head?_eq_some_iff.1 hboth
              exact .ofText before inner afterBoth hbefore hinner hrest
            · exact .fault before _ hbefore (.inr rfl)
          · next hhead => exact .ofElement before code after hbefore hcode hhead (ihOne code after hclose)

/-- The faults of a text are those of its braces. -/
theorem Cuts.eq_of_fault_mem {e : Error} {cs : List Char} {pieces : List Piece} (h : Cuts cs pieces)
    (he : .fault e ∈ pieces) : e = .braceNotClosed ∨ e = .bracesNotClosed := by
  have hplain (s : List Char) : .fault e ∉ plainPiece s := by
    unfold plainPiece
    split <;> simp
  induction h with
  | plain cs hcs => exact absurd he (hplain cs)
  | ofText before inner after hbefore hinner hafter ih =>
    rcases List.mem_append.1 he with he | he
    · exact absurd he (hplain before)
    · rcases List.mem_cons.1 he with he | he
      · cases he
      · exact ih he
  | ofElement before code after hbefore hcode hhead hafter ih =>
    rcases List.mem_append.1 he with he | he
    · exact absurd he (hplain before)
    · rcases List.mem_cons.1 he with he | he
      · cases he
      · exact ih he
  | fault before rest hbefore hcause =>
    rcases List.mem_append.1 he with he | he
    · exact absurd he (hplain before)
    · rw [Piece.fault.inj (List.mem_singleton.1 he)]
      exact hcause

end Template

end ReactiveView
