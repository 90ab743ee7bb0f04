import ReactiveView.Text.Blank
import ReactiveView.Text.Scan

/-!
# Splitting, joining and trimming

Splitting at a character and joining with it are inverse to each other: what has been split gives the text back
(`joinWith_splitAt`), and pieces in which the character does not occur are found again when they have been joined
(`splitAt_joinWith`). Trimming takes away blanks at both ends and nothing else, so a text is what it is trimmed to
with blanks around it, and blanks around a text do not change what it is trimmed to (`trim_surrounded`).
-/

set_option autoImplicit false

namespace ReactiveView

namespace Text

/-! ## Splitting -/

section Splitting

variable {sep : Char} {w : List Char}

/-- A text in which a character does not occur is one piece. -/
theorem splitAt_of_not_mem (h : sep ∉ w) : splitAt sep w = [w] := by
  induction w with
  | nil => rfl
  | cons c w ih =>
    obtain ⟨hne, hw⟩ := not_or.1 (mt List.mem_cons.2 h)
    rw [splitAt, if_neg (Ne.symm hne), ih hw]

/-- A piece ends at the first occurrence of the character. -/
theorem splitAt_append (h : sep ∉ w) (rest : List Char) : splitAt sep (w ++ sep :: rest) = w :: splitAt sep rest := by
  induction w with
  | nil => simp [splitAt]
  | cons c w ih =>
    obtain ⟨hne, hw⟩ := not_or.1 (mt List.mem_cons.2 h)
    rw [List.cons_append, splitAt, if_neg (Ne.symm hne), ih hw]

/-- Pieces in which the character does not occur are found again. -/
theorem splitAt_joinWith {pieces : List (List Char)} (hne : pieces ≠ []) (h : ∀ piece ∈ pieces, sep ∉ piece) :
    splitAt sep (joinWith [sep] pieces) = pieces := by
  induction pieces with
  | nil => exact absurd rfl hne
  | cons piece rest ih =>
    have hpiece : sep ∉ piece := h piece List.mem_cons_self
    cases rest with
    | nil => exact splitAt_of_not_mem hpiece
    | cons next others =>
      have hrest : ∀ p ∈ next :: others, sep ∉ p := fun p hp => h p (List.mem_cons_of_mem _ hp)
      have hjoin : joinWith [sep] (piece :: next :: others) = piece ++ sep :: joinWith [sep] (next :: others) := by
        simp [joinWith]
      rw [hjoin, splitAt_append hpiece, ih (List.cons_ne_nil next others) hrest]

end Splitting

/-! ## Trimming -/

/-- A text of blank characters only. -/
def Blanks (cs : List Char) : Prop := ∀ c ∈ cs, isBlank c = true

instance (cs : List Char) : Decidable (Blanks cs) :=
  inferInstanceAs (Decidable (∀ c ∈ cs, isBlank c = true))

section Trimming

variable {a b cs : List Char}

@[simp] theorem blanks_nil : Blanks [] := by
  simp [Blanks]

@[simp] theorem blanks_append : Blanks (a ++ b) ↔ Blanks a ∧ Blanks b := by
  simp only [Blanks, List.mem_append, or_imp, forall_and]

@[simp] theorem blanks_reverse : Blanks cs.reverse ↔ Blanks cs := by
  simp [Blanks]

/-- Blanks in front of a text are dropped. -/
theorem trimStart_append (ha : Blanks a) (cs : List Char) : trimStart (a ++ cs) = trimStart cs :=
  List.dropWhile_append_of_pos ha

/-- Blanks behind a text are dropped. -/
theorem trimEnd_append (hb : Blanks b) (cs : List Char) : trimEnd (cs ++ b) = trimEnd cs := by
  unfold trimEnd
  rw [List.reverse_append, List.dropWhile_append_of_pos (blanks_reverse.2 hb)]

/-- What is dropped in front is blank. -/
theorem exists_trimStart (cs : List Char) : ∃ a, Blanks a ∧ cs = a ++ trimStart cs := by
  refine ⟨cs.takeWhile isBlank, fun c hc => ?_, List.takeWhile_append_dropWhile.symm⟩
  exact List.all_eq_true.1 List.all_takeWhile c hc

theorem trimStart_eq_nil_iff : trimStart cs = [] ↔ Blanks cs := by
  constructor
  · intro h
    obtain ⟨a, ha, hcs⟩ := exists_trimStart cs
    rw [h, List.append_nil] at hcs
    rwa [hcs]
  · intro h
    have := trimStart_append h []
    simpa [trimStart] using this

/-- What is dropped behind is blank. -/
theorem exists_trimEnd (cs : List Char) : ∃ b, Blanks b ∧ cs = trimEnd cs ++ b := by
  obtain ⟨a, ha, hcs⟩ := exists_trimStart cs.reverse
  refine ⟨a.reverse, blanks_reverse.2 ha, ?_⟩
  have := congrArg List.reverse hcs
  simpa [trimStart, trimEnd] using this

/-- A text is what it is trimmed to, with blanks around it. -/
theorem exists_trim (cs : List Char) : ∃ a b, Blanks a ∧ Blanks b ∧ cs = a ++ trim cs ++ b := by
  obtain ⟨a, ha, hstart⟩ := exists_trimStart cs
  obtain ⟨b, hb, hend⟩ := exists_trimEnd (trimStart cs)
  refine ⟨a, b, ha, hb, ?_⟩
  rw [trim, List.append_assoc, ← hend, ← hstart]

/-- Blanks around a text do not change what it is trimmed to. -/
theorem trim_surrounded (ha : Blanks a) (hb : Blanks b) (cs : List Char) : trim (a ++ cs ++ b) = trim cs := by
  obtain ⟨lead, hlead, hcs⟩ := exists_trimStart cs
  rw [trim, List.append_assoc, trimStart_append ha]
  cases hrest : trimStart cs with
  | nil =>
    -- the whole text is blank, and so is everything behind it
    have hblank : Blanks cs := by
      rwa [hcs, hrest, List.append_nil]
    have hnil : trimStart (cs ++ b) = [] := trimStart_eq_nil_iff.2 (blanks_append.2 ⟨hblank, hb⟩)
    rw [hnil, trim, hrest]
  | cons c rest =>
    have hc : isBlank c = false := trimStart_head cs c rest hrest
    have hstart : trimStart (cs ++ b) = trimStart cs ++ b := by
      have happend : cs ++ b = lead ++ (trimStart cs ++ b) := by
        rw [← List.append_assoc, ← hcs]
      rw [happend, trimStart_append hlead, hrest]
      simp [trimStart, hc]
    rw [hstart, trimEnd_append hb, trim, hrest]

/-- What neither starts nor ends with a blank is not changed by trimming. -/
theorem trim_eq_self (hhead : ∀ c ∈ cs.head?, isBlank c = false) (hlast : ∀ c ∈ cs.getLast?, isBlank c = false) :
    trim cs = cs := by
  have hstart {l : List Char} (h : ∀ c ∈ l.head?, isBlank c = false) : l.dropWhile isBlank = l := by
    cases l with
    | nil => rfl
    | cons c l => simp [h c rfl]
  rw [trim, trimStart, hstart hhead, trimEnd, hstart, List.reverse_reverse]
  intro c hc
  exact hlast c (by simpa using hc)

/-- A text is trimmed to nothing exactly when it is blank. -/
theorem trim_eq_nil_iff : trim cs = [] ↔ Blanks cs := by
  constructor
  · intro h
    obtain ⟨a, b, ha, hb, hcs⟩ := exists_trim cs
    rw [hcs, h, List.append_nil, blanks_append]
    exact ⟨ha, hb⟩
  · intro h
    have := trim_surrounded h blanks_nil []
    simpa [trim, trimStart, trimEnd] using this

/-- Blanks in front of a character that is not blank are dropped, and no more. -/
theorem trimStart_append_cons {c : Char} (ha : Blanks a) (hc : isBlank c = false) (rest : List Char) :
    trimStart (a ++ c :: rest) = c :: rest := by
  rw [trimStart_append ha]
  simp [trimStart, hc]

/-- What is not blank does not occur among blanks. -/
theorem Blanks.not_mem {c : Char} (h : Blanks cs) (hc : isBlank c = false) : c ∉ cs := by
  intro hmem
  simp [h c hmem] at hc

end Trimming

end Text

end ReactiveView
