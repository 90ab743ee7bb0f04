/-!
# Blank characters, trimming and words

A character is *blank* when it has the Unicode property White_Space: twenty-five characters, among
them the no-break space and the ideographic space, but neither the zero-width space nor the byte
order mark. Every grammar of the library separates its tokens by this class.

`trim` cuts the blank characters at both ends of a text, `words` splits a text at its runs of blank
characters. The statements below say that every character core calls whitespace is blank, that
trimming leaves no blank character at an end, and that words hold no blank character and are never
empty.
-/

set_option autoImplicit false

namespace ReactiveView.Text

/-- The characters with the Unicode property White_Space. -/
def isBlank (c : Char) : Bool :=
  let n := c.toNat
  (9 ≤ n && n ≤ 13) || n == 32 || n == 0x85 || n == 0xA0 || n == 0x1680
    || (0x2000 ≤ n && n ≤ 0x200A) || n == 0x2028 || n == 0x2029 || n == 0x202F || n == 0x205F
    || n == 0x3000

/-! ## Trimming -/

/-- Drops the blank characters at the front. -/
def trimStart (cs : List Char) : List Char := cs.dropWhile isBlank

/-- Drops the blank characters at the back. -/
def trimEnd (cs : List Char) : List Char := (cs.reverse.dropWhile isBlank).reverse

/-- Drops the blank characters at both ends. -/
def trim (cs : List Char) : List Char := trimEnd (trimStart cs)

/-- `trim` on strings. -/
def trimmed (s : String) : String := String.ofList (trim s.toList)

/-- Whether a text holds blank characters only. -/
def allBlank (s : String) : Bool := s.toList.all isBlank

/-! ## Words -/

/-- Splits at runs of blank characters; `word` is the word being read, reversed. -/
def wordsFrom (word : List Char) : List Char → List (List Char)
  | [] => if word.isEmpty then [] else [word.reverse]
  | c :: cs =>
    if isBlank c then
      if word.isEmpty then wordsFrom [] cs else word.reverse :: wordsFrom [] cs
    else wordsFrom (c :: word) cs

/-- The maximal runs of characters that are not blank, in order. -/
def words (cs : List Char) : List (List Char) := wordsFrom [] cs

/-! ## Laws -/

/-- Core's whitespace is blank. -/
theorem isBlank_of_isWhitespace (c : Char) (h : c.isWhitespace = true) : isBlank c = true := by
  simp only [Char.isWhitespace, Bool.or_eq_true, decide_eq_true_eq] at h
  rcases h with ((h | h) | h) | h <;> subst h <;> decide

/-- A trimmed text does not start with a blank character. -/
theorem trimStart_head (cs : List Char) (c : Char) (rest : List Char)
    (h : trimStart cs = c :: rest) : isBlank c = false := by
  unfold trimStart at h
  induction cs with
  | nil => simp at h
  | cons a as ih =>
    rw [List.dropWhile_cons] at h
    split at h
    · exact ih h
    · next hb =>
      obtain ⟨rfl, _⟩ := List.cons.inj h
      simpa using hb

/-- The words of a text are not empty and hold no blank character. -/
theorem mem_wordsFrom (cs word : List Char) (hw : ∀ c ∈ word, isBlank c = false) :
    ∀ w ∈ wordsFrom word cs, w ≠ [] ∧ ∀ c ∈ w, isBlank c = false := by
  induction cs generalizing word with
  | nil =>
    intro w h
    unfold wordsFrom at h
    cases word with
    | nil => simp at h
    | cons a as =>
      simp only [List.isEmpty_cons, Bool.false_eq_true, ↓reduceIte, List.mem_singleton] at h
      subst h
      exact ⟨by simp, fun c hc => hw c (List.mem_reverse.1 hc)⟩
  | cons a as ih =>
    intro w h
    unfold wordsFrom at h
    split at h
    · next hb =>
      cases word with
      | nil => exact ih [] (by simp) w (by simpa using h)
      | cons b bs =>
        simp only [List.isEmpty_cons, Bool.false_eq_true, ↓reduceIte, List.mem_cons] at h
        rcases h with rfl | h
        · exact ⟨by simp, fun c hc => hw c (List.mem_reverse.1 hc)⟩
        · exact ih [] (by simp) w h
    · next hb =>
      refine ih (a :: word) ?_ w h
      intro c hc
      rcases List.mem_cons.1 hc with rfl | hc
      · simpa using hb
      · exact hw c hc

end ReactiveView.Text
