import ReactiveView.Proofs.Text
import ReactiveView.Types

/-!
# Type declarations, read and written

A type declaration is read word by word, and each word is held against the types that have been read before it. So
what has been read is compatible at every moment (`Compatible`), and the words that can still follow are the tags of
types that stay compatible with it (`parseTags_eq_ok_iff`).

From this it follows that a text is read as a list of types exactly when it is that list as it is written, and that
every text that is not the writing of a list that can be declared is a syntax error (`parseTypes_written`).
-/

set_option autoImplicit false

namespace ReactiveView

/-- Types that can stand in one declaration: without repetition, at most one of them numeric. -/
def Compatible (ts : List PrimitiveType) : Prop := ts.Nodup ∧ (ts.filter PrimitiveType.isNumeric).length ≤ 1

theorem declarable_iff {ts : List PrimitiveType} : Declarable ts ↔ ts ≠ [] ∧ Compatible ts :=
  Iff.rfl

@[simp] theorem compatible_nil : Compatible [] := by
  simp [Compatible]

/-- A word stands for a type exactly when it is its tag. -/
theorem PrimitiveType.ofTag?_eq_some_iff {word : String} {t : PrimitiveType} : ofTag? word = some t ↔ t.tag = word := by
  constructor
  · intro h
    exact tag_of_ofTag? word t h
  · rintro rfl
    exact ofTag?_tag t

/-- No tag holds a bar. -/
theorem PrimitiveType.bar_not_mem_tag (t : PrimitiveType) : '|' ∉ t.tag.toList := by
  cases t <;> decide

section Reading

variable {read ts : List PrimitiveType} {words : List String}

/-- What has been read before is compatible. -/
theorem Compatible.of_append {more : List PrimitiveType} (h : Compatible (read ++ more)) : Compatible read := by
  obtain ⟨hnodup, hnumeric⟩ := h
  refine ⟨(List.nodup_append.1 hnodup).1, ?_⟩
  rw [List.filter_append, List.length_append] at hnumeric
  omega

/-- One more type is compatible when it has not been read and is not a second numeric one. -/
theorem Compatible.append_singleton_iff (h : Compatible read) {t : PrimitiveType} :
    Compatible (read ++ [t]) ↔ t ∉ read ∧ ¬ (t.isNumeric = true ∧ read.any PrimitiveType.isNumeric = true) := by
  have hnodup : (read ++ [t]).Nodup ↔ t ∉ read := by
    rw [List.nodup_append]
    simp only [h.1, List.nodup_cons, List.not_mem_nil, not_false_eq_true, List.nodup_nil, List.mem_singleton,
      forall_eq, ne_eq, true_and, and_self]
    constructor
    · intro hne hmem
      exact hne t hmem rfl
    · rintro hmem a ha rfl
      exact hmem ha
  have hany : read.any PrimitiveType.isNumeric = true ↔ 0 < (read.filter PrimitiveType.isNumeric).length := by
    rw [List.length_pos_iff_exists_mem, List.any_eq_true]
    simp
  have hnumeric : ((read ++ [t]).filter PrimitiveType.isNumeric).length ≤ 1 ↔
      ¬ (t.isNumeric = true ∧ read.any PrimitiveType.isNumeric = true) := by
    have hlength := h.2
    rw [hany, List.filter_append, List.length_append]
    cases ht : t.isNumeric with
    | true => simp [ht]
    | false => simpa [ht] using hlength
  rw [Compatible, hnodup, hnumeric]

/-- What can be read after `read` are the tags of types that are compatible with it. -/
theorem parseTags_eq_ok_iff (h : Compatible read) :
    parseTags read words = .ok ts ↔
      Compatible ts ∧ ∃ more, ts = read ++ more ∧ words = more.map PrimitiveType.tag := by
  induction words generalizing read with
  | nil =>
    rw [parseTags]
    constructor
    · intro hread
      obtain rfl := Except.ok.inj hread
      exact ⟨h, [], by simp, rfl⟩
    · rintro ⟨-, more, rfl, hwords⟩
      rw [List.map_eq_nil_iff.1 hwords.symm, List.append_nil]
  | cons word rest ih =>
    -- the next type is that of the word, and it is compatible exactly when neither check refuses it
    have hnext {more : List PrimitiveType} (hts : Compatible (read ++ more))
        (hwords : word :: rest = more.map PrimitiveType.tag) :
        ∃ t others, more = t :: others ∧ t.tag = word ∧ rest = others.map PrimitiveType.tag ∧
          Compatible (read ++ [t]) := by
      cases more with
      | nil => cases hwords
      | cons t others =>
        obtain ⟨hword, hrest⟩ := List.cons.inj hwords
        refine ⟨t, others, rfl, hword.symm, hrest, ?_⟩
        rw [List.append_cons] at hts
        exact hts.of_append
    rw [parseTags]
    constructor
    · intro hread
      split at hread
      · cases hread
      · next t ht =>
        split at hread
        · cases hread
        · next hnew =>
          split at hread
          · cases hread
          · next hnumeric =>
            have hone : Compatible (read ++ [t]) :=
              h.append_singleton_iff.2 ⟨by simpa using hnew, by simpa using hnumeric⟩
            obtain ⟨hts, more, rfl, rfl⟩ := (ih hone).1 hread
            refine ⟨hts, t :: more, by simp, ?_⟩
            rw [List.map_cons, PrimitiveType.tag_of_ofTag? word t ht]
    · rintro ⟨hts, more, rfl, hwords⟩
      obtain ⟨t, others, rfl, hword, hrest, hone⟩ := hnext hts hwords
      obtain ⟨hnew, hnumeric⟩ := h.append_singleton_iff.1 hone
      rw [PrimitiveType.ofTag?_eq_some_iff.2 hword]
      simp only [List.contains_eq_mem, hnew, decide_false, Bool.false_eq_true, if_false, Bool.and_eq_true, hnumeric]
      refine (ih hone).2 ⟨hts, others, by simp, hrest⟩

/-- A declaration is refused with a syntax error and no other. -/
theorem kind_of_parseTags {e : Error} (h : parseTags read words = .error e) : e.kind = .syntaxKind := by
  induction words generalizing read with
  | nil => cases h
  | cons word rest ih =>
    rw [parseTags] at h
    split at h
    · cases h; rfl
    · split at h
      · cases h; rfl
      · split at h
        · cases h; rfl
        · exact ih h

end Reading

/-- The pieces between the bars of a text are the tags of a list of types, which is not empty, exactly when the text
is that list as it is written. -/
theorem splitAt_eq_tags_iff {s : String} {ts : List PrimitiveType} :
    (Text.splitAt '|' s.toList).map String.ofList = ts.map PrimitiveType.tag ↔ ts ≠ [] ∧ s = typesText ts := by
  constructor
  · intro h
    have hpieces : Text.splitAt '|' s.toList = ts.map fun t => t.tag.toList := by
      have := congrArg (List.map String.toList) h
      simpa [Function.comp_def] using this
    constructor
    · rintro rfl
      exact Text.splitAt_ne_nil _ _ hpieces
    · rw [typesText, ← hpieces, Text.joinWith_splitAt, String.ofList_toList]
  · rintro ⟨hne, rfl⟩
    have hpieces : Text.splitAt '|' (typesText ts).toList = ts.map fun t => t.tag.toList := by
      rw [typesText, String.toList_ofList]
      apply Text.splitAt_joinWith
      · simpa using hne
      · intro piece hpiece
        obtain ⟨t, -, rfl⟩ := List.mem_map.1 hpiece
        exact t.bar_not_mem_tag
    rw [hpieces]
    simp

/-- A text is read as a list of types exactly when the list can be declared and the text is the list as it is
written: the tags in order with bars between them. So every list that can be declared is read back from its writing,
and every text that is no such writing is a syntax error. -/
theorem parseTypes_written :
    (∀ (s : String) (ts : List PrimitiveType), parseTypes s = .ok ts ↔ Declarable ts ∧ s = typesText ts) ∧
    (∀ ts : List PrimitiveType, Declarable ts → parseTypes (typesText ts) = .ok ts) ∧
    ∀ s : String, (¬ ∃ ts, Declarable ts ∧ s = typesText ts) →
      ∃ e, parseTypes s = .error e ∧ e.kind = .syntaxKind := by
  have hread (s : String) (ts : List PrimitiveType) : parseTypes s = .ok ts ↔ Declarable ts ∧ s = typesText ts := by
    rw [parseTypes, parseTags_eq_ok_iff compatible_nil, declarable_iff]
    constructor
    · rintro ⟨hts, more, rfl, htags⟩
      obtain ⟨hne, hs⟩ := splitAt_eq_tags_iff.1 htags
      exact ⟨⟨hne, hts⟩, hs⟩
    · rintro ⟨⟨hne, hts⟩, hs⟩
      exact ⟨hts, ts, rfl, splitAt_eq_tags_iff.2 ⟨hne, hs⟩⟩
  refine ⟨hread, ?_, ?_⟩
  · intro ts hts
    exact (hread (typesText ts) ts).2 ⟨hts, rfl⟩
  · intro s hnone
    cases hs : parseTypes s with
    | ok ts => exact absurd ⟨ts, (hread s ts).1 hs⟩ hnone
    | error e => exact ⟨e, rfl, kind_of_parseTags hs⟩

end ReactiveView
