import ReactiveView.Proofs.Dict
import ReactiveView.Proofs.Template.Uses
import Mathlib.Logic.Function.Basic

/-!
# Formats and their parts

The parts of a formatted attribute stand for its format with a text for every source
(`Format.Filled`): the text of a source stands at each of its holes, and every other part is as in the
format. Rendering gives such parts (`Format.Laid.filled`), there is only one such list
(`Format.Filled.unique`), and filling the holes of one source changes the text of this source and of no
other (`Format.Filled.fill`).

All this rests on how formats are laid out (`Format.Proper`): holes are parts that stand empty, no two
sources share a hole, and nothing is listed that a look-up does not find.
-/

set_option autoImplicit false

namespace ReactiveView

namespace Format

/-- A hole of a source. -/
def HoleOf (f : Format) (k : Nat) (s : Source) : Prop := ∃ ps, f.slots.get? s = some ps ∧ k ∈ ps

/-- How the holes of a format lie. -/
structure Proper (f : Format) : Prop where
  /-- Holes are parts that stand empty. -/
  empty : ∀ k s, f.HoleOf k s → f.parts[k]? = some ""
  unique : ∀ k s s', f.HoleOf k s → f.HoleOf k s' → s = s'
  /-- What is listed is found by a look-up. -/
  listed : ∀ e ∈ f.slots, ∃ ps, f.slots.get? e.1 = some ps ∧ e.2 ⊆ ps

variable {f : Format}

theorem holeOf_addHole {source s : Source} {k : Nat} :
    (f.addHole source).HoleOf k s ↔ f.HoleOf k s ∨ source = s ∧ k = f.parts.length := by
  have hget (l : Source) : (f.addHole source).slots.get? l =
      if source = l then some ((f.slots.get? source).getD [] ++ [f.parts.length]) else f.slots.get? l := by
    change (Dict.insert f.slots source _).get? l = _
    by_cases hl : source = l
    · subst hl
      rw [Dict.get?_insert_self, if_pos rfl]
    · rw [Dict.get?_insert_of_ne _ _ _ _ hl, if_neg hl]
  unfold HoleOf
  rw [hget]
  by_cases hs : source = s
  · subst hs
    cases f.slots.get? source <;> simp
  · simp [hs]

theorem Proper.addText (hf : f.Proper) (text : String) : (f.addText text).Proper := by
  unfold Format.addText
  split
  · exact hf
  · refine ⟨fun k s hk => ?_, hf.unique, hf.listed⟩
    have hold := hf.empty k s hk
    rw [List.getElem?_append_left (List.getElem?_eq_some_iff.1 hold).1]
    exact hold

theorem Proper.addHole (hf : f.Proper) (source : Source) : (f.addHole source).Proper where
  empty k s hk := by
    change (f.parts ++ [""])[k]? = _
    rcases holeOf_addHole.1 hk with hold | ⟨-, rfl⟩
    · have hold := hf.empty k s hold
      rw [List.getElem?_append_left (List.getElem?_eq_some_iff.1 hold).1]
      exact hold
    · simp
  unique k s s' hs hs' := by
    -- the new hole lies behind all parts there have been
    have hlt {s : Source} (h : f.HoleOf k s) : k < f.parts.length :=
      (List.getElem?_eq_some_iff.1 (hf.empty k s h)).1
    rcases holeOf_addHole.1 hs with hs | ⟨rfl, rfl⟩ <;> rcases holeOf_addHole.1 hs' with hs' | ⟨rfl, hk⟩
    · exact hf.unique k s s' hs hs'
    · exact absurd hk (Nat.ne_of_lt (hlt hs))
    · exact absurd (hlt hs') (Nat.lt_irrefl _)
    · rfl
  listed e he := by
    rcases Dict.eq_or_mem_of_mem_insert he with rfl | hold
    · exact ⟨_, Dict.get?_insert_self _ _ _, List.Subset.refl _⟩
    · obtain ⟨ps, hps, hsub⟩ := hf.listed e hold
      by_cases hkey : source = e.1
      · subst hkey
        refine ⟨_, Dict.get?_insert_self _ _ _, fun k hk => ?_⟩
        rw [hps]
        exact List.mem_append_left _ (hsub hk)
      · exact ⟨ps, (Dict.get?_insert_of_ne _ _ _ _ hkey).trans hps, hsub⟩

/-- Formats are laid out properly. -/
theorem Laid.proper (hf : f.Laid) : f.Proper := by
  induction hf with
  | empty =>
    refine ⟨fun k s hk => ?_, fun k s s' hk => ?_, fun e he => absurd he List.not_mem_nil⟩
    all_goals
      obtain ⟨ps, hps, -⟩ := hk
      cases hps
  | addText _ text ih => exact ih.addText text
  | addHole _ source ih => exact ih.addHole source

/-- A source with a hole is one of the format. -/
theorem HoleOf.mem_sources {k : Nat} {s : Source} (h : f.HoleOf k s) : s ∈ f.sources := by
  obtain ⟨ps, hps, -⟩ := h
  exact Dict.mem_keys_of_get? hps

/-! ## Parts that stand for a format -/

/-- The parts of a format with a text in the holes of each source. -/
structure Filled (f : Format) (text : Source → String) (parts : List String) : Prop where
  hole : ∀ k s, f.HoleOf k s → parts[k]? = some (text s)
  fixed : ∀ k, (∀ s, ¬ f.HoleOf k s) → parts[k]? = f.parts[k]?

variable {text text' : Source → String} {parts parts' : List String}

/-- The parts are determined by the texts. -/
theorem Filled.unique (h : f.Filled text parts) (h' : f.Filled text parts') : parts = parts' := by
  refine List.ext_getElem? fun k => ?_
  by_cases hk : ∃ s, f.HoleOf k s
  · obtain ⟨s, hs⟩ := hk
    rw [h.hole k s hs, h'.hole k s hs]
  · have hk := not_exists.1 hk
    rw [h.fixed k hk, h'.fixed k hk]

/-- Only the texts of the sources of the format matter. -/
theorem Filled.congr (h : f.Filled text parts) (htext : ∀ s ∈ f.sources, text s = text' s) :
    f.Filled text' parts where
  hole k s hs := by rw [h.hole k s hs, htext s hs.mem_sources]
  fixed := h.fixed

/-- The parts of a format stand for it with all texts empty. -/
theorem Laid.filled_parts (hf : f.Laid) : f.Filled (fun _ => "") f.parts where
  hole k s hs := hf.proper.empty k s hs
  fixed _ _ := rfl

/-! ## Filling -/

/-- A part at a filled position is the text. -/
theorem getElem?_fillAt_of_mem {positions : List Nat} {text : String} {k : Nat} (hk : k ∈ positions)
    (hlt : k < parts.length) : (fillAt parts positions text)[k]? = some text := by
  induction positions generalizing parts with
  | nil => exact absurd hk List.not_mem_nil
  | cons i rest ih =>
    by_cases hrest : k ∈ rest
    · exact ih hrest (by rwa [List.length_set])
    · obtain rfl := (List.mem_cons.1 hk).resolve_right hrest
      change (fillAt (parts.set k text) rest text)[k]? = _
      rw [getElem?_fillAt_of_not_mem _ _ _ _ hrest, List.getElem?_set_self hlt]

/-- Filling the holes of a source twice with one text is filling them once. -/
theorem fill_fill (slots : Dict Source (List Nat)) (parts : List String) (source : Source) (text : String) :
    Format.fill slots (Format.fill slots parts source text) source text =
      Format.fill slots parts source text := by
  unfold Format.fill
  cases slots.get? source with
  | none => rfl
  | some positions =>
    refine List.ext_getElem? fun k => ?_
    dsimp only
    by_cases hk : k ∈ positions
    · by_cases hlt : k < parts.length
      · rw [getElem?_fillAt_of_mem hk (by rwa [length_fillAt]), getElem?_fillAt_of_mem hk hlt]
      · simp [Nat.not_lt.1 hlt]
    · rw [getElem?_fillAt_of_not_mem _ _ _ _ hk]

/-- Filling the holes of a source changes the text of this source. -/
theorem Filled.fill (hf : f.Proper) (h : f.Filled text parts) (source : Source) (new : String) :
    f.Filled (Function.update text source new) (Format.fill f.slots parts source new) := by
  unfold Format.fill
  cases hget : f.slots.get? source with
  | none =>
    refine ⟨fun k s hs => ?_, h.fixed⟩
    -- a source that is not listed has no hole
    have hne : s ≠ source := by
      rintro rfl
      obtain ⟨ps, hps, -⟩ := hs
      rw [hget] at hps
      cases hps
    rw [Function.update_of_ne hne]
    exact h.hole k s hs
  | some positions =>
    have hiff (k : Nat) : k ∈ positions ↔ f.HoleOf k source := by
      unfold HoleOf
      rw [hget]
      simp
    refine ⟨fun k s hs => ?_, fun k hk => ?_⟩
    · by_cases hsource : s = source
      · subst hsource
        rw [Function.update_self]
        exact getElem?_fillAt_of_mem ((hiff k).2 hs) (List.getElem?_eq_some_iff.1 (h.hole k s hs)).1
      · rw [Function.update_of_ne hsource, ← h.hole k s hs]
        refine getElem?_fillAt_of_not_mem _ _ _ _ fun hmem => ?_
        exact hsource (hf.unique k _ _ hs ((hiff k).1 hmem))
    · rw [← h.fixed k hk]
      exact getElem?_fillAt_of_not_mem _ _ _ _ fun hmem => hk source ((hiff k).1 hmem)

/-- Filling the entries of a list of holes, one after the other. -/
private theorem getElem?_foldl_fillAt (hf : f.Proper) (entries : Dict Source (List Nat))
    (hlisted : ∀ e ∈ entries, ∀ k ∈ e.2, f.HoleOf k e.1) (parts : List String) (k : Nat)
    (hlt : k < parts.length) :
    (∀ s, f.HoleOf k s → (∃ e ∈ entries, e.1 = s ∧ k ∈ e.2) →
      (entries.foldl (fun parts e => fillAt parts e.2 (text e.1)) parts)[k]? = some (text s)) ∧
    ((∀ e ∈ entries, k ∉ e.2) →
      (entries.foldl (fun parts e => fillAt parts e.2 (text e.1)) parts)[k]? = parts[k]?) := by
  induction entries generalizing parts with
  | nil => exact ⟨fun s _ ⟨e, he, _⟩ => absurd he List.not_mem_nil, fun _ => rfl⟩
  | cons e rest ih =>
    have hrest := ih (fun x hx => hlisted x (List.mem_cons_of_mem _ hx))
      (fillAt parts e.2 (text e.1)) (by rwa [length_fillAt])
    refine ⟨fun s hs hmem => ?_, fun hnot => ?_⟩
    · by_cases hlater : ∃ x ∈ rest, x.1 = s ∧ k ∈ x.2
      · exact hrest.1 s hs hlater
      · obtain ⟨x, hx, rfl, hk⟩ := hmem
        obtain rfl : x = e := (List.mem_cons.1 hx).resolve_right fun hx => hlater ⟨x, hx, rfl, hk⟩
        rw [List.foldl_cons, hrest.2 ?_, getElem?_fillAt_of_mem hk hlt]
        -- the hole is of one source only, so it is not filled again
        intro y hy hky
        exact hlater ⟨y, hy, hf.unique k _ _ (hlisted y (List.mem_cons_of_mem _ hy) k hky) hs, hky⟩
    · rw [List.foldl_cons, hrest.2 fun x hx => hnot x (List.mem_cons_of_mem _ hx)]
      exact getElem?_fillAt_of_not_mem _ _ _ _ (hnot e List.mem_cons_self)

/-- Rendering puts the text of every source into its holes. -/
theorem Laid.filled (hf : f.Laid) (text : Source → String) : f.Filled text (f.filled text) := by
  have hproper := hf.proper
  have hlisted (e : Source × List Nat) (he : e ∈ f.slots) (k : Nat) (hk : k ∈ e.2) : f.HoleOf k e.1 := by
    obtain ⟨ps, hps, hsub⟩ := hproper.listed e he
    exact ⟨ps, hps, hsub hk⟩
  refine ⟨fun k s hs => ?_, fun k hk => ?_⟩
  · have hlt := (List.getElem?_eq_some_iff.1 (hproper.empty k s hs)).1
    obtain ⟨ps, hps, hmem⟩ := hs
    exact (getElem?_foldl_fillAt hproper f.slots hlisted f.parts k hlt).1 s ⟨ps, hps, hmem⟩
      ⟨(s, ps), Dict.mem_of_get? hps, rfl, hmem⟩
  · by_cases hlt : k < f.parts.length
    · exact (getElem?_foldl_fillAt hproper f.slots hlisted f.parts k hlt).2 fun e he hmem =>
        hk e.1 (hlisted e he k hmem)
    · -- filling adds no part
      have hlength (entries : Dict Source (List Nat)) (parts : List String) :
          (entries.foldl (fun parts e => fillAt parts e.2 (text e.1)) parts).length = parts.length := by
        induction entries generalizing parts with
        | nil => rfl
        | cons e rest ih => rw [List.foldl_cons, ih, length_fillAt]
      rw [List.getElem?_eq_none (Nat.not_lt.1 hlt), List.getElem?_eq_none]
      unfold Format.filled
      rw [hlength]
      exact Nat.not_lt.1 hlt

/-- Parts that stand for a format join to its rendering. -/
theorem Filled.joined (hf : f.Laid) (h : f.Filled text parts) : Format.joined parts = f.render text := by
  unfold Format.render
  rw [h.unique (hf.filled text)]

end Format

end ReactiveView
