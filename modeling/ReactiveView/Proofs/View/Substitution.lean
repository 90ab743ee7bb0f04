import Mathlib.Data.List.Nodup
import ReactiveView.Proofs.View.Formats
import ReactiveView.Screen.Basic
import ReactiveView.Template.View

/-!
# Formats as substitution

A format that is read from a text stands for this text with every pair of doubled braces, and what is inside,
replaced by the text of the source that is named there. `substituted` says so character by character, apart
from how the text is cut and from where the holes are; `Format.substitutes_of_read` states that both readers of
formats, the one of attribute values and the one of bindings, agree with it.

The pieces of a text are put together one after the other (`Format.Composes`), and rendering takes them the
same way: a piece at the end of a format is a piece at the end of its rendering (`Format.Laid.render_addText`,
`Format.Laid.render_addHole`). A formatted attribute comes to the same text by filling its sources one at a
time, in any order and as often as one likes, since only the last text of each counts (`Format.lastText`).
-/

set_option autoImplicit false

namespace ReactiveView

/-! ## One entry for each source -/

namespace Source

theorem lt_iff {s t : Source} : s < t ↔ s.precedes t = true := Iff.rfl

/-- Of two different sources one comes first. -/
theorem eq_of_not_lt {s t : Source} (h : ¬ s < t) (h' : ¬ t < s) : s = t := by
  have hname {a b : String} (h : ¬ a < b) (h' : ¬ b < a) : a = b :=
    String.le_antisymm (String.not_lt.1 h') (String.not_lt.1 h)
  cases s <;> cases t <;> simp only [lt_iff, precedes, decide_eq_true_eq, not_true] at h h' ⊢
  · rw [hname h h']
  · rw [hname h h']

theorem lt_trans {s t u : Source} (h : s < t) (h' : t < u) : s < u := by
  cases s <;> cases t <;> cases u <;>
    simp_all only [lt_iff, precedes, decide_eq_true_eq, Bool.false_eq_true]
  · exact String.lt_trans h h'
  · exact String.lt_trans h h'

theorem ne_of_lt {s t : Source} (h : s < t) : s ≠ t := by
  rintro rfl
  cases s <;> exact String.lt_irrefl _ (of_decide_eq_true h)

end Source

namespace Dict

variable {α : Type}

/-- Entries in ascending order of their sources stay so when one is put in. -/
theorem pairwise_keys_insert {d : Dict Source α} (hd : d.keys.Pairwise (· < ·)) (s : Source) (a : α) :
    (d.insert s a).keys.Pairwise (· < ·) := by
  induction d with
  | nil => exact List.pairwise_singleton _ _
  | cons e rest ih =>
    obtain ⟨t, b⟩ := e
    obtain ⟨hhead, htail⟩ := List.pairwise_cons.1 hd
    unfold insert
    split
    · next heq =>
      subst heq
      exact List.pairwise_cons.2 ⟨hhead, htail⟩
    · next hne =>
      split
      · next hlt =>
        refine List.pairwise_cons.2 ⟨fun u hu => ?_, hd⟩
        rcases List.mem_cons.1 hu with rfl | hu
        · exact hlt
        · exact Source.lt_trans hlt (hhead u hu)
      · next hnlt =>
        refine List.pairwise_cons.2 ⟨fun u hu => ?_, ih htail⟩
        rcases mem_keys_insert.1 hu with rfl | hu
        · exact Decidable.byContradiction fun h => hne (Source.eq_of_not_lt h hnlt)
        · exact hhead u hu

end Dict

namespace Format

variable {f g : Format} {textOf : Source → String}

/-- The sources of a format are in order, each once. -/
theorem Laid.pairwise_sources (hf : f.Laid) : f.sources.Pairwise (· < ·) := by
  induction hf with
  | empty => exact List.Pairwise.nil
  | addText _ text ih =>
    rw [sources_addText]
    exact ih
  | addHole _ source ih => exact Dict.pairwise_keys_insert ih _ _

/-- Every position that is listed for a source is a part that stands empty, and is listed for no other. -/
theorem Laid.slot_unique (hf : f.Laid) {e : Source × List Nat} {k : Nat} (he : e ∈ f.slots) (hk : k ∈ e.2) :
    f.parts[k]? = some "" ∧ ∀ e' ∈ f.slots, k ∈ e'.2 → e' = e := by
  have hproper := hf.proper
  have hhole {e : Source × List Nat} (he : e ∈ f.slots) (hk : k ∈ e.2) : f.HoleOf k e.1 := by
    obtain ⟨ps, hps, hsub⟩ := hproper.listed e he
    exact ⟨ps, hps, hsub hk⟩
  refine ⟨hproper.empty k e.1 (hhole he hk), fun e' he' hk' => ?_⟩
  have hnodup : (f.slots.map (·.1)).Nodup := hf.pairwise_sources.imp Source.ne_of_lt
  exact List.inj_on_of_nodup_map hnodup he' he (hproper.unique k _ _ (hhole he' hk') (hhole he hk))

/-! ## Rendering piece by piece -/

theorem holeOf_lt (hf : f.Proper) {k : Nat} {s : Source} (h : f.HoleOf k s) : k < f.parts.length :=
  (List.getElem?_eq_some_iff.1 (hf.empty k s h)).1

/-- Parts that stand for a format are as many as its own. -/
theorem Filled.length_eq (hf : f.Proper) {parts : List String} (h : f.Filled textOf parts) :
    parts.length = f.parts.length := by
  have hnone (k : Nat) : parts[k]? = none ↔ f.parts[k]? = none := by
    by_cases hk : ∃ s, f.HoleOf k s
    · obtain ⟨s, hs⟩ := hk
      rw [h.hole k s hs, hf.empty k s hs]
      simp
    · rw [h.fixed k (not_exists.1 hk)]
  simp only [List.getElem?_eq_none_iff] at hnone
  exact Nat.le_antisymm ((hnone _).2 (Nat.le_refl _)) ((hnone _).1 (Nat.le_refl _))

theorem joined_append_singleton (parts : List String) (text : String) :
    joined (parts ++ [text]) = joined parts ++ text := by
  simp [joined, String.join, List.foldl_append]

/-- A text at the end of a format stands at the end of its rendering. -/
theorem Laid.render_addText (hf : f.Laid) (text : String) :
    (f.addText text).render textOf = f.render textOf ++ text := by
  by_cases hempty : text.isEmpty
  · rw [Format.addText, if_pos hempty, String.isEmpty_iff.1 hempty, String.append_empty]
  · have hadd : f.addText text = { f with parts := f.parts ++ [text] } := if_neg hempty
    have hfilled := hf.filled textOf
    have hlength := hfilled.length_eq hf.proper
    have hmore : (f.addText text).Filled textOf (f.filled textOf ++ [text]) := by
      rw [hadd]
      refine ⟨fun k s hs => ?_, fun k hk => ?_⟩
      · rw [List.getElem?_append_left (by rw [hlength]; exact holeOf_lt hf.proper hs)]
        exact hfilled.hole k s hs
      · by_cases hlt : k < f.parts.length
        · rw [List.getElem?_append_left hlt, List.getElem?_append_left (by rwa [hlength])]
          exact hfilled.fixed k hk
        · rw [List.getElem?_append_right (Nat.not_lt.1 hlt),
            List.getElem?_append_right (by rw [hlength]; exact Nat.not_lt.1 hlt), hlength]
    rw [← hmore.joined (hf.addText text), joined_append_singleton]
    rfl

/-- A hole at the end of a format puts the text of its source at the end of the rendering. -/
theorem Laid.render_addHole (hf : f.Laid) (source : Source) :
    (f.addHole source).render textOf = f.render textOf ++ textOf source := by
  have hfilled := hf.filled textOf
  have hlength := hfilled.length_eq hf.proper
  have hmore : (f.addHole source).Filled textOf (f.filled textOf ++ [textOf source]) := by
    refine ⟨fun k s hs => ?_, fun k hk => ?_⟩
    · rcases holeOf_addHole.1 hs with hs | ⟨rfl, rfl⟩
      · rw [List.getElem?_append_left (by rw [hlength]; exact holeOf_lt hf.proper hs)]
        exact hfilled.hole k s hs
      · rw [← hlength]
        exact List.getElem?_concat_length
    · change _ = (f.parts ++ [""])[k]?
      have hold (s : Source) : ¬ f.HoleOf k s := fun hs => hk s (holeOf_addHole.2 (.inl hs))
      have hne : k ≠ f.parts.length := fun h => hk source (holeOf_addHole.2 (.inr ⟨rfl, h⟩))
      by_cases hlt : k < f.parts.length
      · rw [List.getElem?_append_left hlt, List.getElem?_append_left (by rwa [hlength])]
        exact hfilled.fixed k hold
      · have hle : (f.parts ++ [""]).length ≤ k := by
          rw [List.length_append, List.length_singleton]
          omega
        rw [List.getElem?_eq_none hle, List.getElem?_eq_none]
        rw [List.length_append, List.length_singleton] at hle ⊢
        rwa [hlength]
  rw [← hmore.joined (hf.addHole source), joined_append_singleton]
  rfl

end Format

namespace Template

open ReactiveView.Text (cut?)

/-! ## Replacing what stands in doubled braces -/

/-- The text of the source that a substitution names. -/
def namedText (textOf : Source → String) (code : List Char) : List Char :=
  match textSubstitution? code with
  | some (_, source) => (textOf source).toList
  | none => []

/-- A text with every substitution in doubled braces replaced by the text of the source it names. Behind two
opening braces the characters of the substitution are collected, the last one first, up to the nearest two
closing braces. -/
def substituted (textOf : Source → String) : Option (List Char) → List Char → List Char
  | none, '\x7b' :: '\x7b' :: cs => substituted textOf (some []) cs
  | none, c :: cs => c :: substituted textOf none cs
  | some code, '\x7d' :: '\x7d' :: cs => namedText textOf code.reverse ++ substituted textOf none cs
  | some code, c :: cs => substituted textOf (some (c :: code)) cs
  | _, [] => []

variable {textOf : Source → String}

/-- A text without doubled opening braces is left as it is. -/
theorem substituted_of_cut?_eq_none {cs : List Char} (h : cut? ['\x7b', '\x7b'] cs = none) :
    substituted textOf none cs = cs := by
  induction cs with
  | nil => rfl
  | cons c cs ih =>
    unfold cut? at h
    split at h
    · cases h
    · next hnot =>
      split at h
      · cases h
      · next hcut =>
        rw [substituted, ih hcut]
        rintro rest rfl rfl
        exact hnot (by simp)

/-- What stands before the doubled opening braces is left as it is. -/
theorem substituted_of_cut? {cs before rest : List Char}
    (h : cut? ['\x7b', '\x7b'] cs = some (before, rest)) :
    substituted textOf none cs = before ++ substituted textOf (some []) rest := by
  induction cs generalizing before rest with
  | nil => cases h
  | cons c cs ih =>
    unfold cut? at h
    split at h
    · next hlead =>
      obtain ⟨rfl, rfl⟩ := Prod.mk.inj (Option.some.inj h)
      obtain ⟨after, hafter⟩ := List.isPrefixOf_iff_prefix.1 hlead
      obtain ⟨rfl, rfl⟩ := List.cons.inj hafter
      rfl
    · next hnot =>
      split at h
      · next b a hcut =>
        obtain ⟨rfl, rfl⟩ := Prod.mk.inj (Option.some.inj h)
        rw [substituted, ih hcut, List.cons_append]
        rintro rest rfl rfl
        exact hnot (by simp)
      · cases h

/-- A substitution that is not closed is replaced by nothing. -/
theorem substituted_inside_of_cut?_eq_none {cs : List Char} (code : List Char)
    (h : cut? ['\x7d', '\x7d'] cs = none) : substituted textOf (some code) cs = [] := by
  induction cs generalizing code with
  | nil => rfl
  | cons c cs ih =>
    unfold cut? at h
    split at h
    · cases h
    · next hnot =>
      split at h
      · cases h
      · next hcut =>
        rw [substituted, ih _ hcut]
        rintro rest rfl rfl
        exact hnot (by simp)

/-- A substitution that is closed is replaced by the text that it names. -/
theorem substituted_inside_of_cut? {cs inner after : List Char} (code : List Char)
    (h : cut? ['\x7d', '\x7d'] cs = some (inner, after)) :
    substituted textOf (some code) cs =
      namedText textOf (code.reverse ++ inner) ++ substituted textOf none after := by
  induction cs generalizing code inner after with
  | nil => cases h
  | cons c cs ih =>
    unfold cut? at h
    split at h
    · next hlead =>
      obtain ⟨rfl, rfl⟩ := Prod.mk.inj (Option.some.inj h)
      obtain ⟨after, hafter⟩ := List.isPrefixOf_iff_prefix.1 hlead
      obtain ⟨rfl, rfl⟩ := List.cons.inj hafter
      rw [List.append_nil]
      rfl
    · next hnot =>
      split at h
      · next b a hcut =>
        obtain ⟨rfl, rfl⟩ := Prod.mk.inj (Option.some.inj h)
        rw [substituted, ih _ hcut, List.reverse_cons, List.append_assoc, List.singleton_append]
        rintro rest rfl rfl
        exact hnot (by simp)
      · cases h

/-- What a piece of a value stands for. -/
def Piece.inserted (textOf : Source → String) : Piece → List Char
  | .plain s => s
  | .ofText code => namedText textOf code
  | .ofElement _ => []
  | .fault _ => []

theorem flatMap_plainPiece (cs : List Char) : (plainPiece cs).flatMap (Piece.inserted textOf) = cs := by
  unfold plainPiece
  split
  · next hempty => rw [List.isEmpty_iff.1 hempty, List.flatMap_nil]
  · simp [Piece.inserted]

/-- The pieces of a value together are the value with its substitutions replaced. -/
theorem flatMap_valuePieces (fault : Error) (cs : List Char) :
    (valuePieces fault cs).flatMap (Piece.inserted textOf) = substituted textOf none cs := by
  induction cs using valuePieces.induct with
  | case1 cs hcut =>
    rw [substituted_of_cut?_eq_none hcut, valuePieces]
    split
    · exact flatMap_plainPiece cs
    · next hcut' =>
      rw [hcut] at hcut'
      cases hcut'
  | case2 cs before rest hcut ih =>
    rw [substituted_of_cut? hcut, valuePieces]
    split
    · next hcut' =>
      rw [hcut] at hcut'
      cases hcut'
    · next before' rest' hcut' =>
      obtain ⟨rfl, rfl⟩ := Prod.mk.inj (Option.some.inj (hcut.symm.trans hcut'))
      rw [List.flatMap_append, flatMap_plainPiece]
      split
      · next hclose => rw [substituted_inside_of_cut?_eq_none [] hclose]; rfl
      · next code after hclose =>
        rw [substituted_inside_of_cut? [] hclose, List.flatMap_cons, ih code after hclose]
        rfl

end Template

namespace Format

open ReactiveView.Template

/-- A format that is put together from another one and pieces at its end. -/
inductive Composes : Format → List Piece → Format → Prop where
  | done (f : Format) : Composes f [] f
  | plain {f g : Format} (s : List Char) {pieces : List Piece}
      (h : Composes (f.addText (String.ofList s)) pieces g) : Composes f (.plain s :: pieces) g
  | ofText {f g : Format} {code : List Char} {declared : Option String} {source : Source}
      (hcode : textSubstitution? code = some (declared, source)) {pieces : List Piece}
      (h : Composes (f.addHole source) pieces g) : Composes f (.ofText code :: pieces) g
  | ofElement {f g : Format} (code : List Char) {pieces : List Piece} (h : Composes f pieces g) :
      Composes f (.ofElement code :: pieces) g

variable {f g : Format} {pieces : List Piece} {textOf : Source → String}

theorem Composes.laid (h : f.Composes pieces g) (hf : f.Laid) : g.Laid := by
  induction h with
  | done => exact hf
  | plain s _ ih => exact ih (hf.addText _)
  | ofText _ _ ih => exact ih (hf.addHole _)
  | ofElement _ _ ih => exact ih hf

/-- What the pieces stand for is at the end of the rendering. -/
theorem Composes.render (h : f.Composes pieces g) (hf : f.Laid) :
    g.render textOf = f.render textOf ++ String.ofList (pieces.flatMap (Piece.inserted textOf)) := by
  induction h with
  | done => simp
  | plain s _ ih =>
    rw [ih (hf.addText _), hf.render_addText, String.append_assoc, ← String.ofList_append]
    rfl
  | ofText hcode _ ih =>
    rw [ih (hf.addHole _), hf.render_addHole, String.append_assoc, List.flatMap_cons, String.ofList_append,
      Piece.inserted, namedText, hcode]
    simp
  | ofElement code _ ih =>
    rw [ih hf]
    rfl

/-- A substitution that is registered names its source. -/
theorem textSubstitution?_of_registerText {r : Reading} {d d' : Draft} {code : List Char} {source : Source}
    (h : registerText r d code = .ok (source, d')) :
    ∃ declared, textSubstitution? code = some (declared, source) := by
  unfold registerText at h
  split at h
  · cases h
  · next declared name hcode =>
    cases hregister : registerAttribute d declared name with
    | error e =>
      rw [hregister] at h
      cases h
    | ok d'' =>
      rw [hregister] at h
      cases h
      exact ⟨declared, hcode⟩
  · next declared name hcode =>
    cases hregister : registerPrimitive r d declared name with
    | error e =>
      rw [hregister] at h
      cases h
    | ok d'' =>
      rw [hregister] at h
      cases h
      exact ⟨declared, hcode⟩

/-- The format of an attribute value is put together from the pieces of the value. -/
theorem composes_of_formatOfPieces {r : Reading} {d d' : Draft}
    (h : formatOfPieces r d f pieces = .ok (g, d')) : f.Composes pieces g := by
  induction pieces generalizing f d with
  | nil =>
    cases h
    exact .done _
  | cons piece pieces ih =>
    unfold formatOfPieces at h
    cases piece with
    | plain s => exact .plain s (ih h)
    | ofText code =>
      dsimp only at h
      split at h
      · cases h
      · next hregister =>
        obtain ⟨declared, hcode⟩ := textSubstitution?_of_registerText hregister
        exact .ofText hcode (ih h)
    | ofElement code => exact .ofElement code (ih h)
    | fault e => cases h

/-- The format of a binding is put together from the pieces of its text. -/
theorem composes_of_bindingOfPieces {name : String} (h : bindingOfPieces name f pieces = .ok g) :
    f.Composes pieces g := by
  induction pieces generalizing f with
  | nil =>
    cases h
    exact .done _
  | cons piece pieces ih =>
    unfold bindingOfPieces at h
    cases piece with
    | plain s => exact .plain s (ih h)
    | ofText code =>
      dsimp only at h
      split at h
      · cases h
      · next hcode => exact .ofText hcode (ih h)
      · cases h
    | ofElement code => exact .ofElement code (ih h)
    | fault e => cases h

/-! ## Filling one source after the other -/

/-- The text that a source was last filled with, or nothing. -/
def lastText (fills : List (Source × String)) (s : Source) : String :=
  ((fills.reverse.find? fun e => e.1 = s).map (·.2)).getD ""

/-- Fills made one after the other leave the last text of each source in its holes, and the earlier one in those of
a source that is not filled. -/
theorem Filled.foldl_fill (hf : f.Proper) (fills : List (Source × String)) {parts : List String}
    (h : f.Filled textOf parts) :
    f.Filled (fun s => ((fills.reverse.find? fun e => e.1 = s).map (·.2)).getD (textOf s))
      (fills.foldl (fun parts e => Format.fill f.slots parts e.1 e.2) parts) := by
  induction fills generalizing textOf parts with
  | nil => exact h
  | cons e fills ih =>
    refine (ih (h.fill hf e.1 e.2)).congr fun s _ => ?_
    rw [List.reverse_cons, List.find?_append]
    cases fills.reverse.find? fun e => e.1 = s with
    | some found => rfl
    | none =>
      by_cases hs : e.1 = s
      · subst hs
        simp
      · simp [hs, Function.update_of_ne (Ne.symm hs)]

/-- Filling a formatted attribute fills its parts. -/
theorem foldl_fill_parts (b : Binding) (fills : List (Source × String)) :
    (fills.foldl (fun b e => b.fill e.1 e.2) b).parts =
      fills.foldl (fun parts e => Format.fill b.slots parts e.1 e.2) b.parts := by
  induction fills generalizing b with
  | nil => rfl
  | cons e fills ih => exact ih (b.fill e.1 e.2)

/-- However a formatted attribute is filled, it reads as its format rendered with the last text of each source. -/
theorem Laid.joined_foldl_fill (hf : f.Laid) (owner : NodeId) (name : QName) (fills : List (Source × String)) :
    (fills.foldl (fun b e => b.fill e.1 e.2) (Binding.ofFormat owner name f)).joined =
      f.render (lastText fills) := by
  rw [Binding.joined, foldl_fill_parts]
  exact (hf.filled_parts.foldl_fill hf.proper fills).joined hf

/-! ## Formats that are read -/

/-- The value of an attribute, or the text of a binding, that is read as a format. -/
def ReadFrom (f : Format) (value : String) : Prop :=
  (∃ (r : Reading) (d d' : Draft), readFormat r d value = .ok (f, d')) ∨ ∃ name, parseBinding name value = .ok f

/-- A format that is read is put together from the pieces of its text. -/
theorem ReadFrom.composes {value : String} (h : f.ReadFrom value) :
    ∃ fault, Composes {} (valuePieces fault value.toList) f := by
  rcases h with ⟨r, d, d', h⟩ | ⟨name, h⟩
  · exact ⟨_, composes_of_formatOfPieces h⟩
  · unfold parseBinding at h
    split at h
    · cases h
    · next g hg =>
      split at h
      · cases h
      · cases h
        exact ⟨_, composes_of_bindingOfPieces hg⟩

/-- A format that is read means substitution. Every position listed for a source is a part that stands empty, and
is listed for this source only. Rendering gives the text that was read, with every substitution in doubled braces
replaced by the text of the source it names. And a formatted attribute comes to the same text however its sources
are filled one after the other: the last text of each counts, and a source without a fill is empty. -/
theorem substitutes_of_read {value : String} (h : f.ReadFrom value) :
    (∀ e ∈ f.slots, ∀ k ∈ e.2, f.parts[k]? = some "" ∧ ∀ e' ∈ f.slots, k ∈ e'.2 → e' = e) ∧
    (∀ textOf, f.render textOf = String.ofList (substituted textOf none value.toList)) ∧
    ∀ (owner : NodeId) (name : QName) (fills : List (Source × String)),
      (fills.foldl (fun b e => b.fill e.1 e.2) (Binding.ofFormat owner name f)).joined =
        f.render (lastText fills) := by
  obtain ⟨fault, hcomposes⟩ := h.composes
  have hlaid := hcomposes.laid .empty
  refine ⟨fun e he k hk => hlaid.slot_unique he hk, fun textOf => ?_, hlaid.joined_foldl_fill⟩
  rw [hcomposes.render .empty, flatMap_valuePieces]
  rfl

/-- The binding `a{{ this.x }}{{this.y}}b{{x}}` has neighbouring holes and a source with two of them. It stands for
the text `aABbA` once `x` is `A` and `y` is `B`, and a formatted attribute that has been filled with these reads so,
though `x` was filled with another text before. -/
theorem substitutes_of_read_twice :
    parseBinding "shout" "a\x7b\x7b this.x \x7d\x7d\x7b\x7bthis.y\x7d\x7db\x7b\x7bx\x7d\x7d" =
      .ok ⟨["a", "", "", "b", ""], [(.property "x", [1, 4]), (.property "y", [2])]⟩ ∧
    ([(.property "x", "old"), (.property "y", "B"), (.property "x", "A")].foldl (fun b e => b.fill e.1 e.2)
      (Binding.ofFormat ⟨0⟩ (.plain "title")
        ⟨["a", "", "", "b", ""], [(.property "x", [1, 4]), (.property "y", [2])]⟩)).joined = "aABbA" := by
  have hparse : parseBinding "shout" "a\x7b\x7b this.x \x7d\x7d\x7b\x7bthis.y\x7d\x7db\x7b\x7bx\x7d\x7d" =
      .ok ⟨["a", "", "", "b", ""], [(.property "x", [1, 4]), (.property "y", [2])]⟩ := by with_unfolding_all rfl
  obtain ⟨-, hrender, hfills⟩ := substitutes_of_read (.inr ⟨"shout", hparse⟩)
  refine ⟨hparse, ?_⟩
  rw [hfills, hrender]
  rfl

end Format

end ReactiveView
