import ReactiveView.Proofs.View.Queues

/-!
# What a live view shows

The *wiring* of a live view lists its text nodes, each with the source whose text it shows, and its
formatted attributes, each with its format, in document order (`Wiring`). A screen *shows* given texts
along a wiring when every text node holds the text of its source, and the parts of every attribute are
those of its format with the texts filled in (`Screen.Shows`).

Rendering a source in all its places changes what is shown by the text of this source
(`Screen.Shows.render`); what is wired elsewhere stays (`Screen.Shows.render_apart`).
-/

set_option autoImplicit false

namespace ReactiveView

/-- The text nodes and the formatted attributes of a live view, in document order. -/
structure Wiring where
  texts : List (NodeId × Source) := []
  formats : List (BindingId × Format) := []

namespace Wiring

/-- What two parts of a view have together. -/
def add (g h : Wiring) : Wiring where
  texts := g.texts ++ h.texts
  formats := g.formats ++ h.formats

instance : Append Wiring := ⟨add⟩

@[simp] theorem texts_append (g h : Wiring) : (g ++ h).texts = g.texts ++ h.texts := rfl

@[simp] theorem formats_append (g h : Wiring) : (g ++ h).formats = g.formats ++ h.formats := rfl

@[simp] theorem append_empty (g : Wiring) : g ++ ({} : Wiring) = g := by
  change add g {} = g
  simp [add]

@[simp] theorem empty_append (g : Wiring) : ({} : Wiring) ++ g = g := by
  change add {} g = g
  simp [add]

/-- A place where a source is shown. -/
def Lists (g : Wiring) (source : Source) : BoundNode → Prop
  | .text t => (t, source) ∈ g.texts
  | .attr b => ∃ f, (b, f) ∈ g.formats ∧ source ∈ f.sources

/-- A place of the view. -/
def Has (g : Wiring) : BoundNode → Prop
  | .text t => t ∈ g.texts.map (·.1)
  | .attr b => b ∈ g.formats.map (·.1)

theorem Lists.has {g : Wiring} {source : Source} {place : BoundNode} (h : g.Lists source place) :
    g.Has place := by
  cases place with
  | text t => exact List.mem_map_of_mem h
  | attr b =>
    obtain ⟨f, hf, -⟩ := h
    exact List.mem_map_of_mem (f := (·.1)) hf

theorem lists_append {g h : Wiring} {source : Source} {place : BoundNode} :
    (g ++ h).Lists source place ↔ g.Lists source place ∨ h.Lists source place := by
  cases place with
  | text t => exact List.mem_append
  | attr b => simp only [Lists, formats_append, List.mem_append, or_and_right, exists_or]

/-- The wiring of a view that uses the given sources and formats: every node and every attribute is
wired once, and formats are properly laid out. -/
structure Serves (g : Wiring) (u : Uses) : Prop where
  texts : g.texts.map (·.2) = u.texts
  formats : g.formats.map (·.2) = u.formats
  texts_nodup : (g.texts.map (·.1)).Nodup
  formats_nodup : (g.formats.map (·.1)).Nodup
  laid : ∀ f ∈ u.formats, f.Laid

namespace Serves

variable {g : Wiring} {u : Uses} (h : g.Serves u)

include h

/-- A text node shows one source. -/
theorem source_unique {t : NodeId} {s s' : Source} (hs : (t, s) ∈ g.texts) (hs' : (t, s') ∈ g.texts) :
    s = s' :=
  (Prod.mk.inj (List.inj_on_of_nodup_map h.texts_nodup hs hs' rfl)).2

theorem laid_of_mem {b : BindingId} {f : Format} (hf : (b, f) ∈ g.formats) : f.Laid :=
  h.laid f (h.formats ▸ List.mem_map_of_mem (f := (·.2)) hf)

end Serves

end Wiring

namespace Screen

variable {s s' : Screen} {g : Wiring} {u : Uses} {text text' : Source → String}

/-- Text nodes hold the texts of their sources, and attributes are filled with them. -/
structure Shows (s : Screen) (g : Wiring) (text : Source → String) : Prop where
  texts : ∀ t source, (t, source) ∈ g.texts → s.forest.kind? t = some (.text (text source))
  formats : ∀ b f, (b, f) ∈ g.formats →
    ∃ x, s.binding? b = some x ∧ x.slots = f.slots ∧ f.Filled text x.parts

/-- Nodes may have been moved and attributes been written, but texts and parts are the same. -/
structure Retains (s s' : Screen) : Prop where
  recast : s.forest.Recast s'.forest
  binding? : ∀ b x, s.binding? b = some x →
    ∃ x', s'.binding? b = some x' ∧ x'.slots = x.slots ∧ x'.parts = x.parts

theorem Retains.trans {s'' : Screen} (h : s.Retains s') (h' : s'.Retains s'') : s.Retains s'' where
  recast := h.recast.trans h'.recast
  binding? b x hx := by
    obtain ⟨x', hx', hslots, hparts⟩ := h.binding? b x hx
    obtain ⟨x'', hx'', hslots', hparts'⟩ := h'.binding? b x' hx'
    exact ⟨x'', hx'', hslots'.trans hslots, hparts'.trans hparts⟩

theorem Extends.retains (h : s.Extends s') : s.Retains s' :=
  ⟨h.recast, fun b x hx => ⟨x, h.old b x hx, .refl _, .refl _⟩⟩

/-- A flush changes no part of an attribute. -/
theorem retains_flush (s : Screen) (q : QueueId) : s.Retains (s.flush q).2 := by
  have hf := s.flushed_flush q
  refine ⟨hf.recast, fun b x hx => ?_⟩
  rw [hf.binding?, hx, Option.map_some]
  refine ⟨_, rfl, ?_⟩
  split <;> exact ⟨rfl, rfl⟩

theorem Shows.retains (h : s.Shows g text) (hr : s.Retains s') : s'.Shows g text where
  texts t source ht := hr.recast.kind? (h.texts t source ht) rfl
  formats b f hf := by
    obtain ⟨x, hx, hslots, hfilled⟩ := h.formats b f hf
    obtain ⟨x', hx', hslots', hparts'⟩ := hr.binding? b x hx
    exact ⟨x', hx', hslots'.trans hslots, hparts' ▸ hfilled⟩

/-- Rendering a source in all its places changes the text of this source. -/
theorem Shows.render (h : s.Shows g text) (hg : g.Serves u) (q : QueueId) {places : NodeSet}
    {source : Source} (hplaces : ∀ place, place ∈ places ↔ g.Lists source place) (new : String) :
    (s.render q places source new).Shows g (Function.update text source new) where
  texts t source' ht := by
    rw [kind?_render s q places source new (h.texts t source' ht)]
    by_cases hmem : BoundNode.text t ∈ places
    · rw [if_pos hmem, hg.source_unique ht ((hplaces _).1 hmem), Function.update_self]
    · have hne : source' ≠ source := by
        rintro rfl
        exact hmem ((hplaces _).2 ht)
      rw [if_neg hmem, Function.update_of_ne hne]
  formats b f hf := by
    obtain ⟨x, hx, hslots, hfilled⟩ := h.formats b f hf
    rw [binding?_render, hx, Option.map_some]
    refine ⟨_, rfl, ?_⟩
    by_cases hmem : BoundNode.attr b ∈ places
    · rw [if_pos hmem]
      refine ⟨hslots, ?_⟩
      change f.Filled _ (Format.fill x.slots x.parts source new)
      rw [hslots]
      exact hfilled.fill (hg.laid_of_mem hf).proper source new
    · rw [if_neg hmem]
      refine ⟨hslots, hfilled.congr fun σ hσ => ?_⟩
      have hne : σ ≠ source := by
        rintro rfl
        exact hmem ((hplaces _).2 ⟨f, hf, hσ⟩)
      rw [Function.update_of_ne hne]

/-- What is wired elsewhere stays. -/
theorem Shows.render_apart (h : s.Shows g text) (q : QueueId) {places : NodeSet}
    (hplaces : ∀ place ∈ places, ¬ g.Has place) (source : Source) (new : String) :
    (s.render q places source new).Shows g text where
  texts t source' ht := by
    rw [kind?_render s q places source new (h.texts t source' ht), if_neg]
    intro hmem
    exact hplaces _ hmem (List.mem_map_of_mem (f := (·.1)) ht)
  formats b f hf := by
    obtain ⟨x, hx, hslots, hfilled⟩ := h.formats b f hf
    rw [binding?_render, hx, Option.map_some, if_neg]
    · exact ⟨x, rfl, hslots, hfilled⟩
    · intro hmem
      exact hplaces _ hmem (List.mem_map_of_mem (f := (·.1)) hf)

/-- The text of an attribute is its format with the texts filled in. -/
theorem Shows.joined (h : s.Shows g text) (hg : g.Serves u) {b : BindingId} {f : Format}
    (hf : (b, f) ∈ g.formats) : ∃ x, s.binding? b = some x ∧ x.joined = f.render text := by
  obtain ⟨x, hx, -, hfilled⟩ := h.formats b f hf
  exact ⟨x, hx, hfilled.joined (hg.laid_of_mem hf)⟩

end Screen

end ReactiveView
