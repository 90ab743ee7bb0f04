import ReactiveView.Descriptor

/-!
# What a view uses

A view uses sources of text, properties that have their place at a marker, handlers, and keys under
which elements are exposed. `ViewNode.uses` lists all of them in document order, the formats of
attributes apart from the sources of texts (`Uses`).

A view that is put in the place of an extension point adds what it uses to what is used already, and
keeps the rest (`uses_replaceAt?`); the order of what is used changes, so that lists are compared up to
it (`Uses.Covers`). A path into the new view leads on to the same place (`ViewNode.at?_append`).

`Format.Laid` are the formats that are made by adding texts and holes at the end.
-/

set_option autoImplicit false

namespace ReactiveView

/-- A format made from nothing by adding texts and holes at its end. -/
inductive Format.Laid : Format → Prop where
  | empty : Laid {}
  | addText {f : Format} (hf : Laid f) (text : String) : Laid (f.addText text)
  | addHole {f : Format} (hf : Laid f) (source : Source) : Laid (f.addHole source)

/-- A text at the end of a format adds no source. -/
theorem Format.sources_addText (f : Format) (text : String) : (f.addText text).sources = f.sources := by
  unfold addText
  split <;> rfl

/-! ## Lists of uses -/

/-- What a view uses, in document order. -/
structure Uses where
  /-- The sources of text nodes. -/
  texts : List Source := []
  /-- The formats of attributes. -/
  formats : List Format := []
  /-- The properties of markers. -/
  markers : List String := []
  /-- The handlers of elements. -/
  handlers : List Handler := []
  /-- The keys of exposed elements. -/
  keys : List String := []

namespace Uses

/-- All sources: those of texts and those of the holes of formats. -/
def sources (u : Uses) : List Source := u.texts ++ u.formats.flatMap Format.sources

/-- What two parts of a view use together. -/
def add (u v : Uses) : Uses where
  texts := u.texts ++ v.texts
  formats := u.formats ++ v.formats
  markers := u.markers ++ v.markers
  handlers := u.handlers ++ v.handlers
  keys := u.keys ++ v.keys

instance : Append Uses := ⟨add⟩

variable (u v w : Uses)

@[simp] theorem texts_append : (u ++ v).texts = u.texts ++ v.texts := rfl

@[simp] theorem formats_append : (u ++ v).formats = u.formats ++ v.formats := rfl

@[simp] theorem markers_append : (u ++ v).markers = u.markers ++ v.markers := rfl

@[simp] theorem handlers_append : (u ++ v).handlers = u.handlers ++ v.handlers := rfl

@[simp] theorem keys_append : (u ++ v).keys = u.keys ++ v.keys := rfl

theorem mem_sources {s : Source} :
    s ∈ u.sources ↔ s ∈ u.texts ∨ ∃ f ∈ u.formats, s ∈ f.sources := by
  simp [sources]

theorem mem_sources_append {s : Source} : s ∈ (u ++ v).sources ↔ s ∈ u.sources ∨ s ∈ v.sources := by
  simp only [mem_sources, texts_append, formats_append, List.mem_append]
  constructor
  · rintro ((h | h) | ⟨f, h | h, hs⟩)
    · exact Or.inl (Or.inl h)
    · exact Or.inr (Or.inl h)
    · exact Or.inl (Or.inr ⟨f, h, hs⟩)
    · exact Or.inr (Or.inr ⟨f, h, hs⟩)
  · rintro ((h | ⟨f, h, hs⟩) | (h | ⟨f, h, hs⟩))
    · exact Or.inl (Or.inl h)
    · exact Or.inr ⟨f, Or.inl h, hs⟩
    · exact Or.inl (Or.inr h)
    · exact Or.inr ⟨f, Or.inr h, hs⟩

/-- The parts of a view can be taken together in any way. -/
theorem append_assoc : u ++ v ++ w = u ++ (v ++ w) := by
  change add (add u v) w = add u (add v w)
  simp [add]

@[simp] theorem append_empty : u ++ ({} : Uses) = u := by
  change add u {} = u
  simp [add]

@[simp] theorem empty_append : ({} : Uses) ++ u = u := by
  change add {} u = u
  simp [add]

/-- One list of uses holds all that another holds; markers and keys are the same up to their order. -/
structure Covers (u v : Uses) : Prop where
  texts : v.texts ⊆ u.texts
  formats : v.formats ⊆ u.formats
  markers : v.markers.Perm u.markers
  handlers : v.handlers ⊆ u.handlers
  keys : v.keys.Perm u.keys

variable {u v w}

theorem Covers.rfl : u.Covers u :=
  ⟨List.Subset.refl _, List.Subset.refl _, List.Perm.refl _, List.Subset.refl _, List.Perm.refl _⟩

theorem Covers.trans (h : u.Covers v) (h' : v.Covers w) : u.Covers w where
  texts := List.Subset.trans h'.texts h.texts
  formats := List.Subset.trans h'.formats h.formats
  markers := h'.markers.trans h.markers
  handlers := List.Subset.trans h'.handlers h.handlers
  keys := h'.keys.trans h.keys

/-- What stands before and what stands behind may change independently. -/
theorem Covers.append {u' v' : Uses} (h : u.Covers v) (h' : u'.Covers v') :
    (u ++ u').Covers (v ++ v') where
  texts := List.append_subset.2
    ⟨List.subset_append_of_subset_left _ h.texts, List.subset_append_of_subset_right _ h'.texts⟩
  formats := List.append_subset.2
    ⟨List.subset_append_of_subset_left _ h.formats, List.subset_append_of_subset_right _ h'.formats⟩
  markers := h.markers.append h'.markers
  handlers := List.append_subset.2
    ⟨List.subset_append_of_subset_left _ h.handlers, List.subset_append_of_subset_right _ h'.handlers⟩
  keys := h.keys.append h'.keys

/-- Two parts may change places. -/
theorem covers_comm (u v : Uses) : (u ++ v).Covers (v ++ u) where
  texts := List.append_subset.2 ⟨List.subset_append_right _ _, List.subset_append_left _ _⟩
  formats := List.append_subset.2 ⟨List.subset_append_right _ _, List.subset_append_left _ _⟩
  markers := List.perm_append_comm
  handlers := List.append_subset.2 ⟨List.subset_append_right _ _, List.subset_append_left _ _⟩
  keys := List.perm_append_comm

/-- A source that is held by the covered uses is held by those that cover them. -/
theorem Covers.sources (h : u.Covers v) : v.sources ⊆ u.sources := by
  intro s hs
  rw [mem_sources] at hs ⊢
  rcases hs with hs | ⟨f, hf, hs⟩
  · exact Or.inl (h.texts hs)
  · exact Or.inr ⟨f, h.formats hf, hs⟩

end Uses

/-! ## The uses of a view -/

/-- What an element uses, its children apart. -/
def ElementShape.uses (shape : ElementShape) : Uses where
  formats := shape.attrs.filterMap (·.format)
  handlers := shape.domHandlers.map (·.2) ++ shape.childHandlers.map (·.2)
  keys := shape.exposeKey.toList

namespace ViewNode

mutual

/-- What a view uses. -/
def uses : ViewNode → Uses
  | element shape children => shape.uses ++ usesAll children
  | text _ source => { texts := source.toList }
  | marker _ property => { markers := property.toList }
  | extensionPoint => {}

/-- What the views of a list use. -/
def usesAll : List ViewNode → Uses
  | [] => {}
  | v :: vs => uses v ++ usesAll vs

end

theorem usesAll_append (vs ws : List ViewNode) : usesAll (vs ++ ws) = usesAll vs ++ usesAll ws := by
  induction vs with
  | nil => simp [usesAll]
  | cons v vs ih => simp [usesAll, ih, Uses.append_assoc]

theorem usesAll_singleton (v : ViewNode) : usesAll [v] = v.uses := by
  simp [usesAll]

/-- A child that uses more makes the list of children use more. -/
theorem covers_usesAll_set {u : Uses} {v w : ViewNode} (hw : (v.uses ++ u).Covers w.uses)
    {vs : List ViewNode} {i : Nat} (hv : vs[i]? = some v) :
    (usesAll vs ++ u).Covers (usesAll (vs.set i w)) := by
  induction vs generalizing i with
  | nil => cases hv
  | cons x vs ih =>
    cases i with
    | zero =>
      obtain rfl := Option.some.inj hv
      simp only [List.set_cons_zero, usesAll, Uses.append_assoc]
      -- what is new stands behind the siblings on one side and before them on the other
      have hmove := (Uses.Covers.rfl (u := x.uses)).append (Uses.covers_comm (usesAll vs) u)
      rw [← Uses.append_assoc x.uses u] at hmove
      exact hmove.trans (hw.append .rfl)
    | succ i =>
      simp only [List.set_cons_succ, usesAll, Uses.append_assoc]
      exact Uses.Covers.rfl.append (ih hv)

/-- A view in the place of an extension point adds what it uses. -/
theorem uses_replaceAt? {new v w : ViewNode} {path : List Nat}
    (hpoint : v.at? path = some .extensionPoint) (h : replaceAt? new path v = some w) :
    (v.uses ++ new.uses).Covers w.uses := by
  induction path generalizing v w with
  | nil =>
    obtain rfl := Option.some.inj hpoint
    obtain rfl := Option.some.inj h
    simpa [uses] using Uses.Covers.rfl
  | cons i rest ih =>
    cases v with
    | element shape children =>
      unfold at? at hpoint
      unfold replaceAt? at h
      dsimp only [ViewNode.children] at hpoint h
      cases hc : children[i]? with
      | none => simp [hc] at h
      | some child =>
        rw [hc] at hpoint h
        dsimp only at hpoint h
        cases hr : replaceAt? new rest child with
        | none => simp [hr] at h
        | some child' =>
          rw [hr] at h
          obtain rfl := Option.some.inj h
          simp only [uses, Uses.append_assoc]
          exact Uses.Covers.rfl.append (covers_usesAll_set (ih hpoint hr) hc)
    | text value source => cases h
    | marker value property => cases h
    | extensionPoint => cases h

/-- A path goes on from where its first part leads. -/
theorem at?_append (p q : List Nat) (v : ViewNode) : v.at? (p ++ q) = (v.at? p).bind (at? q) := by
  induction p generalizing v with
  | nil => rfl
  | cons i p ih =>
    simp only [List.cons_append, at?]
    cases v.children[i]? with
    | none => rfl
    | some child => exact ih child

end ViewNode

/-- What the view of a class uses. -/
def Descriptor.uses (d : Descriptor) : Uses := (d.view.map ViewNode.uses).getD {}

end ReactiveView
