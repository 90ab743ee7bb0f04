import ReactiveView.Proofs.Template.Chain

/-!
# Attributes of the elements of a view

The elements of a view that has been read from templates carry every attribute once, but for `style`: it may
be written under its own name and as `ooml-style` (`Descriptor.Parsed.distinct`). An attribute of a template is
refused only if its own name has been seen on the element, and `ooml-style` is given its other name after that.
-/

set_option autoImplicit false

namespace ReactiveView

/-- The names of the attributes of an element. -/
def ElementShape.tags (shape : ElementShape) : List String := shape.attrs.map (·.name.tag)

/-- No two attributes have the same name, unless it is `style`. -/
def ElementShape.Distinct (shape : ElementShape) : Prop := ∀ t, t ≠ "style" → shape.tags.count t ≤ 1

namespace ViewNode

mutual

/-- The elements of a view in document order. -/
def elements : ViewNode → List ElementShape
  | element shape children => shape :: elementsAll children
  | text _ _ => []
  | marker _ _ => []
  | extensionPoint => []

/-- The elements of the views of a list in document order. -/
def elementsAll : List ViewNode → List ElementShape
  | [] => []
  | v :: vs => elements v ++ elementsAll vs

end

theorem mem_elementsAll {vs : List ViewNode} {s : ElementShape} :
    s ∈ elementsAll vs ↔ ∃ v ∈ vs, s ∈ v.elements := by
  induction vs with
  | nil => simp [elementsAll]
  | cons v vs ih => simp [elementsAll, ih]

/-- An element of a view with another node in one place is an element of the one or of the other. -/
theorem mem_elements_of_replaceAt? {new v w : ViewNode} {path : List Nat} {s : ElementShape}
    (h : ViewNode.replaceAt? new path v = some w) (hs : s ∈ w.elements) : s ∈ new.elements ∨ s ∈ v.elements := by
  induction path generalizing v w with
  | nil =>
    obtain rfl := Option.some.inj h
    exact Or.inl hs
  | cons i rest ih =>
    unfold ViewNode.replaceAt? at h
    split at h
    · next shape children =>
      split at h
      · next child hchild =>
        split at h
        · next child' hr =>
          obtain rfl := Option.some.inj h
          rw [elements] at hs ⊢
          rcases List.mem_cons.1 hs with rfl | hs
          · exact Or.inr List.mem_cons_self
          · obtain ⟨x, hx, hsx⟩ := mem_elementsAll.1 hs
            have hold {y : ViewNode} (hy : y ∈ children) (hsy : s ∈ y.elements) : s ∈ shape :: elementsAll children :=
              List.mem_cons_of_mem _ (mem_elementsAll.2 ⟨y, hy, hsy⟩)
            rcases List.mem_or_eq_of_mem_set hx with hx | rfl
            · exact Or.inr (hold hx hsx)
            · rcases ih hr hsx with hs | hs
              · exact Or.inl hs
              · exact Or.inr (hold (List.mem_of_getElem? hchild) hs)
        · cases h
      · cases h
    · cases h

end ViewNode

/-- The elements of the view of a class in document order. -/
def Descriptor.elements (d : Descriptor) : List ElementShape := (d.view.map ViewNode.elements).getD []

namespace Template

variable {r : Reading} {d d' : Draft} {nodes : List ViewNode}

/-! ## Attributes of one element -/

/-- An attribute that is taken adds one name at most: its own, or `style`. -/
theorem tags_readAttribute {shape shape' : ElementShape} {a : Attr} {name : String}
    (h : readAttribute r d shape a name = .ok (shape', d')) : shape'.tags = shape.tags ∨
      ∃ t, shape'.tags = shape.tags ++ [t] ∧ (t = "style" ∨ t = a.name.tag) := by
  have hadd (target : QName) (value : String) (format : Option Format)
      (htarget : target.tag = "style" ∨ target.tag = a.name.tag) :
      ∃ t, ElementShape.tags { shape with attrs := shape.attrs ++ [⟨target, value, format⟩] } =
        shape.tags ++ [t] ∧ (t = "style" ∨ t = a.name.tag) :=
    ⟨target.tag, List.map_append, htarget⟩
  unfold readAttribute at h
  simp only [bind, Except.bind, pure, Except.pure] at h
  split at h
  · (repeat' split at h) <;> (cases h; try exact Or.inl rfl)
  · split at h
    · (repeat' split at h) <;> (cases h; try exact Or.inl rfl)
    · split at h
      · cases h
      · split at h
        · (repeat' split at h) <;> (cases h; try exact Or.inl rfl)
        · have htarget : (if name = "ooml-style" then QName.plain "style" else a.name).tag = "style" ∨
              (if name = "ooml-style" then QName.plain "style" else a.name).tag = a.name.tag := by
            split
            · exact Or.inl rfl
            · exact Or.inr rfl
          generalize (if name = "ooml-style" then QName.plain "style" else a.name) = target at h htarget
          split at h
          · split at h
            · cases h
            · next x hformat =>
              cases h
              exact Or.inr (hadd target _ _ htarget)
          · cases h
            exact Or.inr (hadd target _ _ htarget)

/-- Names that have been taken have been seen, but for `style`. -/
theorem distinct_readAttributes {as : List Attr} {shape shape' : ElementShape} {seen : List String}
    (h : readAttributes r d shape seen as = .ok (shape', d'))
    (hseen : ∀ t ∈ shape.tags, t = "style" ∨ Text.lowercase t ∈ seen) (hshape : shape.Distinct) :
    shape'.Distinct := by
  induction as generalizing d shape seen with
  | nil =>
    obtain ⟨rfl, -⟩ := Prod.mk.inj (Except.ok.inj h)
    exact hshape
  | cons a as ih =>
    unfold readAttributes at h
    dsimp only at h
    split at h
    · cases h
    · next hnew =>
      split at h
      · cases h
      · next shape₁ d₁ ha =>
        have hnew : Text.lowercase a.name.tag ∉ seen := by simpa using hnew
        rcases tags_readAttribute ha with htags | ⟨u, htags, hown⟩
        · refine ih h (fun t ht => ?_) fun t ht => ?_
          · rw [htags] at ht
            exact (hseen t ht).imp_right (List.mem_cons_of_mem _)
          · rw [htags]
            exact hshape t ht
        · refine ih h (fun t ht => ?_) fun t ht => ?_
          · rw [htags] at ht
            rcases List.mem_append.1 ht with ht | ht
            · exact (hseen t ht).imp_right (List.mem_cons_of_mem _)
            · obtain rfl := List.mem_singleton.1 ht
              refine hown.imp_right fun htag => ?_
              rw [htag]
              exact List.mem_cons_self
          · rw [htags, List.count_append]
            by_cases htu : t = u
            · subst htu
              have hfree : t ∉ shape.tags := by
                intro hmem
                refine hnew ?_
                rw [← hown.resolve_left ht]
                exact (hseen t hmem).resolve_left ht
              have hone : shape.tags.count t + [t].count t = 1 := by
                rw [List.count_eq_zero_of_not_mem hfree, List.count_singleton_self, Nat.zero_add]
              exact Nat.le_of_eq hone
            · rw [List.count_eq_zero_of_not_mem (l := [u]) (by simpa using htu)]
              exact hshape t ht

/-! ## Nodes -/

/-- The pieces of a text are no elements. -/
theorem elements_nodesOfPieces {pieces : List Piece} (h : nodesOfPieces r d pieces = .ok (nodes, d')) :
    ViewNode.elementsAll nodes = [] := by
  induction pieces generalizing d nodes with
  | nil =>
    obtain ⟨rfl, -⟩ := Prod.mk.inj (Except.ok.inj h)
    rfl
  | cons piece rest ih =>
    -- whatever the piece gives, a rest follows without elements
    have hrest {d₁ : Draft} {node : ViewNode} (hnode : node.elements = [])
        (h : (nodesOfPieces r d₁ rest).map (fun x => (node :: x.1, x.2)) = .ok (nodes, d')) :
        ViewNode.elementsAll nodes = [] := by
      cases hnodes : nodesOfPieces r d₁ rest with
      | error e =>
        rw [hnodes] at h
        cases h
      | ok x =>
        rw [hnodes] at h
        obtain ⟨rfl, rfl⟩ := Prod.mk.inj (Except.ok.inj h)
        rw [ViewNode.elementsAll, hnode, ih hnodes]
        rfl
    cases piece with
    | plain s =>
      have hnode : (ViewNode.text (String.ofList s) none).elements = [] := rfl
      exact hrest hnode h
    | ofText code =>
      unfold nodesOfPieces at h
      split at h
      · cases h
      · next source d₁ _ =>
        have hnode : (ViewNode.text "" (some source)).elements = [] := rfl
        exact hrest hnode h
    | ofElement code =>
      unfold nodesOfPieces at h
      split at h
      · cases h
      · next name d₁ _ =>
        have hnode : (ViewNode.marker "" (some name)).elements = [] := rfl
        exact hrest hnode h
    | fault e => cases h

mutual

theorem distinct_readNode : ∀ (m : Markup) {d d' : Draft} {path : List Nat} {nodes : List ViewNode},
    readNode r d path m = .ok (nodes, d') → ∀ s ∈ ViewNode.elementsAll nodes, s.Distinct
  | .text text, d, d', path, nodes, h => by
    unfold readNode at h
    intro s hs
    rw [elements_nodesOfPieces h] at hs
    exact absurd hs List.not_mem_nil
  | .comment text, d, d', path, nodes, h => by
    unfold readNode at h
    obtain ⟨rfl, -⟩ := Prod.mk.inj (Except.ok.inj h)
    exact fun s hs => absurd hs List.not_mem_nil
  | .element name attrs apart children, d, d', path, nodes, h => by
    unfold readNode at h
    split at h
    · split at h
      · cases h
      · obtain ⟨rfl, -⟩ := Prod.mk.inj (Except.ok.inj h)
        exact fun s hs => absurd hs List.not_mem_nil
    · split at h
      · cases h
      · split at h
        · cases h
        · next shape d₁ hattrs =>
          have hshape : shape.Distinct := distinct_readAttributes hattrs (fun t ht => absurd ht List.not_mem_nil)
            fun t _ => Nat.zero_le 1
          have hone {below : List ViewNode} (hbelow : ∀ s ∈ ViewNode.elementsAll below, s.Distinct) :
              ∀ s ∈ ViewNode.elementsAll [.element shape below], s.Distinct := by
            intro s hs
            rw [ViewNode.elementsAll, ViewNode.elementsAll, List.append_nil, ViewNode.elements] at hs
            rcases List.mem_cons.1 hs with rfl | hs
            · exact hshape
            · exact hbelow s hs
          split at h
          · obtain ⟨rfl, -⟩ := Prod.mk.inj (Except.ok.inj h)
            exact hone fun s hs => absurd hs List.not_mem_nil
          · split at h
            · cases h
            · next nodes' d₂ hnodes =>
              obtain ⟨rfl, -⟩ := Prod.mk.inj (Except.ok.inj h)
              exact hone (distinct_readNodes children hnodes fun s hs => absurd hs List.not_mem_nil)

theorem distinct_readNodes : ∀ (ms : List Markup) {d d' : Draft} {path : List Nat}
    {read nodes : List ViewNode}, readNodes r d path read ms = .ok (nodes, d') →
    (∀ s ∈ ViewNode.elementsAll read, s.Distinct) → ∀ s ∈ ViewNode.elementsAll nodes, s.Distinct
  | [], d, d', path, read, nodes, h, hread => by
    unfold readNodes at h
    obtain ⟨rfl, -⟩ := Prod.mk.inj (Except.ok.inj h)
    exact hread
  | m :: ms, d, d', path, read, nodes, h, hread => by
    unfold readNodes at h
    split at h
    · cases h
    · next nodes₁ d₁ hm =>
      refine distinct_readNodes ms h fun s hs => ?_
      obtain ⟨v, hv, hsv⟩ := ViewNode.mem_elementsAll.1 hs
      rcases List.mem_append.1 hv with hv | hv
      · exact hread s (ViewNode.mem_elementsAll.2 ⟨v, hv, hsv⟩)
      · exact distinct_readNode m hm s (ViewNode.mem_elementsAll.2 ⟨v, hv, hsv⟩)

end

theorem distinct_readRoot {root : Option Markup} {view : Option ViewNode}
    (h : readRoot r d root = .ok (view, d')) : ∀ v, view = some v → ∀ s ∈ v.elements, s.Distinct := by
  rintro v rfl
  cases root with
  | none => cases h
  | some m =>
    unfold readRoot at h
    cases hm : readNode r d [] m with
    | error e =>
      simp only [hm] at h
      cases h
    | ok x =>
      simp only [hm] at h
      obtain ⟨hlast, -⟩ := Prod.mk.inj (Except.ok.inj h)
      intro s hs
      exact distinct_readNode m hm s (ViewNode.mem_elementsAll.2 ⟨v, List.mem_of_getLast? hlast, hs⟩)

theorem distinct_compose {parent : Option Descriptor} {own view : Option ViewNode}
    {ownPoint point : Option (List Nat)} (h : compose parent own ownPoint = .ok (view, point))
    (hparent : ∀ p, parent = some p → ∀ v, p.view = some v → ∀ s ∈ v.elements, s.Distinct)
    (hown : ∀ v, own = some v → ∀ s ∈ v.elements, s.Distinct) :
    ∀ v, view = some v → ∀ s ∈ v.elements, s.Distinct := by
  have hinherited {v : ViewNode} (hv : parent.bind (·.view) = some v) : ∀ s ∈ v.elements, s.Distinct := by
    obtain ⟨p, hp, hview⟩ := Option.bind_eq_some_iff.1 hv
    exact hparent p hp v hview
  unfold compose at h
  split at h
  · obtain ⟨rfl, -⟩ := Prod.mk.inj (Except.ok.inj h)
    exact hown
  · next inherited hview =>
    obtain ⟨rfl, -⟩ := Prod.mk.inj (Except.ok.inj h)
    rintro v hv
    exact Option.some.inj hv ▸ hinherited hview
  · next inherited own hview =>
    split at h
    · cases h
    · split at h
      · cases h
      · next view' hreplace =>
        obtain ⟨rfl, -⟩ := Prod.mk.inj (Except.ok.inj h)
        rintro v hv s hs
        obtain rfl := Option.some.inj hv
        exact (ViewNode.mem_elements_of_replaceAt? hreplace hs).elim (hown _ rfl s) (hinherited hview s)

end Template

/-- Along every chain of templates, the elements of the view carry every attribute but `style` at most once. -/
theorem Descriptor.Parsed.distinct {d : Descriptor} (hd : d.Parsed) : ∀ s ∈ d.elements, s.Distinct := by
  have hview : ∀ v, d.view = some v → ∀ s ∈ v.elements, s.Distinct := by
    induction hd with
    | parse r definition parent _ d h ih =>
      obtain ⟨d₁, parts, d₂, d₃, own, d₄, view, point, ps, -, -, -, -, hroot, hcompose, -, -, -, -, hview, -⟩ :=
        Template.parse_ok h
      rw [hview]
      refine Template.distinct_compose hcompose (fun p hp v hv => ?_) (Template.distinct_readRoot hroot)
      obtain ⟨y, hy, rfl⟩ := Option.map_eq_some_iff.1 hp
      exact ih y hy v hv
  intro s hs
  unfold Descriptor.elements at hs
  cases hv : d.view with
  | none =>
    rw [hv] at hs
    exact absurd hs List.not_mem_nil
  | some v =>
    rw [hv] at hs
    exact hview v hv s hs

end ReactiveView
