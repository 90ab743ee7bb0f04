import ReactiveView.Proofs.Template.Chain

/-!
# Texts that stand empty

In a view that has been read from templates, every text that shows a source stands empty
(`ViewNode.Blank`): it is filled when a value is rendered (`Descriptor.Parsed.blank`).
-/

set_option autoImplicit false

namespace ReactiveView

namespace ViewNode

mutual

/-- Texts that show a source stand empty. -/
def Blank : ViewNode → Prop
  | element _ children => BlankAll children
  | text value source => source.isSome = true → value = ""
  | marker _ _ => True
  | extensionPoint => True

/-- Texts that show a source stand empty in all views of a list. -/
def BlankAll : List ViewNode → Prop
  | [] => True
  | v :: vs => Blank v ∧ BlankAll vs

end

theorem blankAll_iff {vs : List ViewNode} : BlankAll vs ↔ ∀ v ∈ vs, v.Blank := by
  induction vs with
  | nil => simp [BlankAll]
  | cons v vs ih => simp [BlankAll, ih]

theorem Blank.replaceAt? {new v w : ViewNode} {path : List Nat} (hnew : new.Blank) (hv : v.Blank)
    (h : ViewNode.replaceAt? new path v = some w) : w.Blank := by
  induction path generalizing v w with
  | nil =>
    obtain rfl := Option.some.inj h
    exact hnew
  | cons i rest ih =>
    unfold ViewNode.replaceAt? at h
    split at h
    · next shape children =>
      split at h
      · next child hchild =>
        split at h
        · next child' hr =>
          obtain rfl := Option.some.inj h
          unfold Blank at hv ⊢
          rw [blankAll_iff] at hv ⊢
          intro x hx
          rcases List.mem_or_eq_of_mem_set hx with hx | rfl
          · exact hv x hx
          · exact ih (hv child (List.mem_of_getElem? hchild)) hr
        · cases h
      · cases h
    · cases h

end ViewNode

namespace Template

variable {r : Reading} {d d' : Draft} {nodes : List ViewNode}

theorem blank_nodesOfPieces {pieces : List Piece} (h : nodesOfPieces r d pieces = .ok (nodes, d')) :
    ∀ v ∈ nodes, v.Blank := by
  induction pieces generalizing d nodes with
  | nil =>
    obtain ⟨rfl, -⟩ := Prod.mk.inj (Except.ok.inj h)
    exact fun v hv => absurd hv List.not_mem_nil
  | cons piece rest ih =>
    -- whatever the piece gives, a rest follows that is blank
    have hrest {d₁ : Draft} {node : ViewNode} (hnode : node.Blank)
        (h : (nodesOfPieces r d₁ rest).map (fun x => (node :: x.1, x.2)) = .ok (nodes, d')) :
        ∀ v ∈ nodes, v.Blank := by
      cases hnodes : nodesOfPieces r d₁ rest with
      | error e =>
        rw [hnodes] at h
        cases h
      | ok x =>
        rw [hnodes] at h
        obtain ⟨rfl, rfl⟩ := Prod.mk.inj (Except.ok.inj h)
        intro v hv
        rcases List.mem_cons.1 hv with rfl | hv
        · exact hnode
        · exact ih hnodes v hv
    cases piece with
    | plain s =>
      have hnode : (ViewNode.text (String.ofList s) none).Blank := fun hs => by cases hs
      exact hrest hnode h
    | ofText code =>
      unfold nodesOfPieces at h
      split at h
      · cases h
      · next source d₁ _ =>
        have hnode : (ViewNode.text "" (some source)).Blank := fun _ => rfl
        exact hrest hnode h
    | ofElement code =>
      unfold nodesOfPieces at h
      split at h
      · cases h
      · next name d₁ _ =>
        have hnode : (ViewNode.marker "" (some name)).Blank := trivial
        exact hrest hnode h
    | fault e => cases h

mutual

theorem blank_readNode : ∀ (m : Markup) {d d' : Draft} {path : List Nat} {nodes : List ViewNode},
    readNode r d path m = .ok (nodes, d') → ∀ v ∈ nodes, v.Blank
  | .text s, d, d', path, nodes, h => by
    unfold readNode at h
    exact blank_nodesOfPieces h
  | .comment s, d, d', path, nodes, h => by
    unfold readNode at h
    obtain ⟨rfl, -⟩ := Prod.mk.inj (Except.ok.inj h)
    intro v hv
    rw [List.mem_singleton.1 hv]
    trivial
  | .element name attrs apart children, d, d', path, nodes, h => by
    have hone {node : ViewNode} (hnode : node.Blank) : ∀ v ∈ [node], v.Blank := fun v hv =>
      List.mem_singleton.1 hv ▸ hnode
    unfold readNode at h
    split at h
    · split at h
      · cases h
      · obtain ⟨rfl, -⟩ := Prod.mk.inj (Except.ok.inj h)
        exact hone trivial
    · split at h
      · cases h
      · split at h
        · cases h
        · split at h
          · obtain ⟨rfl, -⟩ := Prod.mk.inj (Except.ok.inj h)
            exact hone trivial
          · split at h
            · cases h
            · next nodes' d₂ hnodes =>
              obtain ⟨rfl, -⟩ := Prod.mk.inj (Except.ok.inj h)
              refine hone (ViewNode.blankAll_iff.2 ?_)
              exact blank_readNodes children hnodes fun v hv => absurd hv List.not_mem_nil

theorem blank_readNodes : ∀ (ms : List Markup) {d d' : Draft} {path : List Nat}
    {read nodes : List ViewNode}, readNodes r d path read ms = .ok (nodes, d') →
    (∀ v ∈ read, v.Blank) → ∀ v ∈ nodes, v.Blank
  | [], d, d', path, read, nodes, h, hread => by
    unfold readNodes at h
    obtain ⟨rfl, -⟩ := Prod.mk.inj (Except.ok.inj h)
    exact hread
  | m :: ms, d, d', path, read, nodes, h, hread => by
    unfold readNodes at h
    split at h
    · cases h
    · next nodes₁ d₁ hm =>
      refine blank_readNodes ms h fun v hv => ?_
      exact (List.mem_append.1 hv).elim (hread v) (blank_readNode m hm v)

end

theorem blank_readRoot {root : Option Markup} {view : Option ViewNode}
    (h : readRoot r d root = .ok (view, d')) : ∀ v, view = some v → v.Blank := by
  rintro v rfl
  cases root with
  | none => cases h
  | some m =>
    unfold readRoot at h
    cases hm : readNode r d [] m with
    | error e =>
      simp only [hm] at h
      cases h
    | ok x =>
      simp only [hm] at h
      obtain ⟨hlast, -⟩ := Prod.mk.inj (Except.ok.inj h)
      exact blank_readNode m hm v (List.mem_of_getLast? hlast)

theorem blank_compose {parent : Option Descriptor} {own view : Option ViewNode}
    {ownPoint point : Option (List Nat)} (h : compose parent own ownPoint = .ok (view, point))
    (hparent : ∀ p, parent = some p → ∀ v, p.view = some v → v.Blank)
    (hown : ∀ v, own = some v → v.Blank) : ∀ v, view = some v → v.Blank := by
  have hinherited {v : ViewNode} (hv : parent.bind (·.view) = some v) : v.Blank := by
    obtain ⟨p, hp, hview⟩ := Option.bind_eq_some_iff.1 hv
    exact hparent p hp v hview
  unfold compose at h
  split at h
  · obtain ⟨rfl, -⟩ := Prod.mk.inj (Except.ok.inj h)
    exact hown
  · next inherited hview =>
    obtain ⟨rfl, -⟩ := Prod.mk.inj (Except.ok.inj h)
    rintro v hv
    exact Option.some.inj hv ▸ hinherited hview
  · next inherited own hview =>
    split at h
    · cases h
    · split at h
      · cases h
      · next view' hreplace =>
        obtain ⟨rfl, -⟩ := Prod.mk.inj (Except.ok.inj h)
        rintro v hv
        rw [← Option.some.inj hv]
        exact (hown _ rfl).replaceAt? (hinherited hview) hreplace

end Template

/-- Along every chain of templates, texts that show a source stand empty. -/
theorem Descriptor.Parsed.blank {d : Descriptor} (hd : d.Parsed) : ∀ v, d.view = some v → v.Blank := by
  induction hd with
  | parse r definition parent _ d h ih =>
    obtain ⟨d₁, parts, d₂, d₃, own, d₄, view, point, ps, -, -, -, -, hroot, hcompose, -, -, -, -, hview, -⟩ :=
      Template.parse_ok h
    rw [hview]
    refine Template.blank_compose hcompose (fun p hp v hv => ?_) (Template.blank_readRoot hroot)
    obtain ⟨y, hy, rfl⟩ := Option.map_eq_some_iff.1 hp
    exact ih y hy v hv

end ReactiveView
