import ReactiveView.Proofs.Template.Walk

/-!
# Extension points of views

`ViewNode.points` lists the paths to the extension points of a view in document order; a path is listed
exactly when it leads to one (`ViewNode.mem_points`). The walk through the template of a class records
what is listed: every node adds the points of the view nodes that it gives (`points_readNode`,
`points_readNodes`), texts and attributes add none.

A view put in a place leaves all positions outside that place as they were, and stands itself below it
(`ViewNode.Graft`, `ViewNode.graft_replaceAt?`).
-/

set_option autoImplicit false

namespace ReactiveView

namespace ViewNode

/-! ## The paths to extension points -/

mutual

/-- The paths to the extension points of a view, in document order. -/
def points : ViewNode → List (List Nat)
  | element _ children => pointsFrom 0 children
  | text _ _ => []
  | marker _ _ => []
  | extensionPoint => [[]]

/-- The paths to the extension points of nodes in a row, the first of which stands at a position. -/
def pointsFrom : Nat → List ViewNode → List (List Nat)
  | _, [] => []
  | n, v :: vs => (points v).map (n :: ·) ++ pointsFrom (n + 1) vs

end

theorem pointsFrom_append (n : Nat) (vs ws : List ViewNode) :
    pointsFrom n (vs ++ ws) = pointsFrom n vs ++ pointsFrom (n + vs.length) ws := by
  induction vs generalizing n with
  | nil => rfl
  | cons v vs ih =>
    simp only [List.cons_append, pointsFrom, List.length_cons, List.append_assoc, ih]
    rw [show n + 1 + vs.length = n + (vs.length + 1) by omega]

theorem pointsFrom_eq_nil {n : Nat} {vs : List ViewNode} (h : ∀ v ∈ vs, v.points = []) :
    pointsFrom n vs = [] := by
  induction vs generalizing n with
  | nil => rfl
  | cons v vs ih =>
    rw [pointsFrom, h v List.mem_cons_self, ih fun w hw => h w (List.mem_cons_of_mem _ hw)]
    rfl

mutual

/-- The paths that are listed are those that lead to an extension point. -/
theorem mem_points : ∀ {v : ViewNode} {path : List Nat},
    path ∈ v.points ↔ v.at? path = some .extensionPoint
  | element shape children, [] => by
    simp only [points, mem_pointsFrom, at?_nil]
    refine iff_of_false ?_ (fun h => by cases h)
    rintro ⟨i, rest, h, -⟩
    cases h
  | element shape children, i :: rest => by
    simp only [points, mem_pointsFrom, at?, ViewNode.children, Nat.zero_add]
    constructor
    · rintro ⟨i', rest', h, v, hv, hat⟩
      obtain ⟨rfl, rfl⟩ := List.cons.inj h
      rw [hv]
      exact hat
    · intro h
      cases hv : children[i]? with
      | none => simp [hv] at h
      | some v =>
        rw [hv] at h
        exact ⟨i, rest, rfl, v, hv, h⟩
  | text value source, path => by
    cases path <;> simp [points, at?, ViewNode.children]
  | marker value property, path => by
    cases path <;> simp [points, at?, ViewNode.children]
  | extensionPoint, path => by
    cases path <;> simp [points, at?, ViewNode.children]

theorem mem_pointsFrom : ∀ {n : Nat} {vs : List ViewNode} {path : List Nat},
    path ∈ pointsFrom n vs ↔
      ∃ i rest, path = (n + i) :: rest ∧ ∃ v, vs[i]? = some v ∧ v.at? rest = some .extensionPoint
  | n, [], path => by simp [pointsFrom]
  | n, v :: vs, path => by
    simp only [pointsFrom, List.mem_append, List.mem_map, mem_points, mem_pointsFrom]
    constructor
    · rintro (⟨rest, hat, rfl⟩ | ⟨i, rest, rfl, w, hw, hat⟩)
      · exact ⟨0, rest, rfl, v, rfl, hat⟩
      · exact ⟨i + 1, rest, by rw [show n + 1 + i = n + (i + 1) by omega], w, hw, hat⟩
    · rintro ⟨_ | i, rest, rfl, w, hw, hat⟩
      · obtain rfl := Option.some.inj hw
        exact .inl ⟨rest, hat, rfl⟩
      · exact .inr ⟨i, rest, by rw [show n + 1 + i = n + (i + 1) by omega], w, hw, hat⟩

end

/-! ## A view in a place of another -/

/-- A node apart from its children. -/
def head : ViewNode → ViewNode
  | element shape _ => element shape []
  | v => v

/-- `w` is `v` with `new` in the place that a path leads to: below the place stands `new`, and every
position that is not below it holds, children apart, the node it holds in `v`. -/
structure Graft (new : ViewNode) (path : List Nat) (v w : ViewNode) : Prop where
  below : ∀ q, w.at? (path ++ q) = new.at? q
  apart : ∀ q, ¬ path <+: q → (w.at? q).map head = (v.at? q).map head

theorem graft_replaceAt? {new v w : ViewNode} {path : List Nat}
    (h : replaceAt? new path v = some w) : Graft new path v w := by
  induction path generalizing v w with
  | nil =>
    obtain rfl := Option.some.inj h
    exact ⟨fun q => rfl, fun q hq => absurd List.nil_prefix hq⟩
  | cons i rest ih =>
    unfold replaceAt? at h
    split at h
    · next shape children =>
      split at h
      · next child hchild =>
        split at h
        · next child' hr =>
          obtain rfl := Option.some.inj h
          obtain ⟨hbelow, hapart⟩ := ih hr
          have hi : i < children.length := (List.getElem?_eq_some_iff.1 hchild).1
          have hset : (children.set i child')[i]? = some child' := List.getElem?_set_self hi
          refine ⟨fun q => ?_, fun q hq => ?_⟩
          · simp only [List.cons_append, at?, ViewNode.children, hset]
            exact hbelow q
          · cases q with
            | nil => rfl
            | cons j q =>
              simp only [at?, ViewNode.children]
              by_cases hj : i = j
              · subst hj
                rw [hset, hchild]
                exact hapart q fun hprefix => hq (List.cons_prefix_cons.2 ⟨rfl, hprefix⟩)
              · rw [List.getElem?_set_ne hj]
        · cases h
      · cases h
    · cases h

/-- A path that leads somewhere can be given another node. -/
theorem exists_replaceAt? (new : ViewNode) {v x : ViewNode} {path : List Nat} (h : v.at? path = some x) :
    ∃ w, replaceAt? new path v = some w := by
  induction path generalizing v with
  | nil => exact ⟨new, rfl⟩
  | cons i rest ih =>
    cases v with
    | element shape children =>
      simp only [at?, ViewNode.children] at h
      cases hchild : children[i]? with
      | none => simp [hchild] at h
      | some child =>
        rw [hchild] at h
        obtain ⟨child', hr⟩ := ih h
        exact ⟨element shape (children.set i child'), by simp only [replaceAt?, hchild, hr]⟩
    | text value source => simp [at?, ViewNode.children] at h
    | marker value property => simp [at?, ViewNode.children] at h
    | extensionPoint => simp [at?, ViewNode.children] at h

/-- If the place is the only extension point of a view, the extension points afterwards are those of what
has been put there. -/
theorem Graft.at?_eq_extensionPoint_iff {new v w : ViewNode} {path : List Nat} (h : Graft new path v w)
    (hv : ∀ q, v.at? q = some .extensionPoint → q = path) (q : List Nat) :
    w.at? q = some .extensionPoint ↔ ∃ q', q = path ++ q' ∧ new.at? q' = some .extensionPoint := by
  constructor
  · intro hat
    by_cases hq : path <+: q
    · obtain ⟨q', rfl⟩ := hq
      exact ⟨q', rfl, (h.below q').symm.trans hat⟩
    · have hhead := h.apart q hq
      rw [hat] at hhead
      -- an extension point is the only node whose head is one
      obtain ⟨x, hx, hxhead⟩ := Option.map_eq_some_iff.1 hhead.symm
      have hpoint : x = .extensionPoint := by
        cases x <;> first | rfl | cases hxhead
      exact absurd (hv q (hpoint ▸ hx) ▸ List.prefix_refl path) hq
  · rintro ⟨q', rfl, hat⟩
    exact (h.below q').trans hat

end ViewNode

/-! ## What the walk records -/

namespace Template

open ViewNode (points pointsFrom)

variable {r : Reading} {d d' : Draft}

theorem extensionPoint_registerText {code : List Char} {source : Source}
    (h : registerText r d code = .ok (source, d')) : d'.extensionPoint = d.extensionPoint := by
  unfold registerText at h
  split at h
  · cases h
  · next declared name _ =>
    cases hreg : registerAttribute d declared name with
    | error e => rw [hreg] at h; cases h
    | ok d₁ =>
      rw [hreg] at h
      obtain ⟨-, rfl⟩ := Prod.mk.inj (Except.ok.inj h)
      unfold registerAttribute at hreg
      (repeat' split at hreg) <;> cases hreg <;> rfl
  · next declared name _ =>
    cases hreg : registerPrimitive r d declared name with
    | error e => rw [hreg] at h; cases h
    | ok d₁ =>
      rw [hreg] at h
      obtain ⟨-, rfl⟩ := Prod.mk.inj (Except.ok.inj h)
      unfold registerPrimitive at hreg
      (repeat' split at hreg) <;> cases hreg <;> rfl

theorem extensionPoint_registerElement {code : List Char} {name : String}
    (h : registerElement r d code = .ok (name, d')) : d'.extensionPoint = d.extensionPoint := by
  unfold registerElement at h
  dsimp only at h
  (repeat' split at h) <;> cases h <;> rfl

/-- A text gives no extension point. -/
theorem points_nodesOfPieces {pieces : List Piece} {nodes : List ViewNode}
    (h : nodesOfPieces r d pieces = .ok (nodes, d')) :
    d'.extensionPoint = d.extensionPoint ∧ ∀ v ∈ nodes, v.points = [] := by
  induction pieces generalizing d nodes with
  | nil =>
    obtain ⟨rfl, rfl⟩ := Prod.mk.inj (Except.ok.inj h)
    exact ⟨rfl, fun v hv => absurd hv List.not_mem_nil⟩
  | cons piece rest ih =>
    -- whatever node the piece gives, the rest gives no extension point
    have hrest {d₁ : Draft} {node : ViewNode} (hnode : node.points = [])
        (hd₁ : d₁.extensionPoint = d.extensionPoint)
        (h : (nodesOfPieces r d₁ rest).map (fun x => (node :: x.1, x.2)) = .ok (nodes, d')) :
        d'.extensionPoint = d.extensionPoint ∧ ∀ v ∈ nodes, v.points = [] := by
      cases hnodes : nodesOfPieces r d₁ rest with
      | error e =>
        rw [hnodes] at h
        cases h
      | ok x =>
        rw [hnodes] at h
        obtain ⟨rfl, rfl⟩ := Prod.mk.inj (Except.ok.inj h)
        obtain ⟨hkept, hnone⟩ := ih hnodes
        refine ⟨hkept.trans hd₁, fun v hv => ?_⟩
        rcases List.mem_cons.1 hv with rfl | hv
        · exact hnode
        · exact hnone v hv
    cases piece with
    | plain s =>
      have hnode : (ViewNode.text (String.ofList s) none).points = [] := rfl
      exact hrest hnode rfl h
    | ofText code =>
      unfold nodesOfPieces at h
      split at h
      · cases h
      · next source d₁ hreg =>
        have hnode : (ViewNode.text "" (some source)).points = [] := rfl
        exact hrest hnode (extensionPoint_registerText hreg) h
    | ofElement code =>
      unfold nodesOfPieces at h
      split at h
      · cases h
      · next name d₁ hreg =>
        have hnode : (ViewNode.marker "" (some name)).points = [] := rfl
        exact hrest hnode (extensionPoint_registerElement hreg) h
    | fault e => cases h

theorem extensionPoint_formatOfPieces {pieces : List Piece} {f g : Format}
    (h : formatOfPieces r d f pieces = .ok (g, d')) : d'.extensionPoint = d.extensionPoint := by
  induction pieces generalizing d f with
  | nil =>
    obtain ⟨-, rfl⟩ := Prod.mk.inj (Except.ok.inj h)
    rfl
  | cons piece rest ih =>
    unfold formatOfPieces at h
    cases piece with
    | plain s => exact ih h
    | ofText code =>
      dsimp only at h
      split at h
      · cases h
      · next source d₁ hreg => exact (ih h).trans (extensionPoint_registerText hreg)
    | ofElement code => exact ih h
    | fault e => cases h

theorem extensionPoint_readAttribute {shape shape' : ElementShape} {a : Attr} {name : String}
    (h : readAttribute r d shape a name = .ok (shape', d')) : d'.extensionPoint = d.extensionPoint := by
  unfold readAttribute at h
  simp only [bind, Except.bind, pure, Except.pure] at h
  split at h
  · (repeat' split at h) <;> (cases h; try rfl)
  · split at h
    · (repeat' split at h) <;> (cases h; try rfl)
    · split at h
      · cases h
      · split at h
        · (repeat' split at h) <;> (cases h; try rfl)
        · split at h
          · split at h
            · cases h
            · next x hformat =>
              cases h
              exact extensionPoint_formatOfPieces hformat
          · cases h
            rfl

theorem extensionPoint_readAttributes {as : List Attr} {shape shape' : ElementShape}
    {seen : List String} (h : readAttributes r d shape seen as = .ok (shape', d')) :
    d'.extensionPoint = d.extensionPoint := by
  induction as generalizing d shape seen with
  | nil =>
    obtain ⟨-, rfl⟩ := Prod.mk.inj (Except.ok.inj h)
    rfl
  | cons a rest ih =>
    unfold readAttributes at h
    dsimp only at h
    split at h
    · cases h
    · split at h
      · cases h
      · next shape₁ d₁ ha => exact (ih h).trans (extensionPoint_readAttribute ha)

mutual

/-- A node that is no element gives no extension point. An element gives one node, and its points are
recorded below the path of the element. -/
theorem points_readNode : ∀ (m : Markup) {d d' : Draft} {path : List Nat} {nodes : List ViewNode},
    readNode r d path m = .ok (nodes, d') →
    (d'.extensionPoint = d.extensionPoint ∧ ∀ v ∈ nodes, v.points = []) ∨
      ∃ node, nodes = [node] ∧
        d'.extensionPoint.toList = d.extensionPoint.toList ++ node.points.map (path ++ ·)
  | .text s, d, d', path, nodes, h => by
    unfold readNode at h
    exact .inl (points_nodesOfPieces h)
  | .comment s, d, d', path, nodes, h => by
    unfold readNode at h
    obtain ⟨rfl, rfl⟩ := Prod.mk.inj (Except.ok.inj h)
    refine .inl ⟨rfl, fun v hv => ?_⟩
    rw [List.mem_singleton.1 hv]
    rfl
  | .element name attrs apart children, d, d', path, nodes, h => by
    unfold readNode at h
    split at h
    · split at h
      · cases h
      · next hnone =>
        obtain ⟨rfl, rfl⟩ := Prod.mk.inj (Except.ok.inj h)
        refine .inr ⟨.extensionPoint, rfl, ?_⟩
        rw [Option.not_isSome_iff_eq_none.1 hnone]
        simp [points]
    · split at h
      · cases h
      · split at h
        · cases h
        · next shape d₁ hattrs =>
          have hkept := extensionPoint_readAttributes hattrs
          split at h
          · obtain ⟨rfl, rfl⟩ := Prod.mk.inj (Except.ok.inj h)
            exact .inr ⟨.element shape [], rfl, by simp [points, pointsFrom, hkept]⟩
          · split at h
            · cases h
            · next nodes' d₂ hnodes =>
              obtain ⟨rfl, rfl⟩ := Prod.mk.inj (Except.ok.inj h)
              obtain ⟨more, heq, hrecorded⟩ := points_readNodes children hnodes
              obtain rfl : nodes' = more := heq
              exact .inr ⟨.element shape nodes', rfl, by rw [hrecorded, hkept]; rfl⟩

theorem points_readNodes : ∀ (ms : List Markup) {d d' : Draft} {path : List Nat}
    {read nodes : List ViewNode}, readNodes r d path read ms = .ok (nodes, d') →
    ∃ more, nodes = read ++ more ∧ d'.extensionPoint.toList =
      d.extensionPoint.toList ++ (pointsFrom read.length more).map (path ++ ·)
  | [], d, d', path, read, nodes, h => by
    unfold readNodes at h
    obtain ⟨rfl, rfl⟩ := Prod.mk.inj (Except.ok.inj h)
    exact ⟨[], (List.append_nil _).symm, by simp [pointsFrom]⟩
  | m :: ms, d, d', path, read, nodes, h => by
    unfold readNodes at h
    split at h
    · cases h
    · next nodes₁ d₁ hm =>
      obtain ⟨more, rfl, hmore⟩ := points_readNodes ms h
      refine ⟨nodes₁ ++ more, List.append_assoc _ _ _, ?_⟩
      rw [hmore, ViewNode.pointsFrom_append, List.map_append, List.length_append, ← List.append_assoc]
      congr 1
      rcases points_readNode m hm with ⟨hkept, hnone⟩ | ⟨node, rfl, hrecorded⟩
      · rw [hkept, ViewNode.pointsFrom_eq_nil hnone]
        simp
      · rw [hrecorded]
        simp [pointsFrom, List.map_map, Function.comp_def]

end

end Template

end ReactiveView
