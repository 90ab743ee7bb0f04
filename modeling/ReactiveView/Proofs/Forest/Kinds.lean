import ReactiveView.Proofs.Forest.Links

/-!
# What a node is

Two edits change what a node is: setting an attribute of an element and setting a text
(`Forest.kind?_setAttr`, `Forest.kind?_setText`). An attribute reads as it was last set, and setting one
changes no other (`Forest.attr?_setAttr_self`, `Forest.attr?_setAttr_of_ne`).
-/

set_option autoImplicit false

namespace ReactiveView

theorem attrValue?_withAttr_self (name : QName) (value : String) (attrs : List Attr) :
    attrValue? (Forest.withAttr name value attrs) name.tag = some value := by
  induction attrs with
  | nil => simp [Forest.withAttr, attrValue?]
  | cons a attrs ih =>
    unfold Forest.withAttr
    split
    · next ha => simp [attrValue?, ha]
    · next ha =>
      unfold attrValue? at ih ⊢
      rw [List.find?_cons_of_neg (by simpa using ha)]
      exact ih

theorem attrValue?_withAttr_of_ne {name : QName} {t : String} (h : name.tag ≠ t) (value : String)
    (attrs : List Attr) : attrValue? (Forest.withAttr name value attrs) t = attrValue? attrs t := by
  induction attrs with
  | nil => simp [Forest.withAttr, attrValue?, h]
  | cons a attrs ih =>
    unfold Forest.withAttr
    split
    · next ha =>
      unfold attrValue?
      rw [List.find?_cons_of_neg (by simp [ha, h]), List.find?_cons_of_neg (by simp [ha, h])]
    · unfold attrValue? at ih ⊢
      by_cases hat : a.name.tag = t
      · rw [List.find?_cons_of_pos (by simpa using hat), List.find?_cons_of_pos (by simpa using hat)]
      · rw [List.find?_cons_of_neg (by simpa using hat), List.find?_cons_of_neg (by simpa using hat)]
        exact ih

namespace NodeKind

variable {k : NodeKind} {name : QName} {t : String}

/-- The tag of an element. -/
def tag? : NodeKind → Option String
  | .element name _ _ => some name.tag
  | _ => none

/-- The value of an attribute of an element. -/
def attr? (t : String) : NodeKind → Option String
  | .element _ attrs _ => attrValue? attrs t
  | _ => none

/-- An element with an attribute set. -/
def withAttr (name : QName) (value : String) : NodeKind → NodeKind
  | .element tag attrs apart => .element tag (Forest.withAttr name value attrs) apart
  | k => k

/-- A text node with another text. -/
def withText (s : String) : NodeKind → NodeKind
  | .text _ => .text s
  | k => k

@[simp] theorem tag?_withAttr (name : QName) (value : String) (k : NodeKind) :
    (k.withAttr name value).tag? = k.tag? := by
  cases k <;> rfl

@[simp] theorem tag?_withText (s : String) (k : NodeKind) : (k.withText s).tag? = k.tag? := by
  cases k <;> rfl

@[simp] theorem attr?_withText (s : String) (k : NodeKind) : (k.withText s).attr? t = k.attr? t := by
  cases k <;> rfl

theorem attr?_withAttr_self (h : k.tag?.isSome = true) (name : QName) (value : String) :
    (k.withAttr name value).attr? name.tag = some value := by
  cases k with
  | element tag attrs apart => exact attrValue?_withAttr_self name value attrs
  | _ => cases h

theorem attr?_withAttr_of_ne (h : name.tag ≠ t) (value : String) (k : NodeKind) :
    (k.withAttr name value).attr? t = k.attr? t := by
  cases k with
  | element tag attrs apart => exact attrValue?_withAttr_of_ne h value attrs
  | _ => rfl

end NodeKind

namespace Forest

variable {f : Forest} {n m : NodeId} {t : String}

theorem tag?_eq (f : Forest) (n : NodeId) : f.tag? n = (f.kind? n).bind NodeKind.tag? := by
  unfold tag?
  rcases f.kind? n with - | k
  · rfl
  · cases k <;> rfl

theorem attr?_eq (f : Forest) (n : NodeId) (t : String) : f.attr? n t = (f.kind? n).bind (NodeKind.attr? t) := by
  unfold attr? attrs
  rcases f.kind? n with - | k
  · rfl
  · cases k <;> rfl

theorem lt_size_of_tag? (h : f.tag? n = some t) : n.index < f.size := by
  rw [tag?_eq] at h
  obtain ⟨k, hk, -⟩ := Option.bind_eq_some_iff.1 h
  obtain ⟨node, hnode, -⟩ := Option.map_eq_some_iff.1 hk
  exact (Array.getElem?_eq_some_iff.1 hnode).1

theorem kind?_modify_eq (f : Forest) (n : NodeId) {g : Node → Node} {h : NodeKind → NodeKind}
    (hg : ∀ node, (g node).kind = h node.kind) (m : NodeId) :
    (f.modify n g).kind? m = if m = n then (f.kind? m).map h else f.kind? m := by
  unfold kind?
  split
  · next hm =>
    subst hm
    rw [node?_modify_self, Option.map_map, Option.map_map]
    exact congrArg (fun h => Option.map h _) (funext hg)
  · next hm => rw [node?_modify_of_ne f g hm]

theorem kind?_modify {g : Node → Node} (hg : ∀ node, (g node).kind = node.kind) :
    (f.modify n g).kind? m = f.kind? m := by
  rw [kind?_modify_eq f n (h := id) hg, Option.map_id, id, ite_self]

theorem kind?_setAttr (f : Forest) (n : NodeId) (name : QName) (value : String) (m : NodeId) :
    (f.setAttr n name value).kind? m =
      if m = n then (f.kind? m).map (NodeKind.withAttr name value) else f.kind? m := by
  refine kind?_modify_eq f n (fun node => ?_) m
  cases hk : node.kind <;> simp [NodeKind.withAttr, hk]

theorem kind?_setText (f : Forest) (n : NodeId) (s : String) (m : NodeId) :
    (f.setText n s).kind? m = if m = n then (f.kind? m).map (NodeKind.withText s) else f.kind? m := by
  refine kind?_modify_eq f n (fun node => ?_) m
  cases hk : node.kind <;> simp [NodeKind.withText, hk]

@[simp] theorem tag?_setAttr (f : Forest) (n : NodeId) (name : QName) (value : String) (m : NodeId) :
    (f.setAttr n name value).tag? m = f.tag? m := by
  rw [tag?_eq, tag?_eq, kind?_setAttr]
  split
  · cases f.kind? m <;> simp
  · rfl

/-- An attribute that has been set reads as it was set. -/
theorem attr?_setAttr_self (h : (f.tag? n).isSome = true) (name : QName) (value : String) :
    (f.setAttr n name value).attr? n name.tag = some value := by
  rw [tag?_eq] at h
  rw [attr?_eq, kind?_setAttr, if_pos rfl]
  cases hk : f.kind? n with
  | none =>
    rw [hk] at h
    cases h
  | some k =>
    rw [hk] at h
    exact NodeKind.attr?_withAttr_self h name value

/-- Setting an attribute changes no other one. -/
theorem attr?_setAttr_of_ne (f : Forest) {name : QName} (h : m ≠ n ∨ name.tag ≠ t) (value : String) :
    (f.setAttr n name value).attr? m t = f.attr? m t := by
  rw [attr?_eq, attr?_eq, kind?_setAttr]
  split
  · next hm =>
    have ht := h.resolve_left fun hne => hne hm
    cases f.kind? m with
    | none => rfl
    | some k => exact NodeKind.attr?_withAttr_of_ne ht value k
  · rfl

@[simp] theorem tag?_setText (f : Forest) (n : NodeId) (s : String) (m : NodeId) :
    (f.setText n s).tag? m = f.tag? m := by
  rw [tag?_eq, tag?_eq, kind?_setText]
  split
  · cases f.kind? m <;> simp
  · rfl

@[simp] theorem attr?_setText (f : Forest) (n : NodeId) (s : String) (m : NodeId) (t : String) :
    (f.setText n s).attr? m t = f.attr? m t := by
  rw [attr?_eq, attr?_eq, kind?_setText]
  split
  · cases f.kind? m <;> simp
  · rfl

/-- No attribute is lost when one is set. -/
theorem isSome_attr?_setAttr (f : Forest) (n : NodeId) (name : QName) (value : String)
    (h : (f.attr? m t).isSome = true) : ((f.setAttr n name value).attr? m t).isSome = true := by
  by_cases hm : m = n ∧ name.tag = t
  · obtain ⟨rfl, rfl⟩ := hm
    have htag : (f.tag? m).isSome = true := by
      rw [tag?_eq]
      rw [attr?_eq] at h
      cases hk : f.kind? m with
      | none =>
        rw [hk] at h
        cases h
      | some k =>
        rw [hk] at h
        cases k with
        | element => rfl
        | _ => cases h
    rw [attr?_setAttr_self htag]
    rfl
  · rw [attr?_setAttr_of_ne f (not_and_or.1 hm)]
    exact h

end Forest

end ReactiveView
