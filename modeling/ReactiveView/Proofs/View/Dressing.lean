import ReactiveView.Proofs.Template.Elements
import ReactiveView.Proofs.View.Building
import ReactiveView.Proofs.View.Writers

/-!
# Dressing a live view

The walk that builds a live view makes an element for every element of the shape, in document order, and gives
it the attributes of the shape one by one (`Building.exists_dresses_build`). An attribute whose name is the
only one of its kind on the element has a single writer then, the one that the shape asks for, and attributes
that the shape does not have are not there (`ElementShape.Worn`). What was there before keeps its writers.
-/

set_option autoImplicit false

namespace ReactiveView

/-- The writer of an attribute is what the shape asks for: the value for good, or a formatted attribute with
the parts of the format. -/
def AttributeShape.WrittenBy (a : AttributeShape) (s : Screen) : Writer → Prop
  | .still v => a.format = none ∧ v = some a.value
  | .bound k => ∃ f x, a.format = some f ∧ s.binding? k = some x ∧ x.slots = f.slots ∧ x.parts = f.parts

theorem AttributeShape.WrittenBy.extend {a : AttributeShape} {s s' : Screen} {r : Writer}
    (h : a.WrittenBy s r) (he : s.Extends s') : a.WrittenBy s' r := by
  cases r with
  | still v => exact h
  | bound k =>
    obtain ⟨f, x, hf, hx, hsame⟩ := h
    exact ⟨f, x, hf, he.old k x hx, hsame⟩

/-- A node is an element of the shape, with the attributes of the shape and no others. -/
structure ElementShape.Worn (shape : ElementShape) (s : Screen) (own : Writers) (n : NodeId) : Prop where
  tag : s.forest.tag? n = some shape.name.tag
  bare : ∀ t, t ∉ shape.tags → own n t = some (.still none)
  written : ∀ a ∈ shape.attrs, shape.tags.count a.name.tag = 1 →
    ∃ r, own n a.name.tag = some r ∧ a.WrittenBy s r

theorem ElementShape.Worn.extend {shape : ElementShape} {s s' : Screen} {own own' : Writers} {n : NodeId}
    (h : shape.Worn s own n) (he : s.Extends s') (ho : own' n = own n) : shape.Worn s' own' n where
  tag := he.recast.tag? h.tag
  bare t ht := ho ▸ h.bare t ht
  written a ha hcount := by
    obtain ⟨r, hr, hwritten⟩ := h.written a ha hcount
    exact ⟨r, ho ▸ hr, hwritten.extend he⟩

namespace Building

variable {d : Descriptor} {b b' : Building} {n : NodeId} {own : Writers}

/-! ## The attributes of an element -/

/-- The first attribute is written by its own writer, if the element has had no such attribute yet. -/
theorem exists_addAttribute {a : AttributeShape} {rest : List AttributeShape}
    (h : b.addAttributes d n (a :: rest) = .ok b') (hn : n.index < b.screen.forest.size)
    (ho : b.screen.Obeys own) :
    ∃ (b₁ : Building) (own₁ : Writers), b₁.addAttributes d n rest = .ok b' ∧ b.screen.Extends b₁.screen ∧
      b₁.screen.Obeys own₁ ∧ (∀ m t, m ≠ n ∨ t ≠ a.name.tag → own₁ m t = own m t) ∧
      (own n a.name.tag = some (.still none) → ∃ r, own₁ n a.name.tag = some r ∧ a.WrittenBy b₁.screen r) := by
  have hput (o : Option Writer) (m : NodeId) (t : String) (hm : m ≠ n ∨ t ≠ a.name.tag) :
      own.put n a.name.tag o m t = own m t := Writers.put_of_ne own o hm
  unfold addAttributes at h
  split at h
  · next hnone =>
    have hwires : b.Wires d (b.mapScreen fun s => s.mapForest fun f => f.setAttr n a.name a.value) {} :=
      .mapForest _ (.setAttr _ _ _ _)
    by_cases hfirst : own n a.name.tag = some (.still none)
    · refine ⟨_, _, h, hwires.grows, ho.setAttr (Or.inr ⟨rfl, none, hfirst⟩), hput _, fun _ => ?_⟩
      exact ⟨_, Writers.put_self _ _ _ _, hnone, rfl⟩
    · exact ⟨_, _, h, hwires.grows, ho.setAttr (Or.inl rfl), hput _, fun hown => absurd hown hfirst⟩
  · next f hf =>
    dsimp only at h
    split at h
    · cases h
    · next b₁ h₁ =>
      have hwires := wires_format hn h₁
      have hscreen : b₁.screen = (b.addFormat n a.name f).screen := (placesOf_addPlaces h₁).1
      have hobeys {o : Option Writer} (hwrite : (b.addFormat n a.name f).screen.Obeys (own.put n a.name.tag o)) :
          b₁.screen.Obeys (own.put n a.name.tag o) := hscreen ▸ hwrite
      by_cases hfirst : own n a.name.tag = some (.still none)
      · refine ⟨b₁, _, h, hwires.grows, hobeys ((ho.addBinding hn (Or.inr ⟨rfl, hfirst⟩)).write _), hput _,
          fun _ => ?_⟩
        have hself := binding?_addFormat_self b n a.name f
        rw [← hscreen] at hself
        exact ⟨_, Writers.put_self _ _ _ _, f, _, hf, hself, rfl, rfl⟩
      · exact ⟨b₁, _, h, hwires.grows, hobeys ((ho.addBinding hn (Or.inl rfl)).write _), hput _,
          fun hown => absurd hown hfirst⟩

/-- Attributes that are the only ones of their names get the writers that they ask for. -/
theorem exists_obeys_addAttributes {attrs : List AttributeShape} (h : b.addAttributes d n attrs = .ok b')
    (hn : n.index < b.screen.forest.size) (ho : b.screen.Obeys own) :
    ∃ own', b'.screen.Obeys own' ∧ (∀ m t, m ≠ n ∨ t ∉ attrs.map (·.name.tag) → own' m t = own m t) ∧
      ∀ a ∈ attrs, own n a.name.tag = some (.still none) → (attrs.map (·.name.tag)).count a.name.tag = 1 →
        ∃ r, own' n a.name.tag = some r ∧ a.WrittenBy b'.screen r := by
  induction attrs generalizing b own with
  | nil =>
    obtain rfl := Except.ok.inj h
    exact ⟨own, ho, fun _ _ _ => rfl, fun a ha => absurd ha List.not_mem_nil⟩
  | cons a rest ih =>
    obtain ⟨b₁, own₁, hrest, he, ho₁, hkeep, hfirst⟩ := exists_addAttribute h hn ho
    obtain ⟨own', ho', hkeep', hwritten⟩ := ih hrest (he.recast.lt_size hn) ho₁
    refine ⟨own', ho', fun m t hm => ?_, fun a' ha' hfree hcount => ?_⟩
    · rw [List.map_cons, List.mem_cons, not_or] at hm
      exact (hkeep' m t (hm.imp_right And.right)).trans (hkeep m t (hm.imp_right And.left))
    · rw [List.map_cons, List.count_cons] at hcount
      rcases List.mem_cons.1 ha' with rfl | ha'
      · -- no other attribute of this name follows
        have hlast : a'.name.tag ∉ rest.map (·.name.tag) := by
          rw [beq_self_eq_true, if_pos rfl] at hcount
          exact List.count_eq_zero.1 (Nat.succ.inj hcount)
        obtain ⟨r, hr, hwr⟩ := hfirst hfree
        obtain ⟨g, hg, -⟩ := wires_addAttributes (he.recast.lt_size hn) hrest
        exact ⟨r, (hkeep' n _ (Or.inr hlast)).trans hr, hwr.extend hg.grows⟩
      · have hpos : 0 < (rest.map (·.name.tag)).count a'.name.tag :=
          List.count_pos_iff.2 (List.mem_map_of_mem (f := (·.name.tag)) ha')
        have hne : a'.name.tag ≠ a.name.tag := by
          intro heq
          rw [heq, beq_self_eq_true, if_pos rfl] at hcount
          rw [heq] at hpos
          omega
        refine hwritten a' ha' ((hkeep n _ (Or.inr hne)).trans hfree) ?_
        rw [if_neg (by simpa using hne.symm)] at hcount
        exact hcount

end Building

/-! ## The walk -/

/-- Between two states of a screen elements have been made. -/
structure Screen.Dresses (s s' : Screen) (own own' : Writers) (els : List (NodeId × ElementShape)) : Prop where
  obeys : s'.Obeys own'
  grows : s.Extends s'
  old : ∀ n, n.index < s.forest.size → own' n = own n
  new : ∀ e ∈ els, s.forest.size ≤ e.1.index
  nodup : (els.map (·.1)).Nodup
  worn : ∀ e ∈ els, e.2.Worn s' own' e.1

namespace Screen.Dresses

variable {s s' s'' : Screen} {own own' own'' : Writers} {els els' : List (NodeId × ElementShape)}

/-- No element is made. -/
theorem of_obeys (h : s'.Obeys own) (he : s.Extends s') : s.Dresses s' own own [] :=
  ⟨h, he, fun _ _ => rfl, fun _ h => absurd h List.not_mem_nil, List.nodup_nil, fun _ h => absurd h List.not_mem_nil⟩

theorem of_moves (h : s.Obeys own) (hf : s.forest.Moves s'.forest) (hb : s'.bindings = s.bindings)
    (hq : s'.queues = s.queues) : s.Dresses s' own own [] :=
  of_obeys (h.moves hf hb) (.of_recast hf.recast hb hq)

/-- Only nodes are moved. -/
theorem mapForest (h : s.Obeys own) {f : Forest → Forest} (hf : s.forest.Moves (f s.forest)) :
    s.Dresses (s.mapForest f) own own [] :=
  .of_moves h hf rfl rfl

/-- An element that has been made is there. -/
theorem lt_size (h : s.Dresses s' own own' els) {e : NodeId × ElementShape} (he : e ∈ els) :
    e.1.index < s'.forest.size := Forest.lt_size_of_tag? (h.worn e he).tag

/-- Elements are made after others. -/
theorem trans (h : s.Dresses s' own own' els) (h' : s'.Dresses s'' own' own'' els') :
    s.Dresses s'' own own'' (els ++ els') where
  obeys := h'.obeys
  grows := h.grows.trans h'.grows
  old n hn := (h'.old n (h.grows.recast.lt_size hn)).trans (h.old n hn)
  new e he := by
    rcases List.mem_append.1 he with he | he
    · exact h.new e he
    · refine Nat.le_trans (Nat.not_lt.1 fun hlt => ?_) (h'.new e he)
      exact Nat.lt_irrefl _ (h.grows.recast.lt_size (n := ⟨s'.forest.size⟩) hlt)
  nodup := by
    rw [List.map_append]
    refine List.nodup_append.2 ⟨h.nodup, h'.nodup, fun n hn m hm heq => ?_⟩
    obtain ⟨e, he, rfl⟩ := List.mem_map.1 hn
    obtain ⟨e', he', rfl⟩ := List.mem_map.1 hm
    have hlt := h.lt_size he
    rw [heq] at hlt
    exact absurd hlt (Nat.not_lt.2 (h'.new e' he'))
  worn e he := by
    rcases List.mem_append.1 he with he | he
    · exact (h.worn e he).extend h'.grows (h'.old e.1 (h.lt_size he))
    · exact h'.worn e he

end Screen.Dresses

namespace Building

variable {d : Descriptor} {b b' : Building} {own : Writers}

/-- One element with its attributes. -/
theorem exists_dresses_element {shape : ElementShape} {b₁ : Building}
    (h : (b.create (.element shape.name [] false)).2.addAttributes d (b.create (.element shape.name [] false)).1
      shape.attrs = .ok b₁) (ho : b.screen.Obeys own) :
    ∃ own₁, b.screen.Dresses b₁.screen own own₁ [((b.create (.element shape.name [] false)).1, shape)] := by
  have hlt := lt_size_create b (.element shape.name [] false)
  obtain ⟨own₁, ho₁, hkeep, hwritten⟩ := exists_obeys_addAttributes h hlt (ho.createElement shape.name)
  obtain ⟨_, hwires, -⟩ := wires_addAttributes hlt h
  have hcreate : b.Wires d (b.create (.element shape.name [] false)).2 {} := wires_create b _
  have hbare (t : String) : (if (b.create (.element shape.name [] false)).1 = ⟨b.screen.forest.size⟩ then
      some (Writer.still none) else own (b.create (.element shape.name [] false)).1 t) = some (.still none) :=
    if_pos rfl
  have htag : (b.create (.element shape.name [] false)).2.screen.forest.tag?
      (b.create (.element shape.name [] false)).1 = some shape.name.tag := by
    rw [Forest.tag?_eq]
    exact congrArg (fun o => (Option.map Node.kind o).bind NodeKind.tag?) (Forest.node?_create b.screen.forest _)
  refine ⟨own₁, ho₁, hcreate.grows.trans hwires.grows, fun m hm => ?_, fun e he => ?_, List.nodup_singleton _,
    fun e he => ?_⟩
  · have hne : m ≠ (b.create (.element shape.name [] false)).1 := by
      rintro rfl
      exact Nat.lt_irrefl _ hm
    funext t
    exact (hkeep m t (Or.inl hne)).trans (if_neg hne)
  · rw [List.mem_singleton.1 he]
    exact Nat.le_refl _
  · rw [List.mem_singleton.1 he]
    refine ⟨hwires.grows.recast.tag? htag, fun t ht => ?_, fun a ha hcount => ?_⟩
    · exact (hkeep _ t (Or.inr ht)).trans (hbare t)
    · exact hwritten a ha (hbare _) hcount

theorem dresses_noteElement (h : b.screen.Obeys own) (shape : ElementShape) (n : NodeId) :
    b.screen.Dresses (b.noteElement shape n).screen own own [] := by
  unfold noteElement
  dsimp only
  split <;> split <;> exact .of_moves h .rfl rfl rfl

theorem dresses_create (h : b.screen.Obeys own) (kind : NodeKind) :
    b.screen.Dresses (b.create kind).2.screen own own [] :=
  .of_moves h (.create _ _) rfl rfl

mutual

/-- The walk makes the elements of a view in document order, the outermost first. -/
theorem exists_dresses_build {owner : InstanceId} {b b' : Building} {own : Writers} {around : Option Sink}
    {top : Option NodeId} : ∀ v : ViewNode, v.Blank → b.build d owner around v = .ok (top, b') →
      b.screen.Obeys own → ∃ own' els, b.screen.Dresses b'.screen own own' els ∧ els.map (·.2) = v.elements ∧
        ∀ e ∈ els.head?, top = some e.1
  | .element shape children, hblank, h, ho => by
    unfold build at h
    dsimp only at h
    split at h
    · cases h
    · next b₁ hattrs =>
      split at h
      · cases h
      · next b₂ hchildren =>
        obtain ⟨rfl, rfl⟩ := Prod.mk.inj (Except.ok.inj h)
        obtain ⟨own₁, hself⟩ := exists_dresses_element hattrs ho
        have hnoted := hself.trans (dresses_noteElement hself.obeys shape (b.create (.element shape.name [] false)).1)
        rw [List.append_nil] at hnoted
        obtain ⟨own', els, hbelow, hels⟩ := exists_dresses_buildAll children hblank hchildren hnoted.obeys
        refine ⟨own', _, hnoted.trans hbelow, ?_, fun e he => ?_⟩
        · rw [List.map_append, hels, ViewNode.elements]
          rfl
        · obtain rfl := Option.some.inj he
          rfl
  | .text value source, hblank, h, ho => by
    unfold build at h
    dsimp only at h
    split at h
    · cases h
    · next b₁ hplaces =>
      obtain ⟨rfl, rfl⟩ := Prod.mk.inj (Except.ok.inj h)
      have hscreen := (placesOf_addPlaces hplaces).1
      have hcreate := dresses_create ho (.text value)
      refine ⟨own, [], .of_obeys ?_ ?_, rfl, fun e he => by cases he⟩
      · rw [hscreen]
        exact hcreate.obeys
      · rw [hscreen]
        exact hcreate.grows
  | .marker value property, _, h, ho => by
    unfold build at h
    dsimp only at h
    have hcreate := dresses_create ho (.comment value)
    split at h <;> obtain ⟨rfl, rfl⟩ := Prod.mk.inj (Except.ok.inj h)
    · exact ⟨own, [], .of_obeys hcreate.obeys hcreate.grows, rfl, fun e he => by cases he⟩
    · exact ⟨own, [], hcreate, rfl, fun e he => by cases he⟩
  | .extensionPoint, _, h, ho => by
    unfold build at h
    obtain ⟨rfl, rfl⟩ := Prod.mk.inj (Except.ok.inj h)
    exact ⟨own, [], .of_obeys ho .rfl, rfl, fun e he => by cases he⟩

theorem exists_dresses_buildAll {owner : InstanceId} {b b' : Building} {own : Writers} {sink : Sink} :
    ∀ vs : List ViewNode, ViewNode.BlankAll vs → b.buildAll d owner sink vs = .ok b' → b.screen.Obeys own →
      ∃ own' els, b.screen.Dresses b'.screen own own' els ∧ els.map (·.2) = ViewNode.elementsAll vs
  | [], _, h, ho => by
    unfold buildAll at h
    obtain rfl := Except.ok.inj h
    exact ⟨own, [], .of_obeys ho .rfl, rfl⟩
  | v :: rest, hblank, h, ho => by
    unfold buildAll at h
    split at h
    · cases h
    · next n b₁ hv =>
      obtain ⟨own₁, els, hfirst, hels, -⟩ := exists_dresses_build v hblank.1 hv ho
      have happend : b₁.screen.Dresses (b₁.append sink.node n).screen own₁ own₁ [] :=
        .mapForest (f := fun f => f.append sink.node n) hfirst.obeys (.append _ _ _)
      obtain ⟨own', els', hrest, hels'⟩ := exists_dresses_buildAll rest hblank.2 h happend.obeys
      refine ⟨own', _, (hfirst.trans happend).trans hrest, ?_⟩
      rw [List.append_nil, List.map_append, hels, hels', ViewNode.elementsAll]
    · next b₁ hv =>
      obtain ⟨own₁, els, hfirst, hels, -⟩ := exists_dresses_build v hblank.1 hv ho
      obtain ⟨own', els', hrest, hels'⟩ := exists_dresses_buildAll rest hblank.2 h hfirst.obeys
      refine ⟨own', _, hfirst.trans hrest, ?_⟩
      rw [List.map_append, hels, hels', ViewNode.elementsAll]

end

end Building

end ReactiveView
