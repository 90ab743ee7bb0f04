import ReactiveView.Proofs.Class.Compiled
import ReactiveView.Proofs.Forest.Growth
import ReactiveView.Proofs.Template.Blank
import ReactiveView.Proofs.View.Wiring
import ReactiveView.World.View

/-!
# Wiring a live view

The walk that builds a live view makes a text node for every text of the shape that shows a source, and a
formatted attribute for every format, and lists each of them for all its sources
(`Building.exists_wires_build`). What it makes is new, holds empty texts, and does not wait for a queue;
what was there before stays (`Building.Wires`).
-/

set_option autoImplicit false

namespace ReactiveView

namespace Building

variable {d : Descriptor} {b b' b'' : Building} {g h : Wiring} {n : NodeId}

/-- The places where a source is rendered, as far as they have been listed. -/
def placesOf (b : Building) (d : Descriptor) : Source → Option NodeSet
  | .property name => (d.propertyIndex? name).bind fun i => b.propertyNodes[i]?
  | .attr name => (d.attributeIndex? name).bind fun i => b.attributeNodes[i]?

/-- Between the two states of the walk a part has been built that is wired as `g`. -/
structure Wires (d : Descriptor) (b b' : Building) (g : Wiring) : Prop where
  grows : b.screen.Extends b'.screen
  text : ∀ t source, (t, source) ∈ g.texts →
    b.screen.forest.size ≤ t.index ∧ b'.screen.forest.kind? t = some (.text "")
  format : ∀ k f, (k, f) ∈ g.formats → b.screen.binding? k = none ∧
    ∃ x, b'.screen.binding? k = some x ∧ x.slots = f.slots ∧ x.parts = f.parts
  /-- All attributes that are new are wired. -/
  wired : ∀ k, (b'.screen.binding? k).isSome = true → b.screen.binding? k = none →
    k ∈ g.formats.map (·.1)
  texts_nodup : (g.texts.map (·.1)).Nodup
  formats_nodup : (g.formats.map (·.1)).Nodup
  places : ∀ source ps, b.placesOf d source = some ps → ∃ ps', b'.placesOf d source = some ps' ∧
    ∀ place, place ∈ ps' ↔ place ∈ ps ∨ g.Lists source place

namespace Wires

/-- Nothing is wired while nodes are moved and other things are noted. -/
theorem of_recast (hr : b.screen.forest.Recast b'.screen.forest)
    (hb : b'.screen.bindings = b.screen.bindings) (hq : b'.screen.queues = b.screen.queues)
    (hp : b'.propertyNodes = b.propertyNodes) (ha : b'.attributeNodes = b.attributeNodes) :
    b.Wires d b' {} where
  grows := .of_recast hr hb hq
  text t source ht := absurd ht List.not_mem_nil
  format k f hf := absurd hf List.not_mem_nil
  wired k hk hnone := by
    unfold Screen.binding? at hk hnone
    rw [hb, hnone] at hk
    cases hk
  texts_nodup := List.nodup_nil
  formats_nodup := List.nodup_nil
  places source ps hps := by
    refine ⟨ps, ?_, fun place => (or_iff_left ?_).symm⟩
    · rw [← hps]
      unfold placesOf
      rw [hp, ha]
    · intro hlists
      cases place with
      | text t => exact List.not_mem_nil hlists
      | attr k =>
        obtain ⟨f, hf, -⟩ := hlists
        exact List.not_mem_nil hf

/-- Nothing is wired by an edit of the forest. -/
theorem mapForest (b : Building) {f : Forest → Forest} (hf : b.screen.forest.Recast (f b.screen.forest)) :
    b.Wires d (b.mapScreen fun s => s.mapForest f) {} :=
  .of_recast hf rfl rfl rfl rfl

/-- A text that has been wired is there. -/
theorem lt_size (hw : b.Wires d b' g) {t : NodeId} (ht : t ∈ g.texts.map (·.1)) :
    t.index < b'.screen.forest.size := by
  obtain ⟨⟨t', source⟩, hmem, rfl⟩ := List.mem_map.1 ht
  obtain ⟨node, hnode, -⟩ := Option.map_eq_some_iff.1 (hw.text t' source hmem).2
  exact (Array.getElem?_eq_some_iff.1 hnode).1

/-- One part is built after another. -/
theorem trans (hw : b.Wires d b' g) (hw' : b'.Wires d b'' h) : b.Wires d b'' (g ++ h) where
  grows := hw.grows.trans hw'.grows
  text t source ht := by
    rcases List.mem_append.1 ht with ht | ht
    · obtain ⟨hle, hkind⟩ := hw.text t source ht
      exact ⟨hle, hw'.grows.recast.kind? hkind rfl⟩
    · obtain ⟨hle, hkind⟩ := hw'.text t source ht
      refine ⟨Nat.le_trans (Nat.not_lt.1 fun hlt => ?_) hle, hkind⟩
      exact Nat.lt_irrefl _ (hw.grows.recast.lt_size (n := ⟨b'.screen.forest.size⟩) hlt)
  format k f hf := by
    rcases List.mem_append.1 hf with hf | hf
    · obtain ⟨hnone, x, hx, hslots, hparts⟩ := hw.format k f hf
      exact ⟨hnone, x, hw'.grows.old k x hx, hslots, hparts⟩
    · obtain ⟨hnone, hx⟩ := hw'.format k f hf
      refine ⟨?_, hx⟩
      cases hold : b.screen.binding? k with
      | none => rfl
      | some x =>
        rw [hw.grows.old k x hold] at hnone
        cases hnone
  wired k hk hnone := by
    rw [Wiring.formats_append, List.map_append, List.mem_append]
    cases hmid : b'.screen.binding? k with
    | none => exact Or.inr (hw'.wired k hk hmid)
    | some x => exact Or.inl (hw.wired k (by rw [hmid]; rfl) hnone)
  texts_nodup := by
    rw [Wiring.texts_append, List.map_append]
    refine List.nodup_append.2 ⟨hw.texts_nodup, hw'.texts_nodup, fun t ht t' ht' heq => ?_⟩
    subst heq
    obtain ⟨⟨t', source⟩, hmem, rfl⟩ := List.mem_map.1 ht'
    exact absurd (hw.lt_size ht) (Nat.not_lt.2 (hw'.text t' source hmem).1)
  formats_nodup := by
    rw [Wiring.formats_append, List.map_append]
    refine List.nodup_append.2 ⟨hw.formats_nodup, hw'.formats_nodup, fun k hk k' hk' heq => ?_⟩
    subst heq
    obtain ⟨⟨k₁, f₁⟩, hmem₁, rfl⟩ := List.mem_map.1 hk
    obtain ⟨⟨k₂, f₂⟩, hmem₂, heq⟩ := List.mem_map.1 hk'
    obtain ⟨-, x, hx, -⟩ := hw.format k₁ f₁ hmem₁
    have hnone := (hw'.format k₂ f₂ hmem₂).1
    dsimp only at heq
    rw [heq, hx] at hnone
    cases hnone
  places source ps hps := by
    obtain ⟨ps', hps', hiff⟩ := hw.places source ps hps
    obtain ⟨ps'', hps'', hiff'⟩ := hw'.places source ps' hps'
    refine ⟨ps'', hps'', fun place => ?_⟩
    rw [hiff', hiff, Wiring.lists_append, or_assoc]

end Wires

/-! ## Listing places -/

/-- A place that is added to the list with one name is added to no other, as names have different
positions. -/
private theorem places_modify {index : String → Option Nat} {lists : List NodeSet} {name : String} {i : Nat}
    (hindex : ∀ name', index name' = some i → name' = name) (hi : index name = some i) (place : BoundNode)
    (other : String) : ((index other).bind fun j => (lists.modify i fun ps => ps ++ [place])[j]?) =
      ((index other).bind fun j => lists[j]?).map fun ps => if other = name then ps ++ [place] else ps := by
  by_cases hname : other = name
  · subst hname
    simp only [hi, Option.bind_some, if_true]
    rw [List.getElem?_modify_eq]
    rfl
  · simp only [hname, if_false, Option.map_id']
    cases hj : index other with
    | none => rfl
    | some j =>
      have hij : i ≠ j := by
        rintro rfl
        exact hname (hindex other hj)
      rw [Option.bind_some, Option.bind_some, List.getElem?_modify_ne _ _ hij]

theorem placesOf_addPlace {source : Source} {place : BoundNode} (h : b.addPlace d source place = .ok b') :
    b'.screen = b.screen ∧ ∀ σ, b'.placesOf d σ =
      (b.placesOf d σ).map fun ps => if σ = source then ps ++ [place] else ps := by
  unfold addPlace at h
  cases source with
  | property name =>
    dsimp only at h
    split at h
    · next i hi =>
      obtain rfl := Except.ok.inj h
      refine ⟨rfl, fun σ => ?_⟩
      cases σ with
      | attr other => simp [placesOf]
      | property other =>
        simp only [placesOf, Source.property.injEq]
        refine places_modify (fun name' hname' => ?_) hi place other
        obtain ⟨p, hp, rfl⟩ := Descriptor.propertyIndex?_some hi
        obtain ⟨p', hp', rfl⟩ := Descriptor.propertyIndex?_some hname'
        exact congrArg _ (Option.some.inj (hp'.symm.trans hp))
    · cases h
  | attr name =>
    dsimp only at h
    split at h
    · next i hi =>
      obtain rfl := Except.ok.inj h
      refine ⟨rfl, fun σ => ?_⟩
      cases σ with
      | property other => simp [placesOf]
      | attr other =>
        simp only [placesOf, Source.attr.injEq]
        refine places_modify (fun name' hname' => ?_) hi place other
        obtain ⟨a, ha, rfl⟩ := Descriptor.attributeIndex?_some hi
        obtain ⟨a', ha', rfl⟩ := Descriptor.attributeIndex?_some hname'
        exact congrArg _ (Option.some.inj (ha'.symm.trans ha))
    · cases h

theorem placesOf_addPlaces {place : BoundNode} {sources : List Source}
    (h : b.addPlaces d place sources = .ok b') : b'.screen = b.screen ∧
      ∀ σ ps, b.placesOf d σ = some ps → ∃ ps', b'.placesOf d σ = some ps' ∧
        ∀ x, x ∈ ps' ↔ x ∈ ps ∨ (x = place ∧ σ ∈ sources) := by
  induction sources generalizing b with
  | nil =>
    obtain rfl := Except.ok.inj h
    exact ⟨rfl, fun σ ps hps => ⟨ps, hps, by simp⟩⟩
  | cons source rest ih =>
    unfold addPlaces at h
    split at h
    · cases h
    · next b₁ h₁ =>
      obtain ⟨hscreen₁, hplaces₁⟩ := placesOf_addPlace h₁
      obtain ⟨hscreen, hplaces⟩ := ih h
      refine ⟨hscreen.trans hscreen₁, fun σ ps hps => ?_⟩
      have hfirst := hplaces₁ σ
      rw [hps, Option.map_some] at hfirst
      obtain ⟨ps', hps', hiff⟩ := hplaces σ _ hfirst
      refine ⟨ps', hps', fun x => (hiff x).trans ?_⟩
      by_cases hσ : σ = source
      · subst hσ
        simp only [if_true, List.mem_append, List.mem_cons, true_or, and_true]
        tauto
      · simp [hσ]

/-! ## The parts of the walk -/

/-- A text that shows a source. -/
theorem wires_text {source : Source}
    (h : (b.create (.text "")).2.addPlaces d (.text (b.create (.text "")).1) [source] = .ok b') :
    b.Wires d b' { texts := [((b.create (.text "")).1, source)] } := by
  obtain ⟨hscreen, hplaces⟩ := placesOf_addPlaces h
  have hforest : b'.screen.forest = (b.screen.forest.create (.text "")).2 := by rw [hscreen]; rfl
  have hbindings : b'.screen.bindings = b.screen.bindings := by rw [hscreen]; rfl
  refine ⟨.of_recast ?_ hbindings (by rw [hscreen]; rfl), fun t σ ht => ?_, fun k f hf => absurd hf List.not_mem_nil,
    fun k hk hnone => ?_, List.nodup_singleton _, List.nodup_nil, fun σ ps hps => ?_⟩
  · rw [hforest]
    exact (Forest.Moves.create _ _).recast
  · obtain ⟨rfl, rfl⟩ := Prod.mk.inj (List.mem_singleton.1 ht)
    refine ⟨Nat.le_refl _, ?_⟩
    rw [hforest]
    unfold Forest.kind?
    exact congrArg (Option.map _) (Forest.node?_create _ _)
  · unfold Screen.binding? at hk hnone
    rw [hbindings, hnone] at hk
    cases hk
  · obtain ⟨ps', hps', hiff⟩ := hplaces σ ps hps
    refine ⟨ps', hps', fun place => (hiff place).trans (or_congr_right ?_)⟩
    cases place with
    | text t => simp [Wiring.Lists]
    | attr k => simp [Wiring.Lists]

/-- A formatted attribute is added and written. -/
def addFormat (b : Building) (n : NodeId) (name : QName) (f : Format) : Building :=
  { b with screen := ((b.screen.addBinding (Binding.ofFormat n name f)).2.write ⟨b.screen.bindings.size⟩).2 }

theorem binding?_addFormat_self (b : Building) (n : NodeId) (name : QName) (f : Format) :
    (b.addFormat n name f).screen.binding? ⟨b.screen.bindings.size⟩ =
      some (b.screen.stamped (Binding.ofFormat n name f)) := by
  refine (Screen.binding?_write_self _ _).trans ?_
  rw [Screen.binding?_addBinding, if_pos rfl]
  rfl

theorem binding?_addFormat_of_ne (b : Building) (n : NodeId) (name : QName) (f : Format) {k : BindingId}
    (hk : k ≠ ⟨b.screen.bindings.size⟩) :
    (b.addFormat n name f).screen.binding? k = b.screen.binding? k := by
  refine (Screen.binding?_write_of_ne _ hk).trans ?_
  rw [Screen.binding?_addBinding, if_neg hk]

/-- A format on an element that is there. -/
theorem wires_format {name : QName} {f : Format} (hn : n.index < b.screen.forest.size)
    (h : (b.addFormat n name f).addPlaces d (.attr ⟨b.screen.bindings.size⟩) f.sources = .ok b') :
    b.Wires d b' { formats := [(⟨b.screen.bindings.size⟩, f)] } := by
  obtain ⟨hscreen, hplaces⟩ := placesOf_addPlaces h
  have hself := binding?_addFormat_self b n name f
  have hother {k : BindingId} (hk : k ≠ ⟨b.screen.bindings.size⟩) :=
    binding?_addFormat_of_ne b n name f hk
  have hnone : b.screen.binding? ⟨b.screen.bindings.size⟩ = none := Array.getElem?_eq_none (Nat.le_refl _)
  have hold {k : BindingId} {x : Binding} (hx : b.screen.binding? k = some x) :
      k ≠ ⟨b.screen.bindings.size⟩ := by
    rintro rfl
    rw [hnone] at hx
    cases hx
  have hrecast : b.screen.forest.Recast (b.addFormat n name f).screen.forest :=
    Screen.recast_write (b.screen.addBinding (Binding.ofFormat n name f)).2 _
  have hqueues : (b.addFormat n name f).screen.queues = b.screen.queues := Screen.queues_write _ _
  rw [← hscreen] at hself hother hrecast hqueues
  refine ⟨⟨fun k x hx => (hother (hold hx)).trans hx, fun k x hx hk => ?_, fun q bs hbs => ?_,
    fun q bs hbs hnone => ?_, hrecast⟩, fun t σ ht => absurd ht List.not_mem_nil, fun k f' hf => ?_,
    fun k hk hnone => ?_, List.nodup_nil, List.nodup_singleton _, fun σ ps hps => ?_⟩
  · by_cases hk' : k = ⟨b.screen.bindings.size⟩
    · subst hk'
      obtain rfl := Option.some.inj (hself.symm.trans hx)
      refine ⟨rfl, hrecast.lt_size hn, fun halive => ?_⟩
      exact if_pos (hrecast.isAlive hn halive)
    · rw [hother hk', hk] at hx
      cases hx
  · exact (Screen.waiting?_of_queues hqueues q).trans hbs
  · rw [Screen.waiting?_of_queues hqueues, hnone] at hbs
    cases hbs
  · obtain ⟨rfl, rfl⟩ := Prod.mk.inj (List.mem_singleton.1 hf)
    exact ⟨hnone, _, hself, rfl, rfl⟩
  · by_cases hk' : k = ⟨b.screen.bindings.size⟩
    · rw [hk']
      exact List.mem_singleton_self _
    · rw [hother hk', hnone] at hk
      cases hk
  · obtain ⟨ps', hps', hiff⟩ := hplaces σ ps hps
    refine ⟨ps', hps', fun place => (hiff place).trans (or_congr_right ?_)⟩
    cases place with
    | text t => simp [Wiring.Lists]
    | attr k => simp [Wiring.Lists, and_assoc]

/-- The attributes of an element that is there. -/
theorem wires_addAttributes {attrs : List AttributeShape} (hn : n.index < b.screen.forest.size)
    (h : b.addAttributes d n attrs = .ok b') :
    ∃ g, b.Wires d b' g ∧ g.texts = [] ∧ g.formats.map (·.2) = attrs.filterMap (·.format) := by
  induction attrs generalizing b with
  | nil =>
    obtain rfl := Except.ok.inj h
    exact ⟨{}, .of_recast .rfl rfl rfl rfl rfl, rfl, rfl⟩
  | cons a rest ih =>
    unfold addAttributes at h
    split at h
    · next hnone =>
      have hset : b.Wires d (b.mapScreen fun s => s.mapForest fun f => f.setAttr n a.name a.value) {} :=
        .mapForest _ (.setAttr _ _ _ _)
      obtain ⟨g, hg, htexts, hformats⟩ := ih (hset.grows.recast.lt_size hn) h
      refine ⟨g, by simpa using hset.trans hg, htexts, ?_⟩
      rw [List.filterMap_cons_none hnone]
      exact hformats
    · next f hf =>
      dsimp only at h
      split at h
      · cases h
      · next b₁ h₁ =>
        have hformat := wires_format hn h₁
        obtain ⟨g, hg, htexts, hformats⟩ := ih (hformat.grows.recast.lt_size hn) h
        refine ⟨_ ++ g, hformat.trans hg, htexts, ?_⟩
        rw [List.filterMap_cons_some hf, ← hformats]
        rfl

theorem wires_noteElement (b : Building) (shape : ElementShape) (n : NodeId) :
    b.Wires d (b.noteElement shape n) {} := by
  unfold noteElement
  dsimp only
  split <;> split <;> exact .of_recast .rfl rfl rfl rfl rfl

/-! ## The walk -/

/-- A wiring of what a view uses. -/
structure Along (g : Wiring) (u : Uses) : Prop where
  texts : g.texts.map (·.2) = u.texts
  formats : g.formats.map (·.2) = u.formats

theorem Along.append {u v : Uses} (hg : Along g u) (hh : Along h v) : Along (g ++ h) (u ++ v) where
  texts := by rw [Wiring.texts_append, List.map_append, hg.texts, hh.texts, Uses.texts_append]
  formats := by rw [Wiring.formats_append, List.map_append, hg.formats, hh.formats, Uses.formats_append]

theorem lt_size_create (b : Building) (kind : NodeKind) :
    (b.create kind).1.index < (b.create kind).2.screen.forest.size :=
  lt_of_lt_of_eq (Nat.lt_succ_self _) (Forest.size_create b.screen.forest _).symm

theorem wires_create (b : Building) (kind : NodeKind) : b.Wires d (b.create kind).2 {} :=
  .of_recast (Forest.Moves.create _ _).recast rfl rfl rfl rfl

mutual

/-- What is built for a view is wired along what the view uses. -/
theorem exists_wires_build {owner : InstanceId} {b b' : Building} {around : Option Sink}
    {top : Option NodeId} : ∀ v : ViewNode, v.Blank → b.build d owner around v = .ok (top, b') →
      ∃ g, b.Wires d b' g ∧ Along g v.uses
  | .element shape children, hblank, h => by
    unfold build at h
    dsimp only at h
    split at h
    · cases h
    · next b₁ hattrs =>
      split at h
      · cases h
      · next b₂ hchildren =>
        obtain ⟨rfl, rfl⟩ := Prod.mk.inj (Except.ok.inj h)
        have hcreate : b.Wires d (b.create (.element shape.name [] false)).2 {} := wires_create b _
        have hlt := lt_size_create b (.element shape.name [] false)
        obtain ⟨g, hg, htexts, hformats⟩ := wires_addAttributes hlt hattrs
        obtain ⟨h, hh, halong⟩ := exists_wires_buildAll children hblank hchildren
        have hshape : Along g shape.uses := ⟨by rw [htexts]; rfl, hformats⟩
        have hwires := ((hcreate.trans hg).trans (wires_noteElement b₁ shape _)).trans hh
        rw [Wiring.append_empty, Wiring.empty_append] at hwires
        exact ⟨g ++ h, hwires, hshape.append halong⟩
  | .text value source, hblank, h => by
    unfold build at h
    dsimp only at h
    split at h
    · cases h
    · next b₁ hplaces =>
      obtain ⟨rfl, rfl⟩ := Prod.mk.inj (Except.ok.inj h)
      cases source with
      | none =>
        obtain rfl := Except.ok.inj hplaces
        exact ⟨{}, wires_create b _, rfl, rfl⟩
      | some source =>
        obtain rfl := hblank rfl
        exact ⟨_, wires_text hplaces, rfl, rfl⟩
  | .marker value property, _, h => by
    unfold build at h
    dsimp only at h
    split at h <;> obtain ⟨rfl, rfl⟩ := Prod.mk.inj (Except.ok.inj h)
    · exact ⟨{}, .of_recast (Forest.Moves.create _ _).recast rfl rfl rfl rfl, rfl, rfl⟩
    · exact ⟨{}, wires_create b _, rfl, rfl⟩
  | .extensionPoint, _, h => by
    unfold build at h
    obtain ⟨rfl, rfl⟩ := Prod.mk.inj (Except.ok.inj h)
    exact ⟨{}, .of_recast .rfl rfl rfl rfl rfl, rfl, rfl⟩

theorem exists_wires_buildAll {owner : InstanceId} {b b' : Building} {sink : Sink} :
    ∀ vs : List ViewNode, ViewNode.BlankAll vs → b.buildAll d owner sink vs = .ok b' →
      ∃ g, b.Wires d b' g ∧ Along g (ViewNode.usesAll vs)
  | [], _, h => by
    unfold buildAll at h
    obtain rfl := Except.ok.inj h
    exact ⟨{}, .of_recast .rfl rfl rfl rfl rfl, rfl, rfl⟩
  | v :: rest, hblank, h => by
    unfold buildAll at h
    split at h
    · cases h
    · next n b₁ hv =>
      obtain ⟨g, hg, halong⟩ := exists_wires_build v hblank.1 hv
      obtain ⟨g', hg', halong'⟩ := exists_wires_buildAll rest hblank.2 h
      have happend : b₁.Wires d (b₁.append sink.node n) {} := .mapForest _ (Forest.Moves.append _ _ _).recast
      have hwires := (hg.trans happend).trans hg'
      rw [Wiring.append_empty] at hwires
      exact ⟨g ++ g', hwires, halong.append halong'⟩
    · next b₁ hv =>
      obtain ⟨g, hg, halong⟩ := exists_wires_build v hblank.1 hv
      obtain ⟨g', hg', halong'⟩ := exists_wires_buildAll rest hblank.2 h
      exact ⟨_, hg.trans hg', halong.append halong'⟩

end

/-- The node of an element is an element. -/
theorem tag?_build {owner : InstanceId} {around : Option Sink} {top : Option NodeId} {shape : ElementShape}
    {children : List ViewNode} (hblank : (ViewNode.element shape children).Blank)
    (h : b.build d owner around (.element shape children) = .ok (top, b')) :
    ∃ n, top = some n ∧ b'.screen.forest.tag? n = some shape.name.tag := by
  unfold build at h
  dsimp only at h
  split at h
  · cases h
  · next b₁ hattrs =>
    split at h
    · cases h
    · next b₂ hchildren =>
      obtain ⟨rfl, rfl⟩ := Prod.mk.inj (Except.ok.inj h)
      have hlt := lt_size_create b (.element shape.name [] false)
      obtain ⟨_, hown, -⟩ := wires_addAttributes hlt hattrs
      obtain ⟨_, hbelow, -⟩ := exists_wires_buildAll children hblank hchildren
      have hnote := wires_noteElement (d := d) b₁ shape (b.create (.element shape.name [] false)).1
      have hrecast := (hown.grows.recast.trans hnote.grows.recast).trans hbelow.grows.recast
      have hkind : (b.screen.forest.create (.element shape.name [] false)).2.kind? ⟨b.screen.forest.size⟩ =
          some (.element shape.name [] false) :=
        congrArg (Option.map Node.kind) (Forest.node?_create b.screen.forest _)
      have htag : (b.screen.forest.create (.element shape.name [] false)).2.tag? ⟨b.screen.forest.size⟩ =
          some shape.name.tag := by
        rw [Forest.tag?_eq, hkind]
        rfl
      exact ⟨_, rfl, hrecast.tag? htag⟩

end Building

end ReactiveView
