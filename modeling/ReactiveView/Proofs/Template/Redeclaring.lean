import ReactiveView.Proofs.Loading.Compiling
import ReactiveView.Proofs.Template.Composition

/-!
# Redeclared properties

A class may declare a property that it inherits once more. What the declaration leaves out stays as in the parent:
the types, the binding, the passthrough. Only the default does not: a declaration without one gives the property the
default of its types, whatever the parent's is (`Redeclares`, `redeclares_of_parse`).

The argument follows one name through the template. A step that is about other names leaves the entry of this one
alone (`Draft.Agrees`): every other declaration does (`agrees_declareProperty`), and the walk through a view that has
no place for the property does (`agrees_readNode`). So the entry that settling begins with is the parent's with the
one declaration put over it.
-/

set_option autoImplicit false

namespace ReactiveView

/-- A view has a place for a property: a text, a part of an attribute, or a marker. -/
def Uses.Shows (u : Uses) (name : String) : Prop := .property name ∈ u.sources ∨ name ∈ u.markers

theorem Uses.shows_append {u v : Uses} {name : String} : (u ++ v).Shows name ↔ u.Shows name ∨ v.Shows name := by
  unfold Shows
  rw [mem_sources_append, markers_append, List.mem_append]
  tauto

/-- An element has a place for a property where the value of an attribute is a format that reads it. -/
theorem ElementShape.shows_uses {shape : ElementShape} {name : String} :
    shape.uses.Shows name ↔ ∃ a ∈ shape.attrs, ∃ f, a.format = some f ∧ .property name ∈ f.sources := by
  simp only [Uses.Shows, Uses.mem_sources, ElementShape.uses, List.not_mem_nil, false_or, or_false,
    List.mem_filterMap]
  constructor
  · rintro ⟨f, ⟨a, ha, hf⟩, hs⟩
    exact ⟨a, ha, f, hf, hs⟩
  · rintro ⟨a, ha, f, hf, hs⟩
    exact ⟨f, ⟨a, ha, hf⟩, hs⟩

namespace Template

open Draft (property?_some puts_setProperty puts_addProperty)

variable {r : Reading} {d d' d'' : Draft} {name : String}

/-! ## Drafts that agree on a property -/

/-- Two drafts say the same of a property. -/
structure Draft.Agrees (name : String) (d d' : Draft) : Prop where
  property? : d'.property? name = d.property? name
  ownDefaults : name ∈ d'.ownDefaults ↔ name ∈ d.ownDefaults
  ownDeclarations : name ∈ d'.ownDeclarations ↔ name ∈ d.ownDeclarations

namespace Draft.Agrees

theorem refl (name : String) (d : Draft) : d.Agrees name d := ⟨rfl, Iff.rfl, Iff.rfl⟩

theorem trans (h : d.Agrees name d') (h' : d'.Agrees name d'') : d.Agrees name d'' where
  property? := h'.property?.trans h.property?
  ownDefaults := h'.ownDefaults.trans h.ownDefaults
  ownDeclarations := h'.ownDeclarations.trans h.ownDeclarations

/-- Putting a property under another name. -/
theorem puts {p : PropertyDescriptor} (h : d.Puts p d') (hne : name ≠ p.name)
    (hdefaults : name ∈ d'.ownDefaults ↔ name ∈ d.ownDefaults)
    (hdeclarations : name ∈ d'.ownDeclarations ↔ name ∈ d.ownDeclarations) : d.Agrees name d' where
  property? := by rw [h.property?, if_neg hne]
  ownDefaults := hdefaults
  ownDeclarations := hdeclarations

end Draft.Agrees

/-! ## The walk through a view -/

theorem agrees_registerPrimitive {declared : Option String} {other : String}
    (h : registerPrimitive r d declared other = .ok d') (hne : name ≠ other) : d.Agrees name d' := by
  unfold registerPrimitive at h
  split at h
  · cases h
  · split at h
    · cases h
    · split at h
      · cases h
      · split at h
        · next hnone =>
          obtain rfl := Except.ok.inj h
          exact .puts (puts_addProperty hnone) hne Iff.rfl Iff.rfl
        · next p hp =>
          have hother := (property?_some hp).2
          have hset (q : PropertyDescriptor) (hq : q.name = other) : d.Agrees name (d.setProperty q) :=
            .puts (puts_setProperty hp hq) (hq ▸ hne) Iff.rfl Iff.rfl
          (repeat' split at h) <;> first
            | (obtain rfl := Except.ok.inj h
               exact hset _ hother)
            | cases h

theorem agrees_registerText {code : List Char} {source : Source}
    (h : registerText r d code = .ok (source, d')) (hne : source ≠ .property name) : d.Agrees name d' := by
  unfold registerText at h
  split at h
  · cases h
  · next declared other _ =>
    cases hregister : registerAttribute d declared other with
    | error e =>
      rw [hregister] at h
      cases h
    | ok d₁ =>
      rw [hregister] at h
      obtain ⟨rfl, rfl⟩ := Prod.mk.inj (Except.ok.inj h)
      have heq : d₁ = d := by
        unfold registerAttribute at hregister
        (repeat' split at hregister) <;> first | cases hregister; done | exact (Except.ok.inj hregister).symm
      exact heq ▸ .refl name d
  · next declared other _ =>
    cases hregister : registerPrimitive r d declared other with
    | error e =>
      rw [hregister] at h
      cases h
    | ok d₁ =>
      rw [hregister] at h
      obtain ⟨rfl, rfl⟩ := Prod.mk.inj (Except.ok.inj h)
      exact agrees_registerPrimitive hregister fun heq => hne (congrArg Source.property heq.symm)

theorem agrees_registerElement {code : List Char} {other : String}
    (h : registerElement r d code = .ok (other, d')) (hne : name ≠ other) : d.Agrees name d' := by
  unfold registerElement at h
  split at h
  · cases h
  · extract_lets property at h
    split at h
    · cases h
    · split at h
      · cases h
      · split at h
        · cases h
        · extract_lets kind at h
          split at h
          · next hnone =>
            obtain ⟨rfl, rfl⟩ := Prod.mk.inj (Except.ok.inj h)
            exact .puts (puts_addProperty hnone) hne Iff.rfl Iff.rfl
          · next p hp =>
            have hother := (property?_some hp).2
            split at h
            · cases h
            · split at h
              · cases h
              · obtain ⟨rfl, rfl⟩ := Prod.mk.inj (Except.ok.inj h)
                exact .puts (puts_setProperty hp hother) (hother ▸ hne) Iff.rfl Iff.rfl

theorem agrees_nodesOfPieces {pieces : List Piece} {nodes : List ViewNode}
    (h : nodesOfPieces r d pieces = .ok (nodes, d')) (hfree : ¬ (ViewNode.usesAll nodes).Shows name) :
    d.Agrees name d' := by
  have map_ok {α β : Type} {x : Except Error α} {f : α → β} {b : β} (h : x.map f = .ok b) :
      ∃ a, x = .ok a ∧ f a = b := by
    cases x with
    | error e => cases h
    | ok a => exact ⟨a, rfl, Except.ok.inj h⟩
  induction pieces generalizing d nodes with
  | nil =>
    obtain ⟨-, rfl⟩ := Prod.mk.inj (Except.ok.inj h)
    exact .refl name d
  | cons piece rest ih =>
    unfold nodesOfPieces at h
    cases piece with
    | plain s =>
      obtain ⟨⟨nodes', d₁⟩, hrest, heq⟩ := map_ok h
      obtain ⟨rfl, rfl⟩ := Prod.mk.inj heq
      exact ih hrest (not_or.1 (mt Uses.shows_append.2 hfree)).2
    | ofText code =>
      dsimp only at h
      split at h
      · cases h
      · next source d₁ hregister =>
        obtain ⟨⟨nodes', d₂⟩, hrest, heq⟩ := map_ok h
        obtain ⟨rfl, rfl⟩ := Prod.mk.inj heq
        obtain ⟨hhead, htail⟩ := not_or.1 (mt Uses.shows_append.2 hfree)
        refine (agrees_registerText hregister ?_).trans (ih hrest htail)
        rintro rfl
        exact hhead (.inl (by simp [Uses.mem_sources, ViewNode.uses]))
    | ofElement code =>
      dsimp only at h
      split at h
      · cases h
      · next other d₁ hregister =>
        obtain ⟨⟨nodes', d₂⟩, hrest, heq⟩ := map_ok h
        obtain ⟨rfl, rfl⟩ := Prod.mk.inj heq
        obtain ⟨hhead, htail⟩ := not_or.1 (mt Uses.shows_append.2 hfree)
        refine (agrees_registerElement hregister ?_).trans (ih hrest htail)
        rintro rfl
        exact hhead (.inr (by simp [ViewNode.uses]))
    | fault e => cases h

/-- A format keeps the sources it has while the rest of the value is read. -/
theorem agrees_formatOfPieces {pieces : List Piece} {f g : Format}
    (h : formatOfPieces r d f pieces = .ok (g, d')) :
    f.sources ⊆ g.sources ∧ (.property name ∉ g.sources → d.Agrees name d') := by
  induction pieces generalizing d f with
  | nil =>
    obtain ⟨rfl, rfl⟩ := Prod.mk.inj (Except.ok.inj h)
    exact ⟨List.Subset.refl _, fun _ => .refl name d⟩
  | cons piece rest ih =>
    unfold formatOfPieces at h
    cases piece with
    | plain s =>
      have hrest := ih h
      rwa [Format.sources_addText] at hrest
    | ofText code =>
      dsimp only at h
      split at h
      · cases h
      · next source d₁ hregister =>
        obtain ⟨hkeeps, hagrees⟩ := ih h
        have hadded {s : Source} (hs : s = source ∨ s ∈ f.sources) : s ∈ g.sources :=
          hkeeps (Dict.mem_keys_insert.2 hs)
        refine ⟨fun s hs => hadded (.inr hs), fun hfree => ?_⟩
        refine (agrees_registerText hregister ?_).trans (hagrees hfree)
        rintro rfl
        exact hfree (hadded (.inl rfl))
    | ofElement code => exact ih h
    | fault e => cases h

theorem agrees_readAttribute {shape shape' : ElementShape} {a : Attr} {attrName : String}
    (h : readAttribute r d shape a attrName = .ok (shape', d')) :
    shape.attrs ⊆ shape'.attrs ∧ (¬ shape'.uses.Shows name → d.Agrees name d') := by
  have hsame : shape.attrs ⊆ shape.attrs := List.Subset.refl _
  unfold readAttribute at h
  simp only [bind, Except.bind, pure, Except.pure] at h
  split at h
  · (repeat' split at h) <;> first
      | cases h; done
      | (obtain ⟨rfl, rfl⟩ := Prod.mk.inj (Except.ok.inj h); exact ⟨hsame, fun _ => .refl name d⟩)
  · split at h
    · (repeat' split at h) <;> first
        | cases h; done
        | (obtain ⟨rfl, rfl⟩ := Prod.mk.inj (Except.ok.inj h); exact ⟨hsame, fun _ => .refl name d⟩)
    · split at h
      · cases h
      · split at h
        · (repeat' split at h) <;> first
            | cases h; done
            | (obtain ⟨rfl, rfl⟩ := Prod.mk.inj (Except.ok.inj h)
               exact ⟨hsame, fun _ => ⟨rfl, Iff.rfl, Iff.rfl⟩⟩)
        · split at h
          · split at h
            · cases h
            · next x hformat =>
              obtain ⟨f, d₁⟩ := x
              obtain ⟨rfl, rfl⟩ := Prod.mk.inj (Except.ok.inj h)
              refine ⟨List.subset_append_left _ _, fun hfree => (agrees_formatOfPieces hformat).2 fun hs => ?_⟩
              exact hfree (ElementShape.shows_uses.2 ⟨_, List.mem_append_right _ List.mem_cons_self, f, rfl, hs⟩)
          · obtain ⟨rfl, rfl⟩ := Prod.mk.inj (Except.ok.inj h)
            exact ⟨List.subset_append_left _ _, fun _ => .refl name d⟩

theorem agrees_readAttributes {as : List Attr} {shape shape' : ElementShape} {seen : List String}
    (h : readAttributes r d shape seen as = .ok (shape', d')) :
    shape.attrs ⊆ shape'.attrs ∧ (¬ shape'.uses.Shows name → d.Agrees name d') := by
  induction as generalizing d shape seen with
  | nil =>
    obtain ⟨rfl, rfl⟩ := Prod.mk.inj (Except.ok.inj h)
    exact ⟨List.Subset.refl _, fun _ => .refl name d⟩
  | cons a rest ih =>
    unfold readAttributes at h
    extract_lets attrName at h
    split at h
    · cases h
    · split at h
      · cases h
      · next shape₁ d₁ hattribute =>
        obtain ⟨hfirst, hagrees⟩ := agrees_readAttribute hattribute
        obtain ⟨hrest, hagrees'⟩ := ih h
        refine ⟨List.Subset.trans hfirst hrest, fun hfree => (hagrees fun hshows => hfree ?_).trans (hagrees' hfree)⟩
        obtain ⟨x, hx, hf⟩ := ElementShape.shows_uses.1 hshows
        exact ElementShape.shows_uses.2 ⟨x, hrest hx, hf⟩

mutual

theorem agrees_readNode : ∀ (m : Markup) {d d' : Draft} {path : List Nat} {nodes : List ViewNode},
    readNode r d path m = .ok (nodes, d') → ¬ (ViewNode.usesAll nodes).Shows name → d.Agrees name d'
  | .text s, d, d', path, nodes, h, hfree => by
    unfold readNode at h
    exact agrees_nodesOfPieces h hfree
  | .comment s, d, d', path, nodes, h, hfree => by
    unfold readNode at h
    obtain ⟨-, rfl⟩ := Prod.mk.inj (Except.ok.inj h)
    exact .refl name d
  | .element tag attrs apart children, d, d', path, nodes, h, hfree => by
    unfold readNode at h
    split at h
    · split at h
      · cases h
      · obtain ⟨-, rfl⟩ := Prod.mk.inj (Except.ok.inj h)
        exact ⟨rfl, Iff.rfl, Iff.rfl⟩
    · split at h
      · cases h
      · split at h
        · cases h
        · next shape d₁ hattrs =>
          split at h
          · obtain ⟨rfl, rfl⟩ := Prod.mk.inj (Except.ok.inj h)
            rw [ViewNode.usesAll_singleton, ViewNode.uses] at hfree
            exact (agrees_readAttributes hattrs).2 (not_or.1 (mt Uses.shows_append.2 hfree)).1
          · split at h
            · cases h
            · next nodes' d₂ hnodes =>
              obtain ⟨rfl, rfl⟩ := Prod.mk.inj (Except.ok.inj h)
              rw [ViewNode.usesAll_singleton, ViewNode.uses] at hfree
              obtain ⟨hown, hchildren⟩ := not_or.1 (mt Uses.shows_append.2 hfree)
              exact ((agrees_readAttributes hattrs).2 hown).trans (agrees_readNodes children hnodes hchildren).2

theorem agrees_readNodes : ∀ (ms : List Markup) {d d' : Draft} {path : List Nat} {read nodes : List ViewNode},
    readNodes r d path read ms = .ok (nodes, d') → ¬ (ViewNode.usesAll nodes).Shows name →
    ¬ (ViewNode.usesAll read).Shows name ∧ d.Agrees name d'
  | [], d, d', path, read, nodes, h, hfree => by
    unfold readNodes at h
    obtain ⟨rfl, rfl⟩ := Prod.mk.inj (Except.ok.inj h)
    exact ⟨hfree, .refl name d⟩
  | m :: ms, d, d', path, read, nodes, h, hfree => by
    unfold readNodes at h
    split at h
    · cases h
    · next nodes₁ d₁ hm =>
      obtain ⟨hread, hrest⟩ := agrees_readNodes ms h hfree
      rw [ViewNode.usesAll_append] at hread
      obtain ⟨hbefore, hnode⟩ := not_or.1 (mt Uses.shows_append.2 hread)
      exact ⟨hbefore, (agrees_readNode m hm hnode).trans hrest⟩

end

theorem agrees_readRoot {root : Option Markup} {own : Option ViewNode} (h : readRoot r d root = .ok (own, d'))
    (hroot : ∀ m, root = some m → m.tag?.isSome = true) (hfree : ∀ v, own = some v → ¬ v.uses.Shows name) :
    d.Agrees name d' := by
  cases root with
  | none =>
    obtain ⟨-, rfl⟩ := Prod.mk.inj (Except.ok.inj h)
    exact .refl name d
  | some m =>
    unfold readRoot at h
    cases hm : readNode r d [] m with
    | error e =>
      simp only [hm] at h
      cases h
    | ok x =>
      obtain ⟨nodes, d₁⟩ := x
      simp only [hm] at h
      obtain ⟨rfl, rfl⟩ := Prod.mk.inj (Except.ok.inj h)
      obtain ⟨v, rfl⟩ := exists_eq_singleton_of_readNode (hroot m rfl) hm
      refine agrees_readNode m hm ?_
      rw [ViewNode.usesAll_singleton]
      exact hfree v rfl

/-! ## Declarations -/

theorem agrees_addMethods {methods : List (String × Host.Script)} (h : d.addMethods methods = .ok d') :
    d.Agrees name d' := by
  induction methods generalizing d with
  | nil =>
    obtain rfl := Except.ok.inj h
    exact .refl name d
  | cons m rest ih =>
    unfold Draft.addMethods at h
    split at h
    · cases h
    · have hinsert : d.Agrees name { d with methods := d.methods.insert m.1 m.2 } := ⟨rfl, Iff.rfl, Iff.rfl⟩
      exact hinsert.trans (ih h)

theorem agrees_declareAttributes {ms : List Markup} (h : declareAll declareAttribute d ms = .ok d') :
    d.Agrees name d' := by
  induction ms generalizing d with
  | nil =>
    obtain rfl := Except.ok.inj h
    exact .refl name d
  | cons m rest ih =>
    unfold declareAll at h
    split at h
    · cases h
    · next d₁ hfirst =>
      refine .trans ?_ (ih h)
      unfold declareAttribute at hfirst
      simp only [bind, Except.bind, pure, Except.pure] at hfirst
      (repeat' split at hfirst) <;> first
        | cases hfirst; done
        | (cases hfirst; exact ⟨rfl, Iff.rfl, Iff.rfl⟩)

/-- What the declaration of a property mentions. -/
structure Mentions where
  types : Option (List PrimitiveType)
  default : Option Value
  binding : Option Format
  passthrough : Option String

/-- What a declaration that can be read mentions of a property. -/
structure Mentions.Reads (x : Mentions) (name : String) (decl : Markup) : Prop where
  named : decl.attr? "name" = some name
  types : writtenTypes decl = .ok x.types
  default : writtenDefault decl = .ok x.default
  binding : writtenBinding name decl = .ok x.binding
  passthrough : decl.attr? "passthrough" = x.passthrough

/-- A declaration puts a property into a draft: over the inherited one, if there is one. -/
structure Declares (x : Mentions) (name : String) (p : PropertyDescriptor) (d d' : Draft) : Prop where
  fresh : name ∉ d.ownDeclarations
  property_name : p.name = name
  puts : d.Puts p d'
  overrides : ∀ q, d.property? name = some q →
    q.kind.isPrimitive = true ∧ p = overridden q x.types x.default x.binding x.passthrough
  ownDeclarations : d'.ownDeclarations = name :: d.ownDeclarations
  ownDefaults : d'.ownDefaults = if x.default.isSome then name :: d.ownDefaults else d.ownDefaults

theorem declares_of_declareProperty {strict : Bool} {decl : Markup} (h : declareProperty strict d decl = .ok d') :
    ∃ x other p, Mentions.Reads x other decl ∧ Declares x other p d d' := by
  unfold declareProperty at h
  split at h
  · next other hname =>
    split at h
    · cases h
    · split at h
      · cases h
      · next hfresh =>
        have hfresh : other ∉ d.ownDeclarations := by simpa using hfresh
        split at h
        · cases h
        · simp only [bind, Except.bind, pure, Except.pure] at h
          split at h
          · cases h
          · next types htypes =>
            split at h
            · cases h
            · next default hdefault =>
              split at h
              · cases h
              · split at h
                · cases h
                · next binding hbinding =>
                  have hreads : Mentions.Reads ⟨types, default, binding, decl.attr? "passthrough"⟩ other decl :=
                    ⟨hname, htypes, hdefault, hbinding, rfl⟩
                  split at h
                  · next p hp =>
                    have hother := (property?_some hp).2
                    split at h
                    · next hprim =>
                      obtain rfl := Except.ok.inj h
                      have hputs := puts_setProperty
                        (p := overridden p types default binding (decl.attr? "passthrough")) hp hother
                      refine ⟨_, other, overridden p types default binding (decl.attr? "passthrough"), hreads, hfresh,
                        hother, ⟨hputs.property?, rfl, rfl, rfl, rfl⟩, fun q hq => ?_, rfl, rfl⟩
                      obtain rfl := Option.some.inj (hp.symm.trans hq)
                      exact ⟨hprim, rfl⟩
                    · cases h
                  · next hnone =>
                    obtain rfl := Except.ok.inj h
                    refine ⟨_, other, { PropertyDescriptor.ofTypes other types with
                        default := default.getD (PropertyDescriptor.ofTypes other types).default
                        binding := binding, passthrough := decl.attr? "passthrough" }, hreads, hfresh, rfl,
                      ⟨(puts_addProperty hnone).property?, rfl, rfl, rfl, rfl⟩, fun q hq => ?_, rfl, rfl⟩
                    rw [hnone] at hq
                    cases hq
  · cases h

/-- The declaration of another property. -/
theorem Declares.agrees {x : Mentions} {other : String} {p : PropertyDescriptor} (h : Declares x other p d d')
    (hne : name ≠ other) : d.Agrees name d' := by
  refine .puts h.puts (h.property_name ▸ hne) ?_ ?_
  · rw [h.ownDefaults]
    split
    · simp [hne]
    · rfl
  · rw [h.ownDeclarations]
    simp [hne]

theorem Declares.mem_ownDeclarations {x : Mentions} {p : PropertyDescriptor} (h : Declares x name p d d') :
    name ∈ d'.ownDeclarations := by
  rw [h.ownDeclarations]
  exact List.mem_cons_self

/-- A property that has been declared is not declared again. -/
theorem agrees_declareProperties {strict : Bool} {ms : List Markup}
    (h : declareAll (declareProperty strict) d ms = .ok d') (hdeclared : name ∈ d.ownDeclarations) :
    d.Agrees name d' ∧ ∀ m ∈ ms, m.attr? "name" ≠ some name := by
  induction ms generalizing d with
  | nil =>
    obtain rfl := Except.ok.inj h
    exact ⟨.refl name d, fun m hm => absurd hm List.not_mem_nil⟩
  | cons m rest ih =>
    unfold declareAll at h
    split at h
    · cases h
    · next d₁ hfirst =>
      obtain ⟨x, other, p, hreads, hdeclares⟩ := declares_of_declareProperty hfirst
      have hne : name ≠ other := fun heq => hdeclares.fresh (heq ▸ hdeclared)
      have hagrees := hdeclares.agrees hne
      obtain ⟨hrest, hothers⟩ := ih h (hagrees.ownDeclarations.2 hdeclared)
      refine ⟨hagrees.trans hrest, fun m' hm' => ?_⟩
      rcases List.mem_cons.1 hm' with rfl | hm'
      · rw [hreads.named]
        exact fun heq => hne (Option.some.inj heq).symm
      · exact hothers m' hm'

/-- Of the declarations of a template one is about the property, and all others leave it alone. -/
theorem declares_of_declareProperties {strict : Bool} {ms : List Markup} {decl : Markup}
    (h : declareAll (declareProperty strict) d ms = .ok d') (hdecl : decl ∈ ms)
    (hname : decl.attr? "name" = some name) :
    ∃ x p d₁ d₂, Mentions.Reads x name decl ∧ d.Agrees name d₁ ∧ Declares x name p d₁ d₂ ∧ d₂.Agrees name d' := by
  induction ms generalizing d with
  | nil => exact absurd hdecl List.not_mem_nil
  | cons m rest ih =>
    unfold declareAll at h
    split at h
    · cases h
    · next d₁ hfirst =>
      obtain ⟨x, other, p, hreads, hdeclares⟩ := declares_of_declareProperty hfirst
      rcases List.mem_cons.1 hdecl with rfl | hdecl
      · obtain rfl := Option.some.inj (hname.symm.trans hreads.named)
        have hrest := agrees_declareProperties h hdeclares.mem_ownDeclarations
        exact ⟨x, p, d, d₁, hreads, .refl name d, hdeclares, hrest.1⟩
      · have hne : name ≠ other := by
          rintro rfl
          exact (agrees_declareProperties h hdeclares.mem_ownDeclarations).2 decl hdecl hname
        obtain ⟨x', p', d₂, d₃, hreads', hbefore, hdeclares', hafter⟩ := ih h hdecl
        exact ⟨x', p', d₂, d₃, hreads', (hdeclares.agrees hne).trans hbefore, hdeclares', hafter⟩

/-! ## Settling -/

theorem settles_of_checkProperty {p q : PropertyDescriptor} (h : checkProperty d p = .ok q) :
    settleDefault d p = .ok q := by
  unfold checkProperty at h
  split at h
  · cases h
  · split at h
    · cases h
    · next hsettle =>
      split at h
      · cases h
      · obtain rfl := Except.ok.inj h
        exact hsettle

/-- What is found under a name after settling is what was found there before, settled. -/
theorem find?_checkEach {ps qs : List PropertyDescriptor} (h : checkEach d ps = .ok qs) (hps : ∀ p ∈ ps, p.Sound)
    {p : PropertyDescriptor} (hp : ps.find? (fun p => p.name == name) = some p) :
    ∃ q, qs.find? (fun q => q.name == name) = some q ∧ settleDefault d p = .ok q := by
  induction ps generalizing qs with
  | nil => cases hp
  | cons x ps ih =>
    unfold checkEach at h
    split at h
    · cases h
    · next y hy =>
      split at h
      · cases h
      · next ys hys =>
        obtain rfl := Except.ok.inj h
        have hsettle := settles_of_checkProperty hy
        rw [List.find?_cons] at hp ⊢
        rw [(settleDefault_spec hsettle (hps x List.mem_cons_self)).1]
        split at hp
        · obtain rfl := Option.some.inj hp
          exact ⟨y, rfl, hsettle⟩
        · exact ih hys (fun p hp => hps p (List.mem_cons_of_mem x hp)) hp

/-- Settling a property that is declared in the template: its default is the written one, or that of its types. -/
theorem settleDefault_of_mem {p q : PropertyDescriptor} {types : Option (List PrimitiveType)}
    (h : settleDefault d p = .ok q) (hkind : p.kind = .primitive types) (hdeclared : p.name ∈ d.ownDeclarations) :
    p.passthrough = none ∧ q = if p.name ∈ d.ownDefaults then p else { p with default := defaultFor types } := by
  obtain ⟨property, kind, default, binding, passthrough, hasSite⟩ := p
  obtain rfl : kind = .primitive types := hkind
  unfold settleDefault at h
  dsimp only at h hdeclared ⊢
  split at h
  · cases h
  · next hpassthrough =>
    refine ⟨by simpa using hpassthrough, ?_⟩
    split at h
    · next hdefault =>
      rw [if_pos (by simpa using hdefault)]
      cases hcheck : checkDefault property default types with
      | error e =>
        rw [hcheck] at h
        cases h
      | ok u =>
        rw [hcheck] at h
        exact (Except.ok.inj h).symm
    · next hdefault =>
      rw [if_neg (by simpa using hdefault)]
      rw [if_pos (by simp [hdeclared])] at h
      exact (Except.ok.inj h).symm

/-! ## Redeclaring -/

/-- The declarations of properties among the children of a template are all taken. -/
theorem mem_properties_of_sortParts {className : String} {ms : List Markup} {parts parts' : Parts} {m : Markup}
    (h : sortParts className parts ms = .ok parts')
    (hm : m ∈ parts.properties ∨ m ∈ ms ∧ m.tag? = some propertyTag) : m ∈ parts'.properties := by
  induction ms generalizing parts with
  | nil =>
    obtain rfl := Except.ok.inj h
    exact hm.resolve_right fun hm => List.not_mem_nil hm.1
  | cons y rest ih =>
    have hrest (hne : y.tag? ≠ some propertyTag) : m ∈ parts.properties ∨ m ∈ rest ∧ m.tag? = some propertyTag := by
      refine hm.imp_right fun hm => ⟨(List.mem_cons.1 hm.1).resolve_left ?_, hm.2⟩
      rintro rfl
      exact hne hm.2
    cases y with
    | text s =>
      unfold sortParts at h
      split at h
      · exact ih h (hrest fun htag => by cases htag)
      · cases h
    | comment s => exact ih h (hrest fun htag => by cases htag)
    | element tag attrs apart children =>
      unfold sortParts at h
      extract_lets y at h
      split at h
      · refine ih h ?_
        rcases hm with hm | ⟨hm, htag⟩
        · exact .inl (List.mem_append_left _ hm)
        · rcases List.mem_cons.1 hm with rfl | hm
          · exact .inl (List.mem_append_right _ List.mem_cons_self)
          · exact .inr ⟨hm, htag⟩
      · next hother =>
        have hne : (Markup.element tag attrs apart children).tag? ≠ some propertyTag :=
          fun heq => hother (Option.some.inj heq)
        split at h
        · exact ih h (hrest hne)
        · split at h
          · cases h
          · exact ih h (hrest hne)

/-- A property with what a declaration mentions put over it. Without a mention of a default it has the default of
its types. -/
def Mentions.redeclared (x : Mentions) (p : PropertyDescriptor) : PropertyDescriptor :=
  let types := x.types.or p.kind.types?
  { p with
    kind := .primitive types
    default := x.default.getD (defaultFor types)
    binding := x.binding.or p.binding
    passthrough := x.passthrough.or p.passthrough }

/-- What a declaration puts over a primitive property keeps the default that is not mentioned. -/
theorem overridden_eq {p : PropertyDescriptor} (hprim : p.kind.isPrimitive = true) (x : Mentions) :
    overridden p x.types x.default x.binding x.passthrough =
      { x.redeclared p with default := x.default.getD p.default } := by
  have hor {α : Type} (o o' : Option α) : (if o.isSome then o else o') = o.or o' := by cases o <;> rfl
  have hkind : (if x.types.isSome then .primitive x.types else p.kind) =
      PropertyKind.primitive (x.types.or p.kind.types?) := by
    cases htypes : x.types with
    | some ts => rfl
    | none =>
      cases hkind : p.kind with
      | primitive ts => rfl
      | slot e =>
        rw [hkind] at hprim
        cases hprim
      | sequence e =>
        rw [hkind] at hprim
        cases hprim
  simp only [overridden, hor, hkind, Mentions.redeclared]

/-- Settling loses a default that is not mentioned. -/
theorem redeclared_of_settleDefault {p q : PropertyDescriptor} {x : Mentions} (hprim : p.kind.isPrimitive = true)
    (h : settleDefault d (overridden p x.types x.default x.binding x.passthrough) = .ok q)
    (hdeclared : p.name ∈ d.ownDeclarations) (hdefault : p.name ∈ d.ownDefaults ↔ x.default.isSome = true) :
    q = x.redeclared p := by
  rw [overridden_eq hprim] at h
  obtain ⟨-, rfl⟩ := settleDefault_of_mem h rfl hdeclared
  have hname : (x.redeclared p).name = p.name := rfl
  dsimp only
  rw [hname]
  split
  · next hmem =>
    obtain ⟨v, hv⟩ := Option.isSome_iff_exists.1 (hdefault.1 hmem)
    simp only [Mentions.redeclared, hv, Option.getD_some]
  · next hmem =>
    have hv : x.default = none := Option.not_isSome_iff_eq_none.1 (mt hdefault.2 hmem)
    simp only [Mentions.redeclared, hv, Option.getD_none]

/-- A declaration of an inherited primitive property, in a template whose own root has no place for it, changes of
the property what it mentions, and gives it the default of its types if it mentions none. -/
theorem redeclares_of_parse {definition : Definition} {parentRef : ClassRef} {parent child : Descriptor}
    {decl : Markup} {p : PropertyDescriptor} (hparent : parent.Valid)
    (h : parse r definition (some (parentRef, parent)) = .ok child)
    (hdecl : decl ∈ definition.template.contentChildren) (htag : decl.tag? = some propertyTag)
    (hname : decl.attr? "name" = some name) (hp : parent.property? name = some p)
    (hprim : p.kind.isPrimitive = true)
    (hsite : ∀ own d, ownView r definition (some parent) = .ok (some own, d) → ¬ own.uses.Shows name) :
    ∃ x, Mentions.Reads x name decl ∧ child.property? name = some (x.redeclared p) := by
  obtain ⟨d₁, parts, d₂, d₃, own, d₄, view, point, ps, h₁, h₂, h₃, h₄, h₅, h₆, h₇, hproperties, -⟩ := parse_ok h
  have hown : ownView r definition (some parent) = .ok (own, d₄) := by
    rw [Option.map_some] at h₁
    simp only [ownView, declared, bind, Except.bind, pure, Except.pure, h₁, h₂, h₃, h₄]
    exact h₅
  have hroot := isElement_of_sortParts h₂ fun m hm => by cases hm
  have hsound : d₄.Sound := by
    refine sound_readRoot h₅ (sound_declareAll (fun d d' m => sound_declareProperty) h₄
      (sound_declareAll (fun d d' m => sound_declareAttribute) h₃ ?_))
    refine (Draft.Sound.ofParent fun p hp => ?_).congr (Draft.properties_addMethods h₁)
    obtain rfl := Option.some.inj hp
    exact hparent
  -- the entry of the property on its way through the template
  have hbefore : (Draft.ofParent (some parent)).Agrees name d₂ :=
    (agrees_addMethods h₁).trans (agrees_declareAttributes h₃)
  have hmem := mem_properties_of_sortParts h₂ (.inr ⟨hdecl, htag⟩)
  obtain ⟨x, q, e₁, e₂, hreads, hothers, hdeclares, hothers'⟩ := declares_of_declareProperties h₄ hmem hname
  have hwalk : d₃.Agrees name d₄ :=
    agrees_readRoot h₅ hroot fun v hv => hsite v d₄ (hv ▸ hown)
  have hfirst := hbefore.trans hothers
  have hlast := hothers'.trans hwalk
  have hinherited : e₁.property? name = some p := hfirst.property?.trans hp
  obtain ⟨-, rfl⟩ := hdeclares.overrides p hinherited
  have hfound : d₄.property? name = some (overridden p x.types x.default x.binding x.passthrough) := by
    rw [hlast.property?, hdeclares.puts.property?, if_pos hdeclares.property_name.symm]
  obtain ⟨q, hq, hsettle⟩ := find?_checkEach h₇ hsound.sound hfound
  have hpname : p.name = name := (Descriptor.property?_some hp).2
  have hdeclared : name ∈ d₄.ownDeclarations := hlast.ownDeclarations.2 hdeclares.mem_ownDeclarations
  have hdefault : name ∈ d₄.ownDefaults ↔ x.default.isSome = true := by
    have hnone : name ∉ e₁.ownDefaults := fun hmem => List.not_mem_nil (hfirst.ownDefaults.1 hmem)
    rw [hlast.ownDefaults, hdeclares.ownDefaults]
    split
    · next hsome => simp [hsome]
    · next hsome => simp [hnone, hsome]
  refine ⟨x, hreads, ?_⟩
  rw [← redeclared_of_settleDefault hprim hsettle (hpname ▸ hdeclared) (hpname ▸ hdefault), ← hq,
    Descriptor.property?, hproperties]

end Template

namespace Run

open Template (Mentions)

/-- A class that is compiled keeps the table of classes compiled. -/
theorem compiled_compileClass {space : NamespaceId} {behaviors : Behaviors} {w w' : World} {ns : Namespace}
    {pending : PendingClass} {parent : Option (ClassRef × Class)} (hw : Compiled w.classes)
    (hns : w.space? space = some ns) (hparent : parentOf space pending.header w = (.ok parent, w))
    (h : compileClass space behaviors pending w = (.ok (), w')) : Compiled w'.classes := by
  rw [compileClass_apply hns hparent] at h
  cases hcompiled : pending.compiled? space behaviors ns parent with
  | error e =>
    rw [hcompiled] at h
    cases h
  | ok c =>
    rw [hcompiled] at h
    obtain ⟨-, rfl⟩ := Prod.mk.inj h
    unfold PendingClass.compiled? at hcompiled
    simp only [bind, Except.bind] at hcompiled
    split at hcompiled
    · cases hcompiled
    · next d hparse => exact hw.push _ _ parent (parentOf_eq_ok hparent).2 d hparse _ _ _ c hcompiled

/-- A class is compiled whose template declares a primitive property of the parent, and whose own root has no place
for it. Then the parent stays the class it is, and the new class has the property of the parent, with what the
declaration mentions put over it, and with the default of its types if the declaration mentions none. -/
theorem redeclares_of_compileClass {space : NamespaceId} {behaviors : Behaviors} {w w' : World} {ns : Namespace}
    {pending : PendingClass} {ref : ClassRef} {parent : Class} {decl : Markup} {name : String}
    {p : PropertyDescriptor} (hw : Compiled w.classes) (hns : w.space? space = some ns)
    (hparent : parentOf space pending.header w = (.ok (some (ref, parent)), w))
    (h : compileClass space behaviors pending w = (.ok (), w'))
    (hdecl : decl ∈ pending.template.contentChildren) (htag : decl.tag? = some Template.propertyTag)
    (hname : decl.attr? "name" = some name) (hp : parent.descriptor.property? name = some p)
    (hprim : p.kind.isPrimitive = true)
    (hsite : ∀ own d, Template.ownView ns.reading (pending.definition behaviors) (some parent.descriptor) =
      .ok (some own, d) → ¬ own.uses.Shows name) :
    w'.class? ref.id = some parent ∧
    ∃ x child, w' = w.withClass space child ∧ Mentions.Reads x name decl ∧
      child.descriptor.property? name = some (x.redeclared p) := by
  have hclass := (parentOf_eq_ok hparent).2 _ rfl
  rw [compileClass_apply hns hparent] at h
  cases hcompiled : pending.compiled? space behaviors ns (some (ref, parent)) with
  | error e =>
    rw [hcompiled] at h
    cases h
  | ok child =>
    rw [hcompiled] at h
    obtain ⟨-, rfl⟩ := Prod.mk.inj h
    unfold PendingClass.compiled? at hcompiled
    simp only [bind, Except.bind, Option.map_some] at hcompiled
    split at hcompiled
    · cases hcompiled
    · next d hparse =>
      obtain rfl := Class.descriptor_of_compile hcompiled
      obtain ⟨x, hreads, hfound⟩ := Template.redeclares_of_parse (hw.valid hclass).descriptor hparse hdecl htag
        hname hp hprim hsite
      refine ⟨?_, x, child, rfl, hreads, hfound⟩
      have hlt : ref.id.index < w.classes.size := (Array.getElem?_eq_some_iff.1 hclass).1
      exact (Table.get?_push_of_lt _ _ _ hlt).trans hclass

/-- A greeting, which says something. -/
def greetingTemplate : Markup :=
  .element (.html "template") [] false
    [.element (.html "ooml-property") [⟨.plain "name", "word"⟩, ⟨.plain "type", "string"⟩] false [.text "\"hi\""],
      .element (.html "div") [] false []]

/-- A greeting that declares its word once more, and nothing else. -/
def echoTemplate : Markup :=
  .element (.html "template") [] false [.element (.html "ooml-property") [⟨.plain "name", "word"⟩] false []]

/-- What is compiled first, and what is compiled with it as parent. -/
def greeting : PendingClass := ⟨⟨"Greeting", false, none⟩, greetingTemplate, []⟩

def echo : PendingClass := ⟨⟨"Echo", false, some "Greeting"⟩, echoTemplate, ["Greeting"]⟩

/-- The text that a class gives its word. -/
def wordOf (c : Class) : Option String := (c.descriptor.property? "word").map fun p => p.default.outputText

/-- The world after the first. -/
def greetingWorld : World := (compileClass ⟨0⟩ [] greeting openWorld).2

theorem eq_ok_of_isOk {out : Except Halt Unit × World} (h : out.1.isOk = true) : out = (.ok (), out.2) := by
  rcases out with ⟨e | _, w⟩
  · cases h
  · rfl

/-- Both can be compiled, one after the other. -/
theorem compileClass_greeting : ∃ w w' ns parent p, compileClass ⟨0⟩ [] greeting openWorld = (.ok (), w) ∧
    compileClass ⟨0⟩ [] echo w = (.ok (), w') ∧ w.space? ⟨0⟩ = some ns ∧ wordOf parent = some "hi" ∧
    parent.descriptor.property? "word" = some p ∧ p.kind.types? = some [.text] ∧ p.kind.isPrimitive = true ∧
    parentOf ⟨0⟩ echo.header w = (.ok (some (⟨⟨0⟩, "Greeting"⟩, parent)), w) := by
  have hruns : ((compileClass ⟨0⟩ [] greeting openWorld).1.isOk &&
      ((greetingWorld.space? ⟨0⟩).bind fun ns => ns.resolve? "Greeting") == some ⟨⟨0⟩, "Greeting"⟩ &&
      (greetingWorld.class? ⟨0⟩).any (fun c => wordOf c == some "hi" &&
        (c.descriptor.property? "word").any fun p => p.kind.types? == some [.text] && p.kind.isPrimitive) &&
      (compileClass ⟨0⟩ [] echo greetingWorld).1.isOk) = true := by decide +kernel
  simp only [Bool.and_eq_true, beq_iff_eq] at hruns
  obtain ⟨⟨⟨hfirst, hresolve⟩, hparent⟩, hsecond⟩ := hruns
  obtain ⟨parent, hclass, hchecks⟩ := (Option.any_eq_true _ _).1 hparent
  simp only [Bool.and_eq_true, beq_iff_eq] at hchecks
  obtain ⟨hword, hproperty⟩ := hchecks
  obtain ⟨p, hp, hkind⟩ := (Option.any_eq_true _ _).1 hproperty
  simp only [Bool.and_eq_true, beq_iff_eq] at hkind
  obtain ⟨ns, hns, hresolve⟩ := Option.bind_eq_some_iff.1 hresolve
  refine ⟨greetingWorld, _, ns, parent, p, eq_ok_of_isOk hfirst, eq_ok_of_isOk hsecond, hns, hword, hp, hkind.1,
    hkind.2, ?_⟩
  have hresolved : resolveIn ⟨0⟩ "Greeting" greetingWorld = (.ok ⟨⟨0⟩, "Greeting"⟩, greetingWorld) := by
    unfold resolveIn
    rw [bind_of_ok (theSpace_of hns), hresolve]
    rfl
  change (resolveIn ⟨0⟩ "Greeting" >>= _) greetingWorld = _
  rw [bind_of_ok hresolved, bind_of_ok (theClass_of hclass)]
  rfl

/-- The greeting says `hi`. The echo, which leaves the default of the word out, says nothing. -/
theorem redeclares_of_compileClass_greeting : ∃ w w' parent child,
    compileClass ⟨0⟩ [] greeting openWorld = (.ok (), w) ∧ compileClass ⟨0⟩ [] echo w = (.ok (), w') ∧
    w'.class? ⟨0⟩ = some parent ∧ wordOf parent = some "hi" ∧
    w' = w.withClass ⟨0⟩ child ∧ wordOf child = some "" := by
  obtain ⟨w, w', ns, parent, p, hfirst, hsecond, hns, hword, hp, htypes, hprim, hparent⟩ := compileClass_greeting
  have hdecl : Markup.element (.html "ooml-property") [⟨.plain "name", "word"⟩] false [] ∈
      echo.template.contentChildren := List.mem_cons_self
  have hname : (Markup.element (.html "ooml-property") [⟨.plain "name", "word"⟩] false []).attr? "name" =
      some "word" := rfl
  have hcompiled : Compiled w.classes := compiled_compileClass .empty rfl rfl hfirst
  -- the template of the echo has no root
  have hsite : ∀ own d, Template.ownView ns.reading (echo.definition []) (some parent.descriptor) =
      .ok (some own, d) → ¬ own.uses.Shows "word" := by
    intro own d hown
    obtain ⟨d₁, parts, d₂, d₃, -, hparts, -, -, hread⟩ := Template.ownView_ok hown
    have hroot : parts.root = none := Template.root_of_sortParts hparts
    rw [hroot] at hread
    cases hread
  obtain ⟨hkept, x, child, hw', hreads, hchild⟩ := redeclares_of_compileClass hcompiled hns hparent hsecond
    hdecl rfl hname hp hprim hsite
  refine ⟨w, w', parent, child, hfirst, hsecond, hkept, hword, hw', ?_⟩
  have hnone : x.types = none ∧ x.default = none :=
    ⟨(Except.ok.inj hreads.types).symm, (Except.ok.inj hreads.default).symm⟩
  unfold wordOf
  rw [hchild, Option.map_some]
  simp only [Mentions.redeclared, hnone, htypes, Option.none_or, Option.getD_none]
  rfl

end Run

end ReactiveView
