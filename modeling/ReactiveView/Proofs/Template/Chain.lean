import ReactiveView.Proofs.Template.Walk

/-!
# Chains of templates

A descriptor is *parsed* when it was read from a class template, its parent, if it has one, being parsed
before it (`Descriptor.Parsed`). Along every such chain the names, the view, the defaults and the
bindings of the descriptor agree with each other (`Descriptor.WellFormed`, `Descriptor.Parsed.wellFormed`).

Reading starts from a draft that serves the view of the parent, goes through the declarations, walks
through the own view, and puts it into the parent's view at the extension point (`serves_compose`). What
the descriptor of the parent has to provide for this is `Descriptor.Extensible`. Settling changes neither
the names nor the kinds of properties; it makes the defaults admissible and checks the bindings
(`Settles`).
-/

set_option autoImplicit false

namespace ReactiveView

namespace PropertyKind

/-- The defaults that a property of a kind can have. -/
def Admits : PropertyKind → Value → Prop
  | primitive types, v => Admissible types v
  | slot _, v => v = .null ∨ ∃ fields, v = .object fields
  | sequence _, v => ∃ items, v = .array items ∧ ∀ x ∈ items, ∃ fields, x = .object fields

/-- Whether a property of a kind is primitive and can hold a text. -/
def AcceptsText (kind : PropertyKind) : Prop :=
  kind.isPrimitive = true ∧ ∀ ts, kind.types? = some ts → .text ∈ ts

end PropertyKind

namespace Descriptor

/-- The source of a text: a declared attribute or a primitive property. -/
def Declares (d : Descriptor) : Source → Prop
  | .attr name => ∃ a ∈ d.attributes, a.name = name
  | .property name => ∃ p ∈ d.properties, p.name = name ∧ p.kind.isPrimitive = true

/-- The parts of a descriptor agree with each other. -/
structure WellFormed (d : Descriptor) : Prop where
  properties_nodup : d.propertyNames.Nodup
  not_method : ∀ p ∈ d.properties, d.methods.contains p.name = false
  attributes_nodup : (d.attributes.map (·.name)).Nodup
  /-- Texts and formats of the view have declared sources. -/
  sources : ∀ s ∈ d.uses.sources, d.Declares s
  /-- Every element or array property has exactly one marker, and there are no others. -/
  markers_nodup : d.uses.markers.Nodup
  mem_markers : ∀ name, name ∈ d.uses.markers ↔
    ∃ p ∈ d.properties, p.name = name ∧ p.kind.isPrimitive = false
  handlers : ∀ h ∈ d.uses.handlers, ∀ m, .call m ∈ h.steps → d.methods.contains m = true
  /-- The keys in the view are the listed ones, each once. -/
  keys : d.uses.keys.Perm d.exposeKeys
  keys_nodup : d.exposeKeys.Nodup
  defaults : ∀ p ∈ d.properties, p.kind.Admits p.default
  attribute_defaults : ∀ a ∈ d.attributes, Admissible a.types a.default
  /-- A bound property can hold a text, and reads other primitive properties. -/
  bindings : ∀ p ∈ d.properties, ∀ f, p.binding = some f → p.kind.AcceptsText ∧
    ∀ s ∈ f.sources, ∃ q ∈ d.properties, s = .property q.name ∧ q.name ≠ p.name ∧
      q.kind.isPrimitive = true

/-- What the template of a subclass starts from. -/
structure Extensible (d : Descriptor) : Prop where
  placed : ∀ p ∈ d.properties, p.Placed
  sited : ∀ p ∈ d.properties, .property p.name ∈ d.uses.sources → p.hasSite = true
  attribute_types : ∀ a ∈ d.attributes, ∀ ts, a.types = some ts → Declarable ts
  formats : ∀ f ∈ d.uses.formats, f.Laid
  point : ∀ path, d.extensionPoint = some path →
    ∃ v, d.view = some v ∧ v.at? path = some .extensionPoint

end Descriptor

namespace Template

open Draft

variable {d d' : Draft} {u : Uses} {point : Option (List Nat)}

/-! ## Looking up properties -/

/-- With different names, every property is the one under its name. -/
theorem Draft.Sound.property?_name (hd : d.Sound) {p : PropertyDescriptor} (hp : p ∈ d.properties) :
    d.property? p.name = some p := by
  cases hq : d.property? p.name with
  | none => simpa using List.find?_eq_none.1 hq p hp
  | some q =>
    obtain ⟨hqm, hqn⟩ := property?_some hq
    rw [List.inj_on_of_nodup_map hd.nodup hqm hp hqn]

/-! ## Declarations -/

theorem declarable_writtenTypes {decl : Markup} {types : Option (List PrimitiveType)}
    (h : writtenTypes decl = .ok types) : ∀ ts, types = some ts → Declarable ts := by
  intro ts hts
  subst hts
  unfold writtenTypes at h
  split at h
  · cases h
  · next declaration _ =>
    cases hparse : parseTypes declaration with
    | error e => simp [hparse, Except.map] at h
    | ok ts' =>
      simp only [hparse, Except.map, Except.ok.injEq, Option.some.injEq] at h
      rw [← h]
      exact declarable_parseTypes hparse

theorem admissible_of_checkDefault {name : String} {v : Value} {types : Option (List PrimitiveType)}
    (h : checkDefault name v types = .ok ()) : Admissible types v := by
  unfold checkDefault at h
  split at h
  · cases h
  · next hprim =>
    refine ⟨by simpa using hprim, fun ts hts => ?_⟩
    subst hts
    dsimp only at h
    split at h
    · next hacc => exact hacc
    · cases h

/-- The methods of a template are added to those that are there. -/
theorem serves_addMethods {methods : List (String × Host.Script)}
    (h : d.addMethods methods = .ok d') (hd : d.Serves u point) : d'.Serves u point := by
  induction methods generalizing d with
  | nil =>
    rw [← Except.ok.inj h]
    exact hd
  | cons m rest ih =>
    obtain ⟨name, script⟩ := m
    unfold addMethods at h
    split at h
    · cases h
    · refine ih h
        { sources := hd.sources
          markers_nodup := hd.markers_nodup
          mem_markers := hd.mem_markers
          handlers := fun x hx m hm => ?_
          keys := hd.keys
          keys_nodup := hd.keys_nodup
          formats := hd.formats
          placed := hd.placed
          attributes_nodup := hd.attributes_nodup
          attributes := hd.attributes
          attribute_types := hd.attribute_types
          point := hd.point }
      have hbefore := hd.handlers x hx m hm
      unfold isMethod Dict.contains at hbefore ⊢
      by_cases hname : name = m
      · rw [hname, Dict.get?_insert_self]
        rfl
      · rw [Dict.get?_insert_of_ne _ _ _ _ hname]
        exact hbefore

/-- A declared attribute has a new name and an admissible default. -/
theorem serves_addAttribute {a : AttributeDescriptor} (hd : d.Serves u point)
    (hnew : d.attribute? a.name = none) (htypes : ∀ ts, a.types = some ts → Declarable ts)
    (hdefault : Admissible a.types a.default) :
    Draft.Serves { d with attributes := d.attributes ++ [a] } u point where
  sources s hs := by
    have hbefore := hd.sources s hs
    cases s with
    | attr name =>
      obtain ⟨b, hb, hname⟩ := hbefore
      exact ⟨b, List.mem_append_left _ hb, hname⟩
    | property name => exact hbefore
  markers_nodup := hd.markers_nodup
  mem_markers := hd.mem_markers
  handlers := hd.handlers
  keys := hd.keys
  keys_nodup := hd.keys_nodup
  formats := hd.formats
  placed := hd.placed
  attributes_nodup := by
    rw [List.map_append]
    refine List.nodup_append.2 ⟨hd.attributes_nodup, by simp, fun x hx y hy hxy => ?_⟩
    obtain ⟨b, hb, rfl⟩ := List.mem_map.1 hx
    have hname : b.name = a.name := hxy.trans (List.mem_singleton.1 hy)
    simpa [hname] using List.find?_eq_none.1 hnew b hb
  attributes b hb := by
    rcases List.mem_append.1 hb with hb | hb
    · exact hd.attributes b hb
    · rw [List.mem_singleton.1 hb]
      exact hdefault
  attribute_types b hb := by
    rcases List.mem_append.1 hb with hb | hb
    · exact hd.attribute_types b hb
    · rw [List.mem_singleton.1 hb]
      exact htypes
  point := hd.point

theorem serves_declareAttribute {decl : Markup} (h : declareAttribute d decl = .ok d')
    (hd : d.Serves u point) : d'.Serves u point := by
  unfold declareAttribute at h
  split at h
  · next name _ =>
    split at h
    · cases h
    · split at h
      · cases h
      · next hnew =>
        have hnew : d.attribute? name = none := by simpa using hnew
        simp only [bind, Except.bind, pure, Except.pure] at h
        split at h
        · cases h
        · next types htypes =>
          have hdeclarable := declarable_writtenTypes htypes
          split at h
          · cases h
          · split at h
            · split at h
              · cases h
              · next hcheck =>
                rw [← Except.ok.inj h]
                exact serves_addAttribute hd hnew hdeclarable (admissible_of_checkDefault hcheck)
            · rw [← Except.ok.inj h]
              exact serves_addAttribute hd hnew hdeclarable (admissible_defaultFor hdeclarable)
  · cases h

theorem serves_declareProperty {strict : Bool} {decl : Markup}
    (h : declareProperty strict d decl = .ok d') (hd : d.Serves u point) : d'.Serves u point := by
  unfold declareProperty at h
  split at h
  · next name _ =>
    split at h
    · cases h
    · split at h
      · cases h
      · split at h
        · cases h
        · simp only [bind, Except.bind, pure, Except.pure] at h
          split at h
          · cases h
          · next types htypes =>
            have hdeclarable := declarable_writtenTypes htypes
            split at h
            · cases h
            · next default _ =>
              split at h
              · cases h
              · split at h
                · cases h
                · next binding _ =>
                  split at h
                  · next p hp =>
                    have hname := (property?_some hp).2
                    split at h
                    · next hprim =>
                      obtain rfl := Except.ok.inj h
                      have hput := @puts_setProperty d
                        (overridden p types default binding (decl.attr? "passthrough")) p name hp hname
                      have hkind : (overridden p types default binding
                          (decl.attr? "passthrough")).kind.isPrimitive = true := by
                        unfold overridden
                        dsimp only
                        split
                        · rfl
                        · exact hprim
                      refine hd.putPrimitive ⟨hput.property?, rfl, rfl, rfl, rfl⟩ hkind
                        ⟨fun hfalse => ?_, fun ts hts => ?_⟩ fun q hq => ?_
                      · rw [hkind] at hfalse
                        cases hfalse
                      · unfold overridden at hts
                        dsimp only at hts
                        split at hts
                        · exact hdeclarable ts hts
                        · exact (hd.placed name p hp).types ts hts
                      · rw [show (overridden p types default binding (decl.attr? "passthrough")).name = name
                          from hname, hp] at hq
                        obtain rfl := Option.some.inj hq
                        exact ⟨hprim, id⟩
                    · cases h
                  · next hnone =>
                    obtain rfl := Except.ok.inj h
                    have hput := puts_addProperty (d := d)
                      (p := { PropertyDescriptor.ofTypes name types with
                        default := default.getD (defaultFor types), binding := binding
                        passthrough := decl.attr? "passthrough" }) hnone
                    refine hd.putPrimitive ⟨hput.property?, rfl, rfl, rfl, rfl⟩ rfl
                      ⟨(fun hfalse => by cases hfalse), hdeclarable⟩ fun q hq => ?_
                    have hq : d.property? name = some q := hq
                    rw [hnone] at hq
                    cases hq
  · cases h

theorem serves_declareAll {declare : Draft → Markup → Except Error Draft}
    (hdecl : ∀ d d' m, declare d m = .ok d' → d.Serves u point → d'.Serves u point)
    {ms : List Markup} (h : declareAll declare d ms = .ok d') (hd : d.Serves u point) :
    d'.Serves u point := by
  induction ms generalizing d with
  | nil =>
    rw [← Except.ok.inj h]
    exact hd
  | cons m ms ih =>
    unfold declareAll at h
    split at h
    · cases h
    · next d₁ hd₁ => exact ih h (hdecl d d₁ m hd₁ hd)

/-! ## The view as a whole -/

/-- What a view uses, if there is one. -/
def usesOf (view : Option ViewNode) : Uses := (view.map ViewNode.uses).getD {}

/-- An extension point leads to its place in a view. -/
def PointsInto (view : Option ViewNode) (point : Option (List Nat)) : Prop :=
  ∀ path, point = some path → ∃ v, view = some v ∧ v.at? path = some .extensionPoint

/-- An element gives one node. -/
theorem exists_eq_singleton_of_readNode {r : Reading} {m : Markup} {path : List Nat}
    {nodes : List ViewNode} (hm : m.tag?.isSome = true) (h : readNode r d path m = .ok (nodes, d')) :
    ∃ node, nodes = [node] := by
  cases m with
  | text s => cases hm
  | comment s => cases hm
  | element name attrs apart children =>
    unfold readNode at h
    split at h
    · split at h
      · cases h
      · exact ⟨_, (Prod.mk.inj (Except.ok.inj h)).1.symm⟩
    · split at h
      · cases h
      · split at h
        · cases h
        · split at h
          · exact ⟨_, (Prod.mk.inj (Except.ok.inj h)).1.symm⟩
          · split at h
            · cases h
            · exact ⟨_, (Prod.mk.inj (Except.ok.inj h)).1.symm⟩

/-- The root of a class template is an element. -/
theorem isElement_of_sortParts {className : String} {ms : List Markup} {parts parts' : Parts}
    (h : sortParts className parts ms = .ok parts')
    (hparts : ∀ m, parts.root = some m → m.tag?.isSome = true) :
    ∀ m, parts'.root = some m → m.tag?.isSome = true := by
  induction ms generalizing parts with
  | nil =>
    rw [← Except.ok.inj h]
    exact hparts
  | cons x rest ih =>
    cases x with
    | text s =>
      unfold sortParts at h
      split at h
      · exact ih h hparts
      · cases h
    | comment s => exact ih h hparts
    | element name attrs apart children =>
      unfold sortParts at h
      extract_lets m at h
      split at h
      · exact ih h hparts
      · split at h
        · exact ih h hparts
        · split at h
          · cases h
          · refine ih h fun m' hm' => ?_
            rw [← Option.some.inj hm']
            rfl

theorem serves_readRoot {r : Reading} {root : Option Markup} {view : Option ViewNode}
    (h : readRoot r d root = .ok (view, d')) (hroot : ∀ m, root = some m → m.tag?.isSome = true)
    (hd : d.Serves u none) :
    ∃ point, d'.Serves (u ++ usesOf view) point ∧ PointsInto view point := by
  cases root with
  | none =>
    obtain ⟨rfl, rfl⟩ := Prod.mk.inj (Except.ok.inj h)
    exact ⟨none, by simpa [usesOf] using hd, fun path hpath => by cases hpath⟩
  | some m =>
    unfold readRoot at h
    cases hm : readNode r d [] m with
    | error e =>
      simp only [hm] at h
      cases h
    | ok x =>
      obtain ⟨nodes, d₁⟩ := x
      simp only [hm] at h
      obtain ⟨rfl, rfl⟩ := Prod.mk.inj (Except.ok.inj h)
      obtain ⟨node, rfl⟩ := exists_eq_singleton_of_readNode (hroot m rfl) hm
      obtain ⟨point, hserves, hleads⟩ := serves_readNode m hm hd
      rw [ViewNode.usesAll_singleton] at hserves
      refine ⟨point, hserves, fun path hpath => ?_⟩
      rcases hleads with rfl | ⟨rest, node', heq, hpoint, hat⟩
      · cases hpath
      · obtain rfl := List.singleton_inj.1 heq
        rw [hpoint] at hpath
        obtain rfl := Option.some.inj hpath
        exact ⟨node, rfl, hat⟩

/-- The own view in the place of the parent's extension point. -/
theorem serves_compose {parent : Option Descriptor} {own view : Option ViewNode}
    {ownPoint : Option (List Nat)} {point : Option (List Nat)}
    (hparent : ∀ p, parent = some p → PointsInto p.view p.extensionPoint)
    (h : compose parent own ownPoint = .ok (view, point)) (hown : PointsInto own ownPoint)
    (hd : d.Serves (usesOf (parent.bind (·.view)) ++ usesOf own) ownPoint) :
    d.Serves (usesOf view) ownPoint ∧ PointsInto view point := by
  unfold compose at h
  split at h
  · next hnone =>
    obtain ⟨rfl, rfl⟩ := Prod.mk.inj (Except.ok.inj h)
    rw [hnone] at hd
    exact ⟨by simpa [usesOf] using hd, hown⟩
  · next inherited hinherited =>
    obtain ⟨rfl, rfl⟩ := Prod.mk.inj (Except.ok.inj h)
    rw [hinherited] at hd
    refine ⟨by simpa [usesOf] using hd, ?_⟩
    cases parent with
    | none => cases hinherited
    | some p =>
      rw [← hinherited]
      exact hparent p rfl
  · next inherited own hinherited =>
    split at h
    · cases h
    · next place hplace =>
      split at h
      · cases h
      · next composed hreplace =>
        obtain ⟨rfl, rfl⟩ := Prod.mk.inj (Except.ok.inj h)
        rw [hinherited] at hd
        cases parent with
        | none => cases hinherited
        | some p =>
          obtain ⟨v, hv, hat⟩ := hparent p rfl place hplace
          have heq : v = inherited := Option.some.inj (hv.symm.trans hinherited)
          subst heq
          refine ⟨hd.mono (ViewNode.uses_replaceAt? hat hreplace), fun path hpath => ?_⟩
          obtain ⟨inner, hinner, rfl⟩ := Option.map_eq_some_iff.1 hpath
          obtain ⟨w, hw, hatw⟩ := hown inner hinner
          obtain rfl := Option.some.inj hw
          refine ⟨composed, rfl, ?_⟩
          rw [ViewNode.at?_append, ViewNode.at?_of_replaceAt? _ _ _ _ hreplace]
          exact hatw

/-! ## Settling -/

/-- What settling makes of a property. -/
structure Settles (d : Draft) (p q : PropertyDescriptor) : Prop where
  name : q.name = p.name
  kind : q.kind = p.kind
  hasSite : q.hasSite = p.hasSite
  not_method : d.isMethod q.name = false
  default : q.kind.Admits q.default
  binding : ∀ f, q.binding = some f → q.kind.AcceptsText ∧ ∀ r ∈ f.properties, r ≠ q.name

theorem settleDefault_admits {p q : PropertyDescriptor} (h : settleDefault d p = .ok q)
    (hp : p.Placed) : q.kind.Admits q.default ∧ q.hasSite = p.hasSite := by
  unfold settleDefault at h
  split at h
  · next types hkind =>
    have hdeclarable : ∀ ts, types = some ts → Declarable ts := fun ts hts =>
      hp.types ts (by rw [hkind]; exact hts)
    have hdefault := admissible_defaultFor hdeclarable
    split at h
    · cases h
    · split at h
      · cases hc : checkDefault p.name p.default types with
        | error e => rw [hc] at h; cases h
        | ok u =>
          rw [hc] at h
          obtain rfl := Except.ok.inj h
          rw [hkind]
          exact ⟨admissible_of_checkDefault hc, rfl⟩
      · split at h
        · obtain rfl := Except.ok.inj h
          dsimp only
          rw [hkind]
          exact ⟨hdefault, rfl⟩
        · next hprim =>
          have hprim : p.default.isPrimitive = true := by
            simp only [Bool.or_eq_true, Bool.not_eq_true', not_or] at hprim
            simpa using hprim.2
          split at h
          · next ts =>
            split at h
            · next hacc =>
              obtain rfl := Except.ok.inj h
              rw [hkind]
              refine ⟨⟨hprim, fun ts' hts => ?_⟩, rfl⟩
              rw [← Option.some.inj hts]
              exact hacc
            · obtain rfl := Except.ok.inj h
              dsimp only
              rw [hkind]
              exact ⟨hdefault, rfl⟩
          · obtain rfl := Except.ok.inj h
            rw [hkind]
            exact ⟨⟨hprim, fun ts hts => by cases hts⟩, rfl⟩
  · next element hkind =>
    split at h
    · next hnull =>
      split at h
      · cases h
      · obtain rfl := Except.ok.inj h
        rw [hkind]
        exact ⟨Or.inl hnull, rfl⟩
    · next fields hobject =>
      split at h
      · cases h
      · obtain rfl := Except.ok.inj h
        rw [hkind]
        exact ⟨Or.inr ⟨fields, hobject⟩, rfl⟩
    · cases h
  · next element hkind =>
    extract_lets checked at h
    cases hchecked : checked with
    | error e =>
      rw [hchecked] at h
      cases h
    | ok p' =>
      rw [hchecked] at h
      dsimp only at h
      have hp' : p'.kind = p.kind ∧ p'.hasSite = p.hasSite ∧
          ∃ items, p'.default = .array items ∧ ∀ x ∈ items, ∃ fields, x = .object fields := by
        simp only [checked] at hchecked
        split at hchecked
        · obtain rfl := Except.ok.inj hchecked
          exact ⟨rfl, rfl, [], rfl, fun x hx => by cases hx⟩
        · next items hitems =>
          split at hchecked
          · next hall =>
            obtain rfl := Except.ok.inj hchecked
            refine ⟨rfl, rfl, items, hitems, fun x hx => ?_⟩
            have htest := List.all_eq_true.1 hall x hx
            cases x with
            | object fields => exact ⟨fields, rfl⟩
            | _ => cases htest
          · cases hchecked
        · cases hchecked
      split at h
      · cases h
      · obtain rfl := Except.ok.inj h
        rw [hp'.1, hkind]
        exact ⟨hp'.2.2, hp'.2.1⟩

/-- A checked binding does not read its own property. -/
theorem ne_of_checkReads {ps : List PropertyDescriptor} {name : String} {rs : List String}
    (h : checkReads ps name rs = .ok ()) : ∀ r ∈ rs, r ≠ name := by
  induction rs with
  | nil => exact fun r hr => by cases hr
  | cons dependency rest ih =>
    unfold checkReads at h
    split at h
    · cases h
    · next hne =>
      split at h
      · cases h
      · split at h
        · intro r hr
          rcases List.mem_cons.1 hr with rfl | hr
          · exact hne
          · exact ih h r hr
        · cases h

theorem settles_checkProperty {p q : PropertyDescriptor} (h : checkProperty d p = .ok q)
    (hsound : p.Sound) (hplaced : p.Placed) : Settles d p q := by
  unfold checkProperty at h
  split at h
  · cases h
  · next hmethod =>
    split at h
    · cases h
    · next q' hsettle =>
      split at h
      · cases h
      · next hbinding =>
        obtain rfl := Except.ok.inj h
        obtain ⟨hname, hkind, -, -, hbound⟩ := settleDefault_spec hsettle hsound
        obtain ⟨hadmits, hsite⟩ := settleDefault_admits hsettle hplaced
        refine ⟨hname, hkind, hsite, ?_, hadmits, fun f hf => ?_⟩
        · rw [hname]
          simpa using hmethod
        · unfold checkBinding at hbinding
          split at hbinding
          · next hnone =>
            rw [hnone] at hf
            cases hf
          · next g hg =>
            obtain rfl := Option.some.inj (hg.symm.trans hf)
            extract_lets acceptsText at hbinding
            split at hbinding
            · next haccepts =>
              refine ⟨⟨hbound (by rw [hg]; rfl), fun ts hts => ?_⟩, ne_of_checkReads hbinding⟩
              simp only [acceptsText, hts] at haccepts
              simpa using haccepts
            · cases hbinding

theorem settles_checkEach {ps qs : List PropertyDescriptor} (h : checkEach d ps = .ok qs)
    (hp : ∀ p ∈ ps, p.Sound ∧ p.Placed) : List.Forall₂ (Settles d) ps qs := by
  induction ps generalizing qs with
  | nil =>
    obtain rfl := Except.ok.inj h
    exact .nil
  | cons p ps ih =>
    unfold checkEach at h
    split at h
    · cases h
    · next q hq =>
      split at h
      · cases h
      · next qs' hqs =>
        obtain rfl := Except.ok.inj h
        obtain ⟨hsound, hplaced⟩ := hp p List.mem_cons_self
        exact .cons (settles_checkProperty hq hsound hplaced)
          (ih hqs fun p' hp' => hp p' (List.mem_cons_of_mem _ hp'))

theorem exists_of_mem_settled {ps qs : List PropertyDescriptor} (h : List.Forall₂ (Settles d) ps qs)
    {q : PropertyDescriptor} (hq : q ∈ qs) : ∃ p ∈ ps, Settles d p q := by
  induction h with
  | nil => cases hq
  | cons hpq _ ih =>
    rcases List.mem_cons.1 hq with rfl | hq
    · exact ⟨_, List.mem_cons_self, hpq⟩
    · obtain ⟨p, hp, hpq⟩ := ih hq
      exact ⟨p, List.mem_cons_of_mem _ hp, hpq⟩

theorem exists_settled_of_mem {ps qs : List PropertyDescriptor} (h : List.Forall₂ (Settles d) ps qs)
    {p : PropertyDescriptor} (hp : p ∈ ps) : ∃ q ∈ qs, Settles d p q := by
  induction h with
  | nil => cases hp
  | cons hpq _ ih =>
    rcases List.mem_cons.1 hp with rfl | hp
    · exact ⟨_, List.mem_cons_self, hpq⟩
    · obtain ⟨q, hq, hpq⟩ := ih hp
      exact ⟨q, List.mem_cons_of_mem _ hq, hpq⟩

/-! ## Reading a template -/

/-- The draft of a subclass serves the view of its parent. -/
theorem serves_ofParent {parent : Option Descriptor}
    (h : ∀ p, parent = some p → p.Valid ∧ p.WellFormed ∧ p.Extensible) :
    (Draft.ofParent parent).Serves (usesOf (parent.bind (·.view))) none := by
  cases parent with
  | none =>
    refine ⟨fun s hs => ?_, List.nodup_nil, fun name => ?_, fun x hx => ?_, .nil, List.nodup_nil,
      fun f hf => ?_, fun name p hp => ?_, List.nodup_nil, fun a ha => ?_, fun a ha => ?_, rfl⟩
    · cases hs
    · exact iff_of_false (fun hm => by cases hm) fun ⟨p, hp, _⟩ => by cases hp
    · cases hx
    · cases hf
    · cases hp
    · cases ha
    · cases ha
  | some p =>
    obtain ⟨hvalid, hwf, hext⟩ := h p rfl
    have hsound : (Draft.ofParent (some p)).Sound := ⟨hvalid.nodup, hvalid.sound⟩
    have hfind {q : PropertyDescriptor} (hq : q ∈ p.properties) :
        (Draft.ofParent (some p)).property? q.name = some q := hsound.property?_name hq
    refine ⟨fun s hs => ?_, hwf.markers_nodup, fun name => ?_, hwf.handlers, hwf.keys, hwf.keys_nodup,
      hext.formats, fun name q hq => hext.placed q (property?_some hq).1, hwf.attributes_nodup,
      hwf.attribute_defaults, hext.attribute_types, rfl⟩
    · have hdeclares := hwf.sources s hs
      cases s with
      | attr name => exact hdeclares
      | property name =>
        obtain ⟨q, hq, rfl, hprim⟩ := hdeclares
        exact ⟨q, hfind hq, hprim, hext.sited q hq hs⟩
    · refine (hwf.mem_markers name).trans ⟨?_, ?_⟩
      · rintro ⟨q, hq, rfl, hprim⟩
        exact ⟨q, hfind hq, hprim⟩
      · rintro ⟨q, hq, hprim⟩
        obtain ⟨hmem, hname⟩ := property?_some hq
        exact ⟨q, hmem, hname, hprim⟩

/-- Reading a template that ends with a descriptor, step by step. -/
theorem parse_ok {r : Reading} {definition : Definition} {parent : Option (ClassRef × Descriptor)}
    {x : Descriptor} (h : parse r definition parent = .ok x) :
    ∃ d₁ parts d₂ d₃ own d₄ view point ps,
      (Draft.ofParent (parent.map (·.2))).addMethods definition.methods = .ok d₁ ∧
      sortParts definition.header.name {} definition.template.contentChildren = .ok parts ∧
      declareAll declareAttribute d₁ parts.attributes = .ok d₂ ∧
      declareAll (declareProperty r.strict) d₂ parts.properties = .ok d₃ ∧
      readRoot r d₃ parts.root = .ok (own, d₄) ∧
      compose (parent.map (·.2)) own d₄.extensionPoint = .ok (view, point) ∧
      checkEach d₄ d₄.properties = .ok ps ∧
      x.properties = ps ∧ x.attributes = d₄.attributes ∧ x.methods = d₄.methods ∧ x.view = view ∧
      x.extensionPoint = point ∧ x.exposeKeys = d₄.exposeKeys := by
  unfold parse at h
  simp only [bind, Except.bind, pure, Except.pure] at h
  split at h
  · cases h
  · next d₁ h₁ =>
    split at h
    · cases h
    · next parts h₂ =>
      split at h
      · cases h
      · next d₂ h₃ =>
        split at h
        · cases h
        · next d₃ h₄ =>
          split at h
          · cases h
          · next own h₅ =>
            split at h
            · cases h
            · next composed h₆ =>
              split at h
              · cases h
              · next d₅ h₇ =>
                unfold checkProperties at h₇
                split at h₇
                · cases h₇
                · next ps hps =>
                  obtain rfl := Except.ok.inj h₇
                  obtain rfl := Except.ok.inj h
                  exact ⟨d₁, parts, d₂, d₃, own.1, own.2, composed.1, composed.2, ps, h₁, h₂, h₃, h₄,
                    h₅, h₆, hps, rfl, rfl, rfl, rfl, rfl, rfl⟩

/-- A template read after a parent whose parts agree gives a descriptor whose parts agree. -/
theorem parse_wellFormed {r : Reading} {definition : Definition}
    {parent : Option (ClassRef × Descriptor)} {x : Descriptor}
    (hparent : ∀ p, parent = some p → p.2.Valid ∧ p.2.WellFormed ∧ p.2.Extensible)
    (h : parse r definition parent = .ok x) : x.WellFormed ∧ x.Extensible := by
  have hvalid := parse_valid (fun p hp => (hparent p hp).1) h
  have hparent' : ∀ p, parent.map (·.2) = some p → p.Valid ∧ p.WellFormed ∧ p.Extensible := by
    intro p hp
    obtain ⟨y, hy, rfl⟩ := Option.map_eq_some_iff.1 hp
    exact hparent y hy
  obtain ⟨d₁, parts, d₂, d₃, own, d₄, view, point, ps, h₁, h₂, h₃, h₄, h₅, h₆, h₇, hproperties,
    hattributes, hmethods, hview, hpoint, hkeys⟩ := parse_ok h
  -- the draft before settling: it serves the whole view, and its properties have different names
  have hroot := isElement_of_sortParts h₂ fun m hm => by cases hm
  have hserves₃ := serves_declareAll (fun d d' m => serves_declareProperty) h₄
    (serves_declareAll (fun d d' m => serves_declareAttribute) h₃
      (serves_addMethods h₁ (serves_ofParent hparent')))
  obtain ⟨ownPoint, hserves₄, hown⟩ := serves_readRoot h₅ hroot hserves₃
  obtain rfl := hserves₄.point
  obtain ⟨hserves, hpoints⟩ := serves_compose (fun p hp => (hparent' p hp).2.2.point) h₆ hown hserves₄
  have hsound : d₄.Sound := by
    refine sound_readRoot h₅ (sound_declareAll (fun d d' m => sound_declareProperty) h₄
      (sound_declareAll (fun d d' m => sound_declareAttribute) h₃ ?_))
    exact (Draft.Sound.ofParent fun p hp => (hparent' p hp).1).congr (Draft.properties_addMethods h₁)
  have hsettles := settles_checkEach h₇ fun p hp =>
    ⟨hsound.sound p hp, hserves.placed p.name p (hsound.property?_name hp)⟩
  rw [← hproperties] at hsettles
  have huses : x.uses = usesOf view := by rw [← hview]; rfl
  have hbefore {q : PropertyDescriptor} (hq : q ∈ x.properties) :
      ∃ p, d₄.property? p.name = some p ∧ Settles d₄ p q := by
    obtain ⟨p, hp, hpq⟩ := exists_of_mem_settled hsettles hq
    exact ⟨p, hsound.property?_name hp, hpq⟩
  have hafter {name : String} {p : PropertyDescriptor} (hp : d₄.property? name = some p) :
      ∃ q ∈ x.properties, q.name = name ∧ Settles d₄ p q := by
    obtain ⟨hmem, hname⟩ := property?_some hp
    obtain ⟨q, hq, hpq⟩ := exists_settled_of_mem hsettles hmem
    exact ⟨q, hq, hpq.name.trans hname, hpq⟩
  refine ⟨⟨hvalid.nodup, ?_, ?_, ?_, ?_, ?_, ?_, ?_, ?_, ?_, ?_, ?_⟩, ⟨?_, ?_, ?_, ?_, ?_⟩⟩
  · intro q hq
    obtain ⟨p, -, hpq⟩ := hbefore hq
    rw [hmethods]
    exact hpq.not_method
  · rw [hattributes]
    exact hserves.attributes_nodup
  · intro s hs
    rw [huses] at hs
    have hprovides := hserves.sources s hs
    cases s with
    | attr name =>
      obtain ⟨a, ha, hname⟩ := hprovides
      exact ⟨a, hattributes ▸ ha, hname⟩
    | property name =>
      obtain ⟨p, hp, hprim, -⟩ := hprovides
      obtain ⟨q, hq, hname, hpq⟩ := hafter hp
      exact ⟨q, hq, hname, hpq.kind ▸ hprim⟩
  · rw [huses]
    exact hserves.markers_nodup
  · intro name
    rw [huses, hserves.mem_markers]
    constructor
    · rintro ⟨p, hp, hprim⟩
      obtain ⟨q, hq, hname, hpq⟩ := hafter hp
      exact ⟨q, hq, hname, hpq.kind ▸ hprim⟩
    · rintro ⟨q, hq, rfl, hprim⟩
      obtain ⟨p, hp, hpq⟩ := hbefore hq
      exact ⟨p, hpq.name ▸ hp, hpq.kind ▸ hprim⟩
  · rw [huses, hmethods]
    exact hserves.handlers
  · rw [huses, hkeys]
    exact hserves.keys
  · rw [hkeys]
    exact hserves.keys_nodup
  · intro q hq
    obtain ⟨p, -, hpq⟩ := hbefore hq
    exact hpq.default
  · rw [hattributes]
    exact hserves.attributes
  · intro q hq f hf
    obtain ⟨p, -, hpq⟩ := hbefore hq
    obtain ⟨haccepts, hother⟩ := hpq.binding f hf
    refine ⟨haccepts, fun s hs => ?_⟩
    obtain ⟨name, rfl⟩ := (hvalid.sound q hq).sources f hf s hs
    have hread : name ∈ f.properties := List.mem_filterMap.2 ⟨_, hs, rfl⟩
    have hreads : name ∈ q.reads := by
      unfold PropertyDescriptor.reads
      rw [hf]
      exact hread
    obtain ⟨q', hq', rfl, hprim⟩ := hvalid.reads_primitive q hq name hreads
    exact ⟨q', hq', rfl, hother _ hread, hprim⟩
  · intro q hq
    obtain ⟨p, hp, hpq⟩ := hbefore hq
    obtain ⟨hsite, htypes⟩ := hserves.placed _ p hp
    rw [← hpq.kind] at hsite htypes
    rw [← hpq.hasSite] at hsite
    exact ⟨hsite, htypes⟩
  · intro q hq hs
    rw [huses] at hs
    obtain ⟨p, hp, hpq⟩ := hbefore hq
    obtain ⟨p', hp', -, hsite⟩ := hserves.sources _ hs
    rw [hpq.name] at hp'
    obtain rfl := Option.some.inj (hp.symm.trans hp')
    exact hpq.hasSite.trans hsite
  · rw [hattributes]
    exact hserves.attribute_types
  · rw [huses]
    exact hserves.formats
  · rw [hview, hpoint]
    exact hpoints

end Template

/-! ## The result -/

/-- Read from a class template, the parent, if there is one, being read before it. -/
inductive Descriptor.Parsed : Descriptor → Prop where
  | parse (r : Template.Reading) (definition : Template.Definition)
      (parent : Option (ClassRef × Descriptor)) (hparent : ∀ p, parent = some p → Parsed p.2)
      (d : Descriptor) (h : Template.parse r definition parent = .ok d) : Parsed d

namespace Descriptor

theorem Parsed.spec {d : Descriptor} (hd : d.Parsed) : d.Valid ∧ d.WellFormed ∧ d.Extensible := by
  induction hd with
  | parse r definition parent _ d h ih =>
    exact ⟨Template.parse_valid (fun p hp => (ih p hp).1) h, Template.parse_wellFormed ih h⟩

/-- Along every chain of templates the parts of a descriptor agree with each other. -/
theorem Parsed.wellFormed {d : Descriptor} (hd : d.Parsed) : d.WellFormed :=
  hd.spec.2.1

/-! ## A small chain -/

/-- The template of a card: a title, a tone as an attribute, a slot, and room for more. -/
def cardTemplate : Markup :=
  .element (.html "template") [] false
    [.element (.html "ooml-attribute") [⟨.plain "name", "tone"⟩, ⟨.plain "type", "string"⟩] false [],
      .element (.html "section") [⟨.plain "class", "card \x7b\x7b attributes.tone \x7d\x7d"⟩] false
        [.text "\x7b\x7b string this.title \x7d\x7d", .element (.html "ooml-extension-point") [] false [],
          .text "\x7b Card this.next \x7d"]]

/-- The template of a panel, which extends the card: a bound property, a list of cards, a handler, and
an element that is exposed. -/
def panelTemplate : Markup :=
  .element (.html "template") [] false
    [.element (.html "ooml-property")
        [⟨.plain "name", "shout"⟩, ⟨.plain "binding", "\x7b\x7b this.title \x7d\x7d!"⟩] false [],
      .element (.html "ul") [⟨.plain "ooml-expose", "list"⟩, ⟨.plain "domonclick", "save()"⟩] false
        [.text "\x7b for Card of this.items \x7d\x7b\x7b this.shout \x7d\x7d"]]

/-- Reading the card, and then the panel with the card as its parent. -/
def panel : Except Error Descriptor := do
  let r : Template.Reading := ⟨fun _ => some ⟨⟨0⟩, "Card"⟩, true⟩
  let card ← Template.parse r { header := ⟨"Card", false, none⟩, template := cardTemplate } none
  Template.parse r
    { header := ⟨"Panel", false, some "Card"⟩, template := panelTemplate, methods := [("save", [])] }
    (some (⟨⟨0⟩, "Card"⟩, card))

/-- The panel can be read, and its parts agree. -/
theorem Parsed.wellFormed_panel : ∃ d : Descriptor, d.Parsed ∧ d.WellFormed ∧ d.uses.markers = ["items", "next"] ∧
    d.exposeKeys = ["list"] ∧ d.propertyNames = ["title", "next", "shout", "items"] := by
  have hparts : (panel.toOption.any fun d => d.uses.markers == ["items", "next"] &&
      d.exposeKeys == ["list"] && d.propertyNames == ["title", "next", "shout", "items"]) = true := by
    decide +kernel
  cases hpanel : panel with
  | error e => rw [hpanel] at hparts; cases hparts
  | ok d =>
    rw [hpanel] at hparts
    simp only [Except.toOption, Option.any_some, Bool.and_eq_true, beq_iff_eq] at hparts
    have hparsed : d.Parsed := by
      unfold panel at hpanel
      simp only [bind, Except.bind] at hpanel
      split at hpanel
      · cases hpanel
      · next card hcard =>
        have hcard : card.Parsed := .parse _ _ none (fun p hp => by cases hp) card hcard
        refine .parse _ _ (some (⟨⟨0⟩, "Card"⟩, card)) (fun p hp => ?_) d hpanel
        rw [← Option.some.inj hp]
        exact hcard
    exact ⟨d, hparsed, hparsed.wellFormed, hparts.1.1, hparts.1.2, hparts.2⟩

end Descriptor

end ReactiveView
