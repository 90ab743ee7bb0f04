import ReactiveView.Proofs.Template.Chain
import ReactiveView.Proofs.Template.Points
import ReactiveView.Proofs.Template.Refusals

/-!
# Views along a chain of templates

The descriptors of a class and its ancestors, each read with the next one as its parent, form a lineage
(`Descriptor.Lineage`). Along every lineage the recorded extension point is the one extension point of the
view (`Descriptor.Pointed`). Therefore the own root of a class always finds the place of the parent's
extension point, and the view of a class is the nearest view among those of its ancestors with the own root
in that place and with every other node where it was (`Template.Composed`).

Reading falls into two parts: everything is declared and the own root is read (`Template.ownView`), and then
the views are put together and the properties are settled (`Template.parse_eq`).
-/

set_option autoImplicit false

namespace ReactiveView

namespace Template

variable {r : Reading}

/-! ## The own root of a class -/

/-- The root element among the children of the template of a class: the first one that is an element and no
declaration. -/
def rootElement? (ms : List Markup) : Option Markup :=
  ms.find? fun m => m.tag?.any fun tag => tag != propertyTag && tag != attributeTag

theorem root_of_sortParts {className : String} {ms : List Markup} {parts parts' : Parts}
    (h : sortParts className parts ms = .ok parts') : parts'.root = parts.root.or (rootElement? ms) := by
  induction ms generalizing parts with
  | nil =>
    rw [← Except.ok.inj h]
    simp [rootElement?]
  | cons m rest ih =>
    cases m with
    | text s =>
      unfold sortParts at h
      split at h
      · exact ih h
      · cases h
    | comment s => exact ih h
    | element name attrs apart children =>
      unfold sortParts at h
      extract_lets m at h
      split at h
      · next htag => rw [ih h]; simp [rootElement?, Markup.tag?, htag]
      · split at h
        · next htag => rw [ih h]; simp [rootElement?, Markup.tag?, htag]
        · next hproperty hattribute =>
          split at h
          · cases h
          · next hnone =>
            rw [ih h, hnone]
            simp [rootElement?, Markup.tag?, hproperty, hattribute, m]

/-- The draft of a class with all that is declared, and the root element of its template. -/
def declared (r : Reading) (definition : Definition) (inherited : Option Descriptor) :
    Except Error (Draft × Option Markup) := do
  let draft ← (Draft.ofParent inherited).addMethods definition.methods
  let parts ← sortParts definition.header.name {} definition.template.contentChildren
  let draft ← declareAll declareAttribute draft parts.attributes
  let draft ← declareAll (declareProperty r.strict) draft parts.properties
  return (draft, parts.root)

/-- The view of the own root of a class, and the draft after it has been read. -/
def ownView (r : Reading) (definition : Definition) (inherited : Option Descriptor) :
    Except Error (Option ViewNode × Draft) := do
  let (draft, root) ← declared r definition inherited
  readRoot r draft root

/-- A template is read by reading the own root, putting the views together, and settling the properties. -/
theorem parse_eq (definition : Definition) (parent : Option (ClassRef × Descriptor)) :
    parse r definition parent = (do
      let (own, draft) ← ownView r definition (parent.map (·.2))
      let (view, extensionPoint) ← compose (parent.map (·.2)) own draft.extensionPoint
      let draft ← checkProperties draft
      return {
        name := definition.header.name
        isAbstract := definition.header.isAbstract
        parent := parent.map (·.1)
        constructor := definition.constructor
        properties := draft.properties
        attributes := draft.attributes
        methods := draft.methods
        view := view
        extensionPoint := extensionPoint
        exposeKeys := draft.exposeKeys }) := by
  unfold parse ownView declared
  simp only [bind_assoc, pure_bind]

/-- What reading the own root has gone through. -/
theorem ownView_ok {definition : Definition} {inherited : Option Descriptor} {own : Option ViewNode}
    {d : Draft} (h : ownView r definition inherited = .ok (own, d)) :
    ∃ d₁ parts d₂ d₃,
      (Draft.ofParent inherited).addMethods definition.methods = .ok d₁ ∧
      sortParts definition.header.name {} definition.template.contentChildren = .ok parts ∧
      declareAll declareAttribute d₁ parts.attributes = .ok d₂ ∧
      declareAll (declareProperty r.strict) d₂ parts.properties = .ok d₃ ∧
      readRoot r d₃ parts.root = .ok (own, d) := by
  unfold ownView declared at h
  simp only [bind, Except.bind, pure, Except.pure] at h
  split at h
  · cases h
  · next x hx =>
    split at hx
    · cases hx
    · next d₁ h₁ =>
      split at hx
      · cases hx
      · next parts h₂ =>
        split at hx
        · cases hx
        · next d₂ h₃ =>
          split at hx
          · cases hx
          · next d₃ h₄ =>
            obtain rfl := Except.ok.inj hx
            exact ⟨d₁, parts, d₂, d₃, h₁, h₂, h₃, h₄, h⟩

theorem blames_ownView (definition : Definition) (inherited : Option Descriptor) :
    Blames r.Lost (ownView r definition inherited) := by
  refine Blames.bind ?_ fun x _ => blames_readRoot x.2
  refine (blames_addMethods definition.methods).bind fun d _ => ?_
  refine (blames_sortParts _ _ _).bind fun parts _ => ?_
  refine (blames_declareAll (fun d m => blames_declareAttribute m) _).bind fun d _ => ?_
  exact (blames_declareAll (fun d m => blames_declareProperty r.strict m) _).bind fun d _ => blames_ok _

/-! ## Views and their extension points -/

/-- The recorded extension point is the one extension point of a view, and there is none without a record. -/
def Marks (view : Option ViewNode) (point : Option (List Nat)) : Prop :=
  ∀ path, point = some path ↔ ∃ v, view = some v ∧ v.at? path = some .extensionPoint

/-- An element that has been read from a draft without an extension point has the one that is recorded
then. -/
theorem marks_readRoot {d d' : Draft} {root : Option Markup} {own : Option ViewNode}
    (h : readRoot r d root = .ok (own, d')) (hroot : ∀ m, root = some m → m.tag?.isSome = true)
    (hd : d.extensionPoint = none) : Marks own d'.extensionPoint ∧ own.isSome = root.isSome := by
  cases root with
  | none =>
    obtain ⟨rfl, rfl⟩ := Prod.mk.inj (Except.ok.inj h)
    refine ⟨fun path => ?_, rfl⟩
    simp [hd]
  | some m =>
    unfold readRoot at h
    cases hm : readNode r d [] m with
    | error e =>
      simp only [hm] at h
      cases h
    | ok x =>
      obtain ⟨nodes, d₁⟩ := x
      simp only [hm] at h
      obtain ⟨rfl, rfl⟩ := Prod.mk.inj (Except.ok.inj h)
      obtain ⟨node, rfl⟩ := exists_eq_singleton_of_readNode (hroot m rfl) hm
      have hrecorded : d₁.extensionPoint.toList = node.points := by
        rcases points_readNode m hm with ⟨hkept, hnone⟩ | ⟨node', heq, hpoints⟩
        · rw [hkept, hd, hnone node List.mem_cons_self]
          rfl
        · obtain rfl := List.singleton_inj.1 heq
          rw [hpoints, hd]
          simp
      refine ⟨fun path => ?_, rfl⟩
      rw [← Option.mem_toList, hrecorded, ViewNode.mem_points]
      simp

/-- How the view of a class arises from the nearest view among its ancestors and the own root: the own root
stands where the extension point of that view was, the only one there, and all other nodes stay. -/
def Composed : Option ViewNode → Option ViewNode → Option ViewNode → Prop
  | none, own, view => view = own
  | some inherited, none, view => view = some inherited
  | some inherited, some own, view => ∃ place w,
      (∀ q, inherited.at? q = some .extensionPoint ↔ q = place) ∧ view = some w ∧
        ViewNode.Graft own place inherited w

/-- Putting the own view into that of a parent whose extension point is known. -/
theorem compose_spec {inherited : Option Descriptor} {own view : Option ViewNode}
    {ownPoint point : Option (List Nat)}
    (hparent : ∀ p, inherited = some p → Marks p.view p.extensionPoint) (hown : Marks own ownPoint)
    (h : compose inherited own ownPoint = .ok (view, point)) :
    Composed (inherited.bind (·.view)) own view ∧ Marks view point := by
  unfold compose at h
  split at h
  · next hnone =>
    obtain ⟨rfl, rfl⟩ := Prod.mk.inj (Except.ok.inj h)
    rw [hnone]
    exact ⟨rfl, hown⟩
  · next v hview =>
    obtain ⟨rfl, rfl⟩ := Prod.mk.inj (Except.ok.inj h)
    rw [hview]
    refine ⟨rfl, ?_⟩
    cases inherited with
    | none => cases hview
    | some p =>
      rw [← hview]
      exact hparent p rfl
  · next v own hview =>
    split at h
    · cases h
    · next place hplace =>
      split at h
      · cases h
      · next w hw =>
        obtain ⟨rfl, rfl⟩ := Prod.mk.inj (Except.ok.inj h)
        cases inherited with
        | none => cases hview
        | some p =>
          have hview : p.view = some v := hview
          have hplace : p.extensionPoint = some place := hplace
          have honly (q : List Nat) : v.at? q = some .extensionPoint ↔ q = place := by
            have hq := hparent p rfl q
            rw [hplace, hview] at hq
            refine ⟨fun hat => ?_, fun heq => ?_⟩
            · exact (Option.some.inj (hq.2 ⟨v, rfl, hat⟩)).symm
            · obtain ⟨v', hv', hat⟩ := hq.1 (congrArg some heq.symm)
              exact Option.some.inj hv' ▸ hat
          have hgraft := ViewNode.graft_replaceAt? hw
          refine ⟨?_, fun path => ?_⟩
          · change Composed p.view (some own) (some w)
            rw [hview]
            exact ⟨place, w, honly, rfl, hgraft⟩
          · simp only [Option.map_eq_some_iff, Option.some.injEq, exists_eq_left',
              hgraft.at?_eq_extensionPoint_iff fun q hq => (honly q).1 hq, hown _]
            constructor
            · rintro ⟨q, hat, rfl⟩
              exact ⟨q, rfl, hat⟩
            · rintro ⟨q, rfl, hat⟩
              exact ⟨q, hat, rfl⟩

/-- The recorded path of a parent resolves, and putting the views together only fails where there is no
extension point. -/
theorem reports_compose {inherited : Option Descriptor} (own : Option ViewNode)
    (ownPoint : Option (List Nat)) (hparent : ∀ p, inherited = some p → Marks p.view p.extensionPoint) :
    Reports (compose inherited own ownPoint) := by
  unfold compose
  split
  · exact reports_ok _
  · exact reports_ok _
  · next v own hview =>
    split
    · exact reports_error nofun
    · next place hplace =>
      cases inherited with
      | none => cases hview
      | some p =>
        obtain ⟨v', hv', hat⟩ := (hparent p rfl place).1 hplace
        obtain rfl := Option.some.inj (hv'.symm.trans hview)
        obtain ⟨w, hw⟩ := ViewNode.exists_replaceAt? own hat
        rw [hw]
        exact reports_ok _

end Template

/-! ## Lineages -/

namespace Descriptor

/-- The extension point of a descriptor is the one extension point of its view. -/
abbrev Pointed (d : Descriptor) : Prop := Template.Marks d.view d.extensionPoint

/-- Descriptors of a class and its ancestors, the nearest first: each has been read with the one behind it
as its parent. -/
inductive Lineage : List Descriptor → Prop where
  | nil : Lineage []
  | read (r : Template.Reading) (definition : Template.Definition) (parentRef : ClassRef)
      {line : List Descriptor} {d : Descriptor} (hline : Lineage line)
      (h : Template.parse r definition (line.head?.map fun p => (parentRef, p)) = .ok d) :
      Lineage (d :: line)

variable {line : List Descriptor}

theorem Lineage.parsed (hline : Lineage line) : ∀ d ∈ line, d.Parsed := by
  induction hline with
  | nil => exact fun d hd => absurd hd List.not_mem_nil
  | @read r definition parentRef line d hline h ih =>
    intro x hx
    rcases List.mem_cons.1 hx with rfl | hx
    · refine .parse r definition _ (fun p hp => ?_) x h
      obtain ⟨p, hhead, rfl⟩ := Option.map_eq_some_iff.1 hp
      exact ih p (List.mem_of_mem_head? hhead)
    · exact ih x hx

end Descriptor

namespace Template

open Descriptor (Lineage)

variable {r : Reading} {definition : Definition} {line : List Descriptor}

/-- Nothing of the own view has been recorded when it begins to be read. -/
theorem marks_ownView (hline : Lineage line) {own : Option ViewNode} {d : Draft}
    (h : ownView r definition line.head? = .ok (own, d)) :
    Marks own d.extensionPoint ∧
      own.isSome = (rootElement? definition.template.contentChildren).isSome := by
  obtain ⟨d₁, parts, d₂, d₃, h₁, h₂, h₃, h₄, h₅⟩ := ownView_ok h
  have hparent : ∀ p, line.head? = some p → p.Valid ∧ p.WellFormed ∧ p.Extensible := fun p hp =>
    (hline.parsed p (List.mem_of_mem_head? hp)).spec
  have hserves := serves_declareAll (fun d d' m => serves_declareProperty) h₄
    (serves_declareAll (fun d d' m => serves_declareAttribute) h₃
      (serves_addMethods h₁ (serves_ofParent hparent)))
  have hroot := isElement_of_sortParts h₂ fun m hm => by cases hm
  have hparts : parts.root = rootElement? definition.template.contentChildren := root_of_sortParts h₂
  rw [← hparts]
  exact marks_readRoot h₅ hroot hserves.point

/-- Without a name the parent of a class is the first of its line. -/
theorem map_snd_parent (line : List Descriptor) (parentRef : ClassRef) :
    (line.head?.map fun p => (parentRef, p)).map (·.2) = line.head? := by
  cases line <;> rfl

/-- Reading a template after a line of ancestors: how the view arises from that of the parent. -/
theorem parse_spec (hline : Lineage line) (hpointed : ∀ d ∈ line, d.Pointed) {parentRef : ClassRef}
    {d : Descriptor} (h : parse r definition (line.head?.map fun p => (parentRef, p)) = .ok d) :
    d.Pointed ∧ ∃ own draft, ownView r definition line.head? = .ok (own, draft) ∧
      own.isSome = (rootElement? definition.template.contentChildren).isSome ∧
      Composed (line.head?.bind (·.view)) own d.view := by
  rw [parse_eq, map_snd_parent] at h
  simp only [bind, Except.bind, pure, Except.pure] at h
  split at h
  · cases h
  · next x hx =>
    obtain ⟨own, draft⟩ := x
    dsimp only at h
    split at h
    · cases h
    · next composed hcomposed =>
      obtain ⟨view, point⟩ := composed
      dsimp only at h
      split at h
      · cases h
      · next settled _ =>
        obtain rfl := Except.ok.inj h
        obtain ⟨hown, hroot⟩ := marks_ownView hline hx
        obtain ⟨hview, hpoint⟩ := compose_spec
          (fun p hp => hpointed p (List.mem_of_mem_head? hp)) hown hcomposed
        exact ⟨hpoint, own, draft, hx, hroot, hview⟩

end Template

namespace Descriptor

variable {line : List Descriptor}

/-- Along a lineage all extension points are known. -/
theorem Lineage.pointed (hline : Lineage line) : ∀ d ∈ line, d.Pointed := by
  induction hline with
  | nil => exact fun d hd => absurd hd List.not_mem_nil
  | read r definition parentRef hline h ih =>
    intro x hx
    rcases List.mem_cons.1 hx with rfl | hx
    · exact (Template.parse_spec hline ih h).1
    · exact ih x hx

/-- The nearest view among the members of a line is that of the first: a view is handed down. -/
theorem Lineage.nearest (hline : Lineage line) :
    line.findSome? (·.view) = line.head?.bind (·.view) := by
  induction hline with
  | nil => rfl
  | @read r definition parentRef line d hline h ih =>
    cases hview : d.view with
    | some v => simp [hview]
    | none =>
      obtain ⟨-, own, draft, -, -, hcomposed⟩ := Template.parse_spec hline hline.pointed h
      rw [hview] at hcomposed
      -- whoever has an ancestor with a view has a view
      have hnone : line.head?.bind (·.view) = none := by
        cases hinherited : line.head?.bind (·.view) with
        | none => rfl
        | some v =>
          rw [hinherited] at hcomposed
          cases own with
          | none => cases hcomposed
          | some own =>
            obtain ⟨place, w, -, hw, -⟩ := hcomposed
            cases hw
      simp [hview, ih, hnone]

/-- After a lineage of ancestors a template fails to be read on account of what it says only. -/
theorem Lineage.reports_parse (hline : Lineage line) (r : Template.Reading)
    (definition : Template.Definition) (parentRef : ClassRef) :
    Template.Reports (Template.parse r definition (line.head?.map fun p => (parentRef, p))) := by
  rw [Template.parse_eq, Template.map_snd_parent]
  refine (Template.blames_ownView definition line.head?).reports.bind fun x hx => ?_
  obtain ⟨own, draft⟩ := x
  refine (Template.reports_compose own draft.extensionPoint fun p hp =>
    hline.pointed p (List.mem_of_mem_head? hp)).bind fun composed _ => ?_
  have hcheck : Template.Blames (fun _ => False) (Template.checkProperties draft) := Template.blames_checkProperties
  exact hcheck.reports.bind fun draft _ => Template.reports_ok _

/-- A template that is read after a lineage of ancestors never finds that the extension point of its parent
leads nowhere. If it is read, then the recorded extension point of the class leads to the one extension
point of its view, and there is none without a record; and the view is the nearest view among the
ancestors with the own root, if there is one, in the place of its one extension point, and all other nodes
in their places. -/
theorem Lineage.composition (hline : Lineage line) (r : Template.Reading)
    (definition : Template.Definition) (parentRef : ClassRef) :
    Template.parse r definition (line.head?.map fun p => (parentRef, p)) ≠ .error .extensionPointLost ∧
    ∀ d, Template.parse r definition (line.head?.map fun p => (parentRef, p)) = .ok d →
      (∀ path, d.extensionPoint = some path ↔
        ∃ v, d.view = some v ∧ v.at? path = some .extensionPoint) ∧
      ∃ own draft, Template.ownView r definition line.head? = .ok (own, draft) ∧
        own.isSome = (Template.rootElement? definition.template.contentChildren).isSome ∧
        Template.Composed (line.findSome? (·.view)) own d.view := by
  refine ⟨fun h => hline.reports_parse r definition parentRef _ h rfl, fun d h => ?_⟩
  rw [hline.nearest]
  exact Template.parse_spec hline hline.pointed h

/-- The template of a tray, which extends the card and has room for more behind a label. -/
def trayTemplate : Markup :=
  .element (.html "template") [] false
    [.comment "a tray", .element (.html "div") [] false
      [.text "on \x7b\x7b this.title \x7d\x7d", .element (.html "ooml-extension-point") [] false []]]

/-- The setting in which the tray is read: every class name stands for the card. -/
def trayReading : Template.Reading := ⟨fun _ => some ⟨⟨0⟩, "Card"⟩, true⟩

/-- The card and the tray that extends it. -/
def cardAndTray : Except Error (Descriptor × Descriptor) := do
  let card ← Template.parse trayReading { header := ⟨"Card", false, none⟩, template := cardTemplate } none
  let tray ← Template.parse trayReading { header := ⟨"Tray", false, some "Card"⟩, template := trayTemplate }
    (some (⟨⟨0⟩, "Card"⟩, card))
  return (card, tray)

/-- The tray can be read after the card. Its only extension point is the one in its own root, which stands
where that of the card was. -/
theorem Lineage.composition_tray : ∃ card tray : Descriptor, Lineage [card] ∧
    cardAndTray = .ok (card, tray) ∧ (∀ q, (∃ v, tray.view = some v ∧ v.at? q = some .extensionPoint) ↔
      q = [1, 2]) ∧ ∃ own, Template.Composed card.view (some own) tray.view := by
  have hpoint : (cardAndTray.toOption.any fun x => x.2.extensionPoint == some [1, 2]) = true := by
    decide +kernel
  cases hread : cardAndTray with
  | error e => rw [hread] at hpoint; cases hpoint
  | ok x =>
    obtain ⟨card, tray⟩ := x
    rw [hread] at hpoint
    have hrecorded : tray.extensionPoint = some [1, 2] := by
      simpa [Except.toOption] using hpoint
    unfold cardAndTray at hread
    simp only [bind, Except.bind, pure, Except.pure] at hread
    split at hread
    · cases hread
    · next card' hcard =>
      split at hread
      · cases hread
      · next tray' htray =>
        obtain ⟨rfl, rfl⟩ := Prod.mk.inj (Except.ok.inj hread)
        have hline : Lineage [card'] := .read trayReading _ ⟨⟨0⟩, "Card"⟩ .nil hcard
        obtain ⟨-, hcomposes⟩ := hline.composition trayReading
          { header := ⟨"Tray", false, some "Card"⟩, template := trayTemplate } ⟨⟨0⟩, "Card"⟩
        obtain ⟨hmarks, own, draft, -, hroot, hcomposed⟩ := hcomposes tray' htray
        obtain ⟨own, rfl⟩ := Option.isSome_iff_exists.1 (hroot.trans (by rfl))
        refine ⟨card', tray', hline, rfl, fun q => ?_, own, ?_⟩
        · rw [← hmarks q, hrecorded, Option.some.injEq, eq_comm]
        · simpa using hcomposed

end Descriptor

end ReactiveView
