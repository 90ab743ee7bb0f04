import ReactiveView.Proofs.Template.Exchanges

/-!
# The order of substitutions

Two templates without a parent that differ only in the order of what their views ask for (`Definition.Reorders`) are
both read or both refused, and every property is the same afterwards, its declared types taken as a set
(`parse_alike_of_reorders`).

The declarations are taken before the view, so both views are read from one draft, in which everything declared is
known (`grounded_of_declared`). From it the views meet their demands, in different orders, and leave akin drafts, which
settle alike.
-/

set_option autoImplicit false

namespace ReactiveView

/-- Two descriptors have the same properties, their declared types taken as sets. -/
def Descriptor.Alike (d e : Descriptor) : Prop :=
  ∀ name, Option.Rel PropertyDescriptor.Alike (d.property? name) (e.property? name)

namespace Template

variable {r : Reading} {d d' : Draft}

/-! ## Declared drafts -/

theorem Draft.Grounded.congr (hd : d.Grounded) (h : ∀ name, d.Agrees name d') : d'.Grounded := by
  intro name hname
  rw [(h name).property?] at hname
  exact ⟨mt (h name).ownDeclarations.1 (hd name hname).1, mt (h name).ownDefaults.1 (hd name hname).2⟩

/-- A declaration makes the property known that it is about. -/
theorem grounded_declareProperty {strict : Bool} {decl : Markup} (hd : d.Grounded)
    (h : declareProperty strict d decl = .ok d') : d'.Grounded := by
  obtain ⟨x, other, p, -, hdeclares⟩ := declares_of_declareProperty h
  intro name hname
  have hne : name ≠ other := by
    rintro rfl
    rw [hdeclares.puts.property?, if_pos hdeclares.property_name.symm] at hname
    cases hname
  have hagrees := hdeclares.agrees hne
  rw [hagrees.property?] at hname
  exact ⟨mt hagrees.ownDeclarations.1 (hd name hname).1, mt hagrees.ownDefaults.1 (hd name hname).2⟩

theorem grounded_declareProperties {strict : Bool} {ms : List Markup} (hd : d.Grounded)
    (h : declareAll (declareProperty strict) d ms = .ok d') : d'.Grounded := by
  induction ms generalizing d with
  | nil =>
    obtain rfl := Except.ok.inj h
    exact hd
  | cons m ms ih =>
    unfold declareAll at h
    split at h
    · cases h
    · next hfirst => exact ih (grounded_declareProperty hd hfirst) h

/-- The draft of a class without a parent, once everything is declared. -/
theorem grounded_of_declared {definition : Definition} {root : Option Markup}
    (h : declared r definition none = .ok (d, root)) : d.Grounded ∧ d.Sound := by
  unfold declared at h
  simp only [bind, Except.bind, pure, Except.pure] at h
  split at h
  · cases h
  · next d₁ h₁ =>
    split at h
    · cases h
    · split at h
      · cases h
      · next d₂ h₂ =>
        split at h
        · cases h
        · next d₃ h₃ =>
          obtain ⟨rfl, -⟩ := Prod.mk.inj (Except.ok.inj h)
          have hnone : (Draft.ofParent none).Grounded := fun _ _ => ⟨List.not_mem_nil, List.not_mem_nil⟩
          have hsound : d₁.Sound :=
            (Draft.Sound.ofParent fun _ h => by cases h).congr (Draft.properties_addMethods h₁)
          refine ⟨grounded_declareProperties ?_ h₃, ?_⟩
          · exact (hnone.congr fun name => agrees_addMethods h₁).congr fun name => agrees_declareAttributes h₂
          · exact sound_declareAll (fun _ _ _ => sound_declareProperty) h₃
              (sound_declareAll (fun _ _ _ => sound_declareAttribute) h₂ hsound)

/-! ## Templates -/

/-- A child of a template that can be its root. -/
def isRoot (m : Markup) : Bool := m.tag?.any fun tag => tag != propertyTag && tag != attributeTag

/-- Two definitions differ in the views that they write, and the views ask for the same, in whatever order: the same
text, attribute and element substitutions are in them, and the same of all else that concerns the class. -/
structure Definition.Reorders (x y : Definition) : Prop where
  header : y.header = x.header
  methods : y.methods = x.methods
  template : ∃ before v w after, x.template.contentChildren = before ++ v :: after ∧
    y.template.contentChildren = before ++ w :: after ∧ isRoot v = true ∧ isRoot w = true ∧
    (demands v).Perm (demands w)

theorem demandsAll_perm {ms ns : List Markup} (h : ms.Perm ns) : (demandsAll ms).Perm (demandsAll ns) := by
  induction h with
  | nil => exact .nil
  | cons m _ ih => exact ih.append_left (demands m)
  | swap m n ms =>
    simp only [demandsAll, ← List.append_assoc]
    exact List.perm_append_comm.append_right (demandsAll ms)
  | trans _ _ ih ih' => exact ih.trans ih'

/-- An element asks for the same when its attributes and its children stand in another order. -/
theorem demands_perm (name : QName) (apart : Bool) {attrs attrs' : List Attr} {ms ns : List Markup}
    (hattrs : attrs.Perm attrs') (hchildren : ms.Perm ns) :
    (demands (.element name attrs apart ms)).Perm (demands (.element name attrs' apart ns)) := by
  have hnames : (lowerNames attrs).Nodup ↔ (lowerNames attrs').Nodup := (hattrs.map _).nodup_iff
  rw [demands, demands]
  split
  · exact .refl _
  · split
    · exact .refl _
    · refine .append ?_ ?_
      · unfold attrsDemands
        rw [if_congr hnames rfl rfl]
        exact (hattrs.flatMap_right _).append_right _
      · split
        · exact .refl _
        · exact demandsAll_perm hchildren

/-! ## Sorting the children of a template -/

theorem sortParts_append (className : String) (parts : Parts) (ms ns : List Markup) :
    sortParts className parts (ms ++ ns) =
      sortParts className parts ms >>= fun parts => sortParts className parts ns := by
  induction ms generalizing parts with
  | nil => rfl
  | cons m ms ih =>
    cases m with
    | text s =>
      simp only [List.cons_append, sortParts]
      split
      · exact ih parts
      · rfl
    | comment s => exact ih parts
    | element name attrs apart children =>
      simp only [List.cons_append, sortParts]
      split
      · exact ih _
      · split
        · exact ih _
        · split
          · rfl
          · exact ih _

/-- Which root has been found changes nothing in what follows it. -/
theorem sortParts_withRoot (className : String) (parts : Parts) (v w : Markup) (ms : List Markup) :
    sortParts className { parts with root := some w } ms =
      (sortParts className { parts with root := some v } ms).map fun parts => { parts with root := some w } := by
  induction ms generalizing parts with
  | nil => rfl
  | cons m ms ih =>
    cases m with
    | text s =>
      unfold sortParts
      split
      · exact ih parts
      · rfl
    | comment s => exact ih parts
    | element name attrs apart children =>
      simp only [sortParts]
      split
      · exact ih { parts with properties := parts.properties ++ [.element name attrs apart children] }
      · split
        · exact ih { parts with attributes := parts.attributes ++ [.element name attrs apart children] }
        · rfl

theorem sortParts_of_isRoot {m : Markup} (h : isRoot m = true) (className : String) (parts : Parts)
    (ms : List Markup) :
    sortParts className parts (m :: ms) =
      if parts.root.isSome then .error (.secondRoot className)
      else sortParts className { parts with root := some m } ms := by
  cases m with
  | text s => cases h
  | comment s => cases h
  | element name attrs apart children =>
    have htag : name.tag ≠ propertyTag ∧ name.tag ≠ attributeTag := by
      simpa [isRoot, Markup.tag?] using h
    rw [sortParts, if_neg htag.1, if_neg htag.2]
    cases parts.root <;> rfl

/-- Another root in the place of one changes nothing else of how the children are sorted. -/
theorem sortParts_exchange {v w : Markup} (hv : isRoot v = true) (hw : isRoot w = true) (className : String)
    (parts : Parts) (before after : List Markup) :
    sortParts className parts (before ++ w :: after) =
      (sortParts className parts (before ++ v :: after)).map fun parts => { parts with root := some w } := by
  rw [sortParts_append, sortParts_append]
  cases sortParts className parts before with
  | error e => rfl
  | ok sorted =>
    change sortParts className sorted (w :: after) = (sortParts className sorted (v :: after)).map _
    rw [sortParts_of_isRoot hv, sortParts_of_isRoot hw]
    split
    · rfl
    · exact sortParts_withRoot className sorted v w after

/-- What is declared is the same in both templates, and each has its own root. -/
theorem declared_of_reorders {x y : Definition} (h : x.Reorders y) :
    ∃ v w, isRoot v = true ∧ isRoot w = true ∧ (demands v).Perm (demands w) ∧
      declared r y none = (declared r x none).map (fun z => (z.1, some w)) ∧
      declared r x none = (declared r x none).map (fun z => (z.1, some v)) := by
  obtain ⟨before, v, w, after, hx, hy, hv, hw, hperm⟩ := h.template
  have hexchange {z : Definition} {u : Markup} (hheader : z.header = x.header) (hmethods : z.methods = x.methods)
      (hz : z.template.contentChildren = before ++ u :: after) (hu : isRoot u = true) :
      declared r z none = (declared r x none).map fun z => (z.1, some u) := by
    unfold declared
    rw [hheader, hmethods, hz, hx, sortParts_exchange hv hu]
    cases (Draft.ofParent none).addMethods x.methods with
    | error e => rfl
    | ok d =>
      cases sortParts x.header.name {} (before ++ v :: after) with
      | error e => rfl
      | ok parts =>
        simp only [bind, Except.bind, pure, Except.pure, Except.map]
        cases declareAll declareAttribute d parts.attributes with
        | error e => rfl
        | ok d =>
          dsimp only
          cases declareAll (declareProperty r.strict) d parts.properties <;> rfl
  exact ⟨v, w, hv, hw, hperm, hexchange h.header h.methods hy hw, hexchange rfl rfl hx hv⟩

/-! ## Reading -/

theorem Draft.Akin.of_blind {e : Draft} (h : d.blind.Akin e.blind) : d.Akin e where
  property? := h.property?
  attributes := h.attributes
  methods := h.methods
  ownDefaults := h.ownDefaults
  ownDeclarations := h.ownDeclarations
  exposeKeys := h.exposeKeys
  extensionPoint := by
    have hpoint := h.extensionPoint
    unfold blind at hpoint
    rwa [Option.isSome_map, Option.isSome_map] at hpoint

/-- Two roots that ask for the same are both read or both refused, and leave akin drafts. -/
theorem readRoot_akin (hd : d.Grounded) (hsound : d.Sound) {v w : Markup} (h : (demands v).Perm (demands w)) :
    Option.Rel (fun y z => y.2.Akin z.2 ∧ y.2.Sound ∧ z.2.Sound) (readRoot r d (some v)).toOption
      (readRoot r d (some w)).toOption := by
  have hmeets : Option.Rel Draft.Akin (outcome (readNode r d [] v)) (outcome (readNode r d [] w)) := by
    rw [outcome_readNode, outcome_readNode]
    exact meets_perm (d := d.blind) hd h
  unfold readRoot
  dsimp only
  cases hv : readNode r d [] v with
  | error _ =>
    cases hw : readNode r d [] w with
    | error _ => exact .none
    | ok _ =>
      rw [hv, hw] at hmeets
      cases hmeets
  | ok y =>
    cases hw : readNode r d [] w with
    | error _ =>
      rw [hv, hw] at hmeets
      cases hmeets
    | ok z =>
      rw [hv, hw] at hmeets
      cases hmeets with
      | some hakin => exact .some ⟨hakin.of_blind, sound_readNode v hv hsound, sound_readNode w hw hsound⟩

/-- The properties of a class without a parent. -/
theorem properties_parse (r : Reading) (definition : Definition) :
    (parse r definition none).toOption.map (·.properties) = (declared r definition none).toOption.bind fun x =>
      (readRoot r x.1 x.2).toOption.bind fun y => (checkProperties y.2).toOption.map (·.properties) := by
  rw [parse_eq]
  unfold ownView
  simp only [Option.map_none]
  cases declared r definition none with
  | error e => rfl
  | ok x =>
    simp only [bind, Except.bind, Except.toOption, Option.bind_some]
    cases readRoot r x.1 x.2 with
    | error e => rfl
    | ok y =>
      dsimp only [compose_without_parent]
      rw [Option.bind_some]
      cases checkProperties y.2 <;> rfl

theorem properties_parse_alike (r : Reading) {x y : Definition} (h : x.Reorders y) :
    Option.Rel (fun ps qs => ∀ name, Option.Rel PropertyDescriptor.Alike (ps.find? fun p => p.name == name)
        (qs.find? fun q => q.name == name))
      ((parse r x none).toOption.map (·.properties)) ((parse r y none).toOption.map (·.properties)) := by
  obtain ⟨v, w, hv, hw, hperm, hy, hx⟩ := declared_of_reorders (r := r) h
  rw [properties_parse, properties_parse, hy]
  cases hdeclared : declared r x none with
  | error e => exact .none
  | ok z =>
    -- both views are read from one draft
    obtain ⟨d, root⟩ := z
    rw [hdeclared] at hx
    obtain rfl : root = some v := (Prod.mk.inj (Except.ok.inj hx)).2
    obtain ⟨hgrounded, hsound⟩ := grounded_of_declared hdeclared
    change Option.Rel _ ((readRoot r d (some v)).toOption.bind _) ((readRoot r d (some w)).toOption.bind _)
    refine rel_bind (readRoot_akin hgrounded hsound hperm) fun y z _ ⟨hakin, hy, hz⟩ => ?_
    exact rel_map (checkProperties_akin hakin hy hz) fun _ _ _ halike => halike

/-- Two templates without a parent that differ only in the order of their substitutions are both read or both
refused, and when they are read, every property has the same kind, declared types, default, binding and
passthrough. -/
theorem parse_alike_of_reorders (r : Reading) {x y : Definition} (h : x.Reorders y) :
    ((∃ d, parse r x none = .ok d) ↔ ∃ e, parse r y none = .ok e) ∧
      ∀ d e, parse r x none = .ok d → parse r y none = .ok e → d.Alike e := by
  have hproperties := properties_parse_alike r h
  cases hx : parse r x none with
  | error _ =>
    cases hy : parse r y none with
    | error _ => exact ⟨iff_of_false nofun nofun, nofun⟩
    | ok e =>
      rw [hx, hy] at hproperties
      cases hproperties
  | ok d =>
    cases hy : parse r y none with
    | error _ =>
      rw [hx, hy] at hproperties
      cases hproperties
    | ok e =>
      rw [hx, hy] at hproperties
      refine ⟨iff_of_true ⟨d, rfl⟩ ⟨e, rfl⟩, ?_⟩
      rintro _ _ ⟨⟩ ⟨⟩
      cases hproperties with
      | some halike => exact halike

/-! ## A note in two orders -/

/-- A note: a declared tone, and a view with substitutions in the value of an attribute, in a text, and in a text of a
child. -/
def noteDefinition (value text inner : String) : Definition where
  header := ⟨"Note", false, none⟩
  template := .element (.html "template") [] false
    [.element (.html "ooml-attribute") [⟨.plain "name", "tone"⟩, ⟨.plain "type", "string"⟩] false [],
      .element (.html "section") [⟨.plain "class", value⟩] false
        [.text text, .element (.html "p") [] false [.text inner]]]

/-- The note with the tone as its class; its body is shown once without a type, and then with one. -/
def noteTonedFirst : Definition :=
  noteDefinition "note \x7b\x7b attributes.tone \x7d\x7d" "\x7b Card this.next \x7d\x7b\x7b this.body \x7d\x7d"
    "\x7b\x7b string this.body \x7d\x7d"

/-- The same substitutions, with those of the body in front. -/
def noteBodyFirst : Definition :=
  noteDefinition "note \x7b\x7b string this.body \x7d\x7d"
    "\x7b\x7b this.body \x7d\x7d\x7b\x7b attributes.tone \x7d\x7d" "\x7b Card this.next \x7d"

/-- A setting with one class. -/
def noteReading : Reading := ⟨fun _ => some ⟨⟨0⟩, "Card"⟩, true⟩

theorem noteTonedFirst_reorders : noteTonedFirst.Reorders noteBodyFirst where
  header := rfl
  methods := rfl
  template := ⟨[_], _, _, [], rfl, rfl, by decide, by decide, by decide +kernel⟩

/-- Both notes are read. The properties stand in another order, and are the same. -/
theorem parse_alike_of_reorders_note :
    ∃ d e, parse noteReading noteTonedFirst none = .ok d ∧ parse noteReading noteBodyFirst none = .ok e ∧
      d.Alike e ∧ d.propertyNames = ["next", "body"] ∧ e.propertyNames = ["body", "next"] := by
  have hnames : ((parse noteReading noteTonedFirst none).toOption.any fun d =>
        d.propertyNames == ["next", "body"]) = true ∧
      ((parse noteReading noteBodyFirst none).toOption.any fun e => e.propertyNames == ["body", "next"]) = true := by
    decide +kernel
  have hread := parse_alike_of_reorders noteReading noteTonedFirst_reorders
  cases hx : parse noteReading noteTonedFirst none with
  | error _ =>
    rw [hx] at hnames
    cases hnames.1
  | ok d =>
    obtain ⟨e, hy⟩ := hread.1.1 ⟨d, hx⟩
    rw [hx, hy] at hnames
    exact ⟨d, e, rfl, hy, hread.2 d e hx hy, eq_of_beq hnames.1, eq_of_beq hnames.2⟩

end Template

end ReactiveView
