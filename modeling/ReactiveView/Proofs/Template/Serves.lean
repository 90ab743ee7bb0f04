import ReactiveView.Proofs.Dict
import ReactiveView.Proofs.Template.Uses
import ReactiveView.Template.Parse
import Mathlib.Data.List.Nodup

/-!
# The draft and the view under construction

Reading a template grows two things side by side: the draft of the class, and the view. A draft
*serves* a view that has been read so far when everything the view uses is there
(`Template.Draft.Serves`): sources are declared attributes or primitive properties, markers are the
places of exactly the element and array properties, handlers call methods, and the exposed keys are the
listed ones.

The module says how the two may grow. A view may use more of what is there (`Serves.add`,
`Serves.addKey`); a primitive property may be put where nothing or a primitive property was
(`Serves.putPrimitive`); an element or array property may be put where nothing or a property without a
place was, and brings its marker (`Serves.putElement`).

The first part is about declared types: those that can be read can be declared, and the default that
follows from them is one of their values (`admissible_defaultFor`).
-/

set_option autoImplicit false

namespace ReactiveView

/-! ## Declared types and defaults -/

/-- A declaration of types that can be read is a list that can be declared. -/
theorem declarable_parseTags {words : List String} {read ts : List PrimitiveType}
    (h : parseTags read words = .ok ts) (hne : read ≠ [] ∨ words ≠ []) (hnd : read.Nodup)
    (hnum : (read.filter PrimitiveType.isNumeric).length ≤ 1) : Declarable ts := by
  induction words generalizing read with
  | nil =>
    rw [← Except.ok.inj h]
    exact ⟨hne.resolve_right fun hw => hw rfl, hnd, hnum⟩
  | cons word words ih =>
    unfold parseTags at h
    split at h
    · cases h
    · next t _ =>
      split at h
      · cases h
      · next hnew =>
        split at h
        · cases h
        · next hfamily =>
          have hmem : t ∉ read := by simpa using hnew
          apply ih h
          · exact Or.inl (by simp)
          · exact List.nodup_append.2 ⟨hnd, List.nodup_singleton t, fun a ha b hb hab =>
              hmem (by rw [← List.mem_singleton.1 hb, ← hab]; exact ha)⟩
          · rw [List.filter_append, List.length_append]
            by_cases ht : t.isNumeric = true
            · -- the family is taken at most once, so nothing in `read` belongs to it
              have hnone : read.filter PrimitiveType.isNumeric = [] := by
                rw [List.filter_eq_nil_iff]
                intro s hs hnumeric
                apply hfamily
                simp only [ht, Bool.true_and, List.any_eq_true]
                exact ⟨s, hs, hnumeric⟩
              simp [hnone, ht]
            · simpa [ht] using hnum

theorem declarable_parseTypes {declaration : String} {ts : List PrimitiveType}
    (h : parseTypes declaration = .ok ts) : Declarable ts := by
  apply declarable_parseTags h
  · right
    simpa using Text.splitAt_ne_nil '|' declaration.toList
  · exact List.nodup_nil
  · exact Nat.zero_le 1

/-- A primitive value of the declared types, if there are any. -/
def Admissible (types : Option (List PrimitiveType)) (v : Value) : Prop :=
  v.isPrimitive = true ∧ ∀ ts, types = some ts → acceptsValue ts v = true

instance (types : Option (List PrimitiveType)) (v : Value) : Decidable (Admissible types v) :=
  decidable_of_iff (v.isPrimitive = true ∧ types.all (acceptsValue · v) = true) <| by
    unfold Admissible
    cases types <;> simp

/-- Zero is a value of every type of the numeric family. -/
theorem PrimitiveType.accepts_zero {t : PrimitiveType} (h : t.isNumeric = true) :
    t.accepts (.number 0.0) = true := by
  have hzero : Binary.ofFloat 0.0 = .finite false 0 (-1074) := rfl
  have hwhole : (Binary.finite false 0 (-1074)).isWhole = true := by
    unfold Binary.isWhole Binary.wholePart?
    dsimp only
    rw [if_neg (by omega), if_pos (Nat.zero_mod _)]
    rfl
  cases t with
  | null | boolean | text => cases h
  | number => rfl
  | float => rfl
  | integer => simp only [PrimitiveType.accepts, hzero, hwhole]
  | natural =>
    simp only [PrimitiveType.accepts, hzero, hwhole, Bool.true_and]
    rfl

/-- The types that can be declared have a default that is one of their values. -/
theorem admissible_defaultFor {types : Option (List PrimitiveType)}
    (h : ∀ ts, types = some ts → Declarable ts) : Admissible types (defaultFor types) := by
  cases types with
  | none => exact ⟨rfl, fun ts hts => by cases hts⟩
  | some ts =>
    have hne := (h ts rfl).1
    unfold defaultFor
    dsimp only
    split
    · next hnull =>
      refine ⟨rfl, fun ts' hts => ?_⟩
      obtain rfl := Option.some.inj hts
      exact List.any_eq_true.2 ⟨.null, by simpa using hnull, rfl⟩
    · next hnull =>
      split
      · next hnum =>
        refine ⟨rfl, fun ts' hts => ?_⟩
        obtain rfl := Option.some.inj hts
        obtain ⟨t, ht, hnumeric⟩ := List.any_eq_true.1 hnum
        exact List.any_eq_true.2 ⟨t, ht, PrimitiveType.accepts_zero hnumeric⟩
      · next hnum =>
        split
        · next hbool =>
          refine ⟨rfl, fun ts' hts => ?_⟩
          obtain rfl := Option.some.inj hts
          exact List.any_eq_true.2 ⟨.boolean, by simpa using hbool, rfl⟩
        · next hbool =>
          split
          · next htext =>
            refine ⟨rfl, fun ts' hts => ?_⟩
            obtain rfl := Option.some.inj hts
            exact List.any_eq_true.2 ⟨.text, by simpa using htext, rfl⟩
          · next htext =>
            -- no type is left that the list could start with
            exfalso
            cases ts with
            | nil => exact hne rfl
            | cons t ts =>
              cases t <;> simp [PrimitiveType.isNumeric] at hnull hnum hbool htext

/-- Only primitive properties are without a place, and declared types are ones that can be. -/
structure PropertyDescriptor.Placed (p : PropertyDescriptor) : Prop where
  hasSite : p.kind.isPrimitive = false → p.hasSite = true
  types : ∀ ts, p.kind.types? = some ts → Declarable ts

/-- A handler that has been read calls methods only. -/
theorem Handler.isMethod_of_stepsOf {isMethod : String → Bool} {body : String}
    {statements : List (List Char)} {steps : List HandlerStep}
    (h : stepsOf isMethod body statements = .ok steps) {m : String} (hm : .call m ∈ steps) :
    isMethod m = true := by
  induction statements generalizing steps with
  | nil =>
    obtain rfl := Except.ok.inj h
    cases hm
  | cons s rest ih =>
    unfold stepsOf at h
    split at h
    · cases h
    · next st hst =>
      split at h
      · cases h
      · next sts hsts =>
        obtain rfl := Except.ok.inj h
        rcases List.mem_cons.1 hm with rfl | hm
        · unfold step at hst
          split at hst
          · cases hst
          · split at hst
            · split at hst
              · next hmethod =>
                cases hst
                exact hmethod
              · cases hst
            · cases hst
        · exact ih hsts hm

theorem Handler.isMethod_of_compile {isMethod : String → Bool} {body : String} {handler : Handler}
    (h : compile isMethod body = .ok handler) {m : String} (hm : .call m ∈ handler.steps) :
    isMethod m = true := by
  unfold compile at h
  extract_lets source at h
  split at h
  · cases h
  · cases h
  · next steps hsteps =>
    obtain rfl := Except.ok.inj h
    exact isMethod_of_stepsOf hsteps hm

namespace Template

/-! ## Putting properties into a draft -/

namespace Draft

/-- One draft differs from another by a property that is put under its name. -/
structure Puts (d : Draft) (p : PropertyDescriptor) (d' : Draft) : Prop where
  property? : ∀ name, d'.property? name = if name = p.name then some p else d.property? name
  attributes : d'.attributes = d.attributes
  methods : d'.methods = d.methods
  exposeKeys : d'.exposeKeys = d.exposeKeys
  extensionPoint : d'.extensionPoint = d.extensionPoint

theorem puts_setProperty {d : Draft} {p q : PropertyDescriptor} {name : String}
    (h : d.property? name = some q) (hname : p.name = name) : d.Puts p (d.setProperty p) := by
  subst hname
  refine ⟨fun name => ?_, rfl, rfl, rfl, rfl⟩
  obtain ⟨properties, attributes, methods, own, declared, keys, point⟩ := d
  simp only [Draft.property?, setProperty] at h ⊢
  induction properties with
  | nil => cases h
  | cons x xs ih =>
    by_cases hx : x.name = p.name
    · by_cases hname : name = p.name
      · simp [hx, hname]
      · -- the rest of the list may hold the name again, where nothing looks any more
        have hrest : (xs.map fun q => if q.name == p.name then p else q).find? (·.name == name) =
            xs.find? (·.name == name) := by
          rw [List.find?_map]
          have hfun : ((fun q : PropertyDescriptor => q.name == name) ∘
              fun q => if q.name == p.name then p else q) = fun q => q.name == name := by
            funext q
            by_cases hq : q.name = p.name
            · simp [hq]
            · simp [hq]
          rw [hfun]
          cases hfind : xs.find? fun q => q.name == name with
          | none => rfl
          | some q =>
            have hq : q.name = name := by simpa using List.find?_some hfind
            simp [hq, hname]
        simp only [List.map_cons, hx, BEq.rfl, if_true, List.find?_cons]
        rw [if_neg hname, hrest]
        have hne : (p.name == name) = false := by simpa using Ne.symm hname
        rw [hne]
    · rw [List.find?_cons_of_neg (by simpa using hx)] at h
      have hrest := ih h
      by_cases hname : x.name = name
      · have hne : name ≠ p.name := fun he => hx (hname.trans he)
        simp [hname, hne]
      · simp only [List.map_cons, List.find?_cons]
        rw [if_neg (by simpa using hx)]
        have hne : (x.name == name) = false := by simpa using hname
        rw [hne]
        exact hrest

theorem puts_addProperty {d : Draft} {p : PropertyDescriptor} (h : d.property? p.name = none) :
    d.Puts p (d.addProperty p) := by
  refine ⟨fun name => ?_, rfl, rfl, rfl, rfl⟩
  unfold Draft.property? addProperty at *
  dsimp only
  rw [List.find?_append]
  by_cases hname : name = p.name
  · simp [hname, h]
  · have hne : (p.name == name) = false := by simpa using Ne.symm hname
    simp [hname, hne]

/-! ## Serving a view -/

/-- The source of a text: a declared attribute, or a primitive property that has its place. -/
def Provides (d : Draft) : Source → Prop
  | .attr name => ∃ a ∈ d.attributes, a.name = name
  | .property name => ∃ p, d.property? name = some p ∧ p.kind.isPrimitive = true ∧ p.hasSite = true

/-- A draft that holds all that a view uses, and an extension point. -/
structure Serves (d : Draft) (u : Uses) (point : Option (List Nat)) : Prop where
  sources : ∀ s ∈ u.sources, d.Provides s
  markers_nodup : u.markers.Nodup
  mem_markers : ∀ name, name ∈ u.markers ↔
    ∃ p, d.property? name = some p ∧ p.kind.isPrimitive = false
  handlers : ∀ h ∈ u.handlers, ∀ m, .call m ∈ h.steps → d.isMethod m = true
  keys : u.keys.Perm d.exposeKeys
  keys_nodup : d.exposeKeys.Nodup
  formats : ∀ f ∈ u.formats, f.Laid
  placed : ∀ name p, d.property? name = some p → p.Placed
  attributes_nodup : (d.attributes.map (·.name)).Nodup
  attributes : ∀ a ∈ d.attributes, Admissible a.types a.default
  attribute_types : ∀ a ∈ d.attributes, ∀ ts, a.types = some ts → Declarable ts
  point : d.extensionPoint = point

namespace Serves

variable {d d' : Draft} {u v : Uses} {point : Option (List Nat)}

/-- A draft serves every view that uses no more. -/
theorem mono (h : d.Serves u point) (huv : u.Covers v) : d.Serves v point where
  sources s hs := h.sources s (huv.sources hs)
  markers_nodup := huv.markers.nodup_iff.2 h.markers_nodup
  mem_markers name := huv.markers.mem_iff.trans (h.mem_markers name)
  handlers x hx := h.handlers x (huv.handlers hx)
  keys := huv.keys.trans h.keys
  keys_nodup := h.keys_nodup
  formats f hf := h.formats f (huv.formats hf)
  placed := h.placed
  attributes_nodup := h.attributes_nodup
  attributes := h.attributes
  attribute_types := h.attribute_types
  point := h.point

/-- Something is added that brings neither markers nor keys and uses only what is there. -/
theorem add (h : d.Serves u point) (hsources : ∀ s ∈ v.sources, d.Provides s)
    (hformats : ∀ f ∈ v.formats, f.Laid)
    (hhandlers : ∀ x ∈ v.handlers, ∀ m, .call m ∈ x.steps → d.isMethod m = true)
    (hmarkers : v.markers = []) (hkeys : v.keys = []) : d.Serves (u ++ v) point where
  sources s hs := ((Uses.mem_sources_append u v).1 hs).elim (h.sources s) (hsources s)
  markers_nodup := by
    rw [Uses.markers_append, hmarkers, List.append_nil]
    exact h.markers_nodup
  mem_markers name := by
    rw [Uses.markers_append, hmarkers, List.append_nil]
    exact h.mem_markers name
  handlers x hx := (List.mem_append.1 hx).elim (h.handlers x) (hhandlers x)
  keys := by
    rw [Uses.keys_append, hkeys, List.append_nil]
    exact h.keys
  keys_nodup := h.keys_nodup
  formats f hf := (List.mem_append.1 hf).elim (h.formats f) (hformats f)
  placed := h.placed
  attributes_nodup := h.attributes_nodup
  attributes := h.attributes
  attribute_types := h.attribute_types
  point := h.point

/-- A text is added whose source is there. -/
theorem addText (h : d.Serves u point) {s : Source} (hs : d.Provides s) :
    d.Serves (u ++ { texts := [s] }) point := by
  apply h.add
  · intro t ht
    have heq : t = s := by simpa [Uses.mem_sources] using ht
    rw [heq]
    exact hs
  · intro f hf
    cases hf
  · intro x hx
    cases hx
  · rfl
  · rfl

/-- A format is added whose sources are there. -/
theorem addFormat (h : d.Serves u point) {f : Format} (hf : f.Laid)
    (hs : ∀ s ∈ f.sources, d.Provides s) : d.Serves (u ++ { formats := [f] }) point := by
  apply h.add
  · intro t ht
    exact hs t (by simpa [Uses.mem_sources] using ht)
  · intro g hg
    rw [List.mem_singleton.1 hg]
    exact hf
  · intro x hx
    cases hx
  · rfl
  · rfl

/-- The last format is changed, and uses what it used before or what is there. -/
theorem changeFormat {f g : Format} (h : d.Serves (u ++ { formats := [f] }) point)
    (hg : f.Laid → g.Laid) (hs : ∀ s ∈ g.sources, d.Provides s ∨ s ∈ f.sources) :
    d.Serves (u ++ { formats := [g] }) point := by
  have hmem : f ∈ (u ++ ({ formats := [f] } : Uses)).formats := by simp
  have hbefore : d.Serves u point := h.mono
    { texts := List.subset_append_left _ _
      formats := List.subset_append_left _ _
      markers := by simp
      handlers := List.subset_append_left _ _
      keys := by simp }
  refine hbefore.addFormat (hg (h.formats f hmem)) fun s hsg => (hs s hsg).elim id fun hsf => ?_
  exact h.sources s ((Uses.mem_sources _).2 (Or.inr ⟨f, hmem, hsf⟩))

/-- A handler is added that calls methods only. -/
theorem addHandler (h : d.Serves u point) {handler : Handler}
    (hm : ∀ m, .call m ∈ handler.steps → d.isMethod m = true) :
    d.Serves (u ++ { handlers := [handler] }) point := by
  apply h.add
  · intro t ht
    simp [Uses.mem_sources] at ht
  · intro g hg
    cases hg
  · intro x hx
    rw [List.mem_singleton.1 hx]
    exact hm
  · rfl
  · rfl

/-- A key is exposed that was not listed. -/
theorem addKey (h : d.Serves u point) {key : String} (hk : key ∉ d.exposeKeys) :
    Draft.Serves { d with exposeKeys := d.exposeKeys ++ [key] } (u ++ { keys := [key] }) point where
  sources t ht := h.sources t (by simpa [Uses.mem_sources] using ht)
  markers_nodup := by simpa using h.markers_nodup
  mem_markers name := by
    rw [Uses.markers_append, List.append_nil]
    exact h.mem_markers name
  handlers x hx := h.handlers x (by simpa using hx)
  keys := h.keys.append_right [key]
  keys_nodup := by
    apply List.nodup_append.2
    refine ⟨h.keys_nodup, by simp, fun a ha b hb hab => hk ?_⟩
    rw [← List.mem_singleton.1 hb, ← hab]
    exact ha
  formats f hf := h.formats f (by simpa using hf)
  placed := h.placed
  attributes_nodup := h.attributes_nodup
  attributes := h.attributes
  attribute_types := h.attribute_types
  point := h.point

/-- The extension point of a draft is where it was found. -/
theorem withPoint (h : d.Serves u point) (path : List Nat) :
    Draft.Serves { d with extensionPoint := some path } u (some path) where
  sources := h.sources
  markers_nodup := h.markers_nodup
  mem_markers := h.mem_markers
  handlers := h.handlers
  keys := h.keys
  keys_nodup := h.keys_nodup
  formats := h.formats
  placed := h.placed
  attributes_nodup := h.attributes_nodup
  attributes := h.attributes
  attribute_types := h.attribute_types
  point := rfl

/-- A primitive property is put where nothing or a primitive property was; a place is not lost. -/
theorem putPrimitive (h : d.Serves u point) {p : PropertyDescriptor} (hput : d.Puts p d')
    (hprim : p.kind.isPrimitive = true) (hplaced : p.Placed)
    (hold : ∀ q, d.property? p.name = some q →
      q.kind.isPrimitive = true ∧ (q.hasSite = true → p.hasSite = true)) : d'.Serves u point where
  sources s hs := by
    have hbefore := h.sources s hs
    cases s with
    | attr name => simpa only [Provides, hput.attributes] using hbefore
    | property name =>
      obtain ⟨q, hq, hqprim, hqsite⟩ := hbefore
      simp only [Provides, hput.property?]
      split
      · next hname =>
        rw [hname] at hq
        exact ⟨p, rfl, hprim, (hold q hq).2 hqsite⟩
      · exact ⟨q, hq, hqprim, hqsite⟩
  markers_nodup := h.markers_nodup
  mem_markers name := by
    rw [h.mem_markers, hput.property?]
    split
    · next hname =>
      constructor
      · rintro ⟨q, hq, hqprim⟩
        rw [hname] at hq
        rw [(hold q hq).1] at hqprim
        cases hqprim
      · rintro ⟨q, hq, hqprim⟩
        rw [← Option.some.inj hq, hprim] at hqprim
        cases hqprim
    · exact Iff.rfl
  handlers x hx m hm := by
    unfold isMethod
    rw [hput.methods]
    exact h.handlers x hx m hm
  keys := by rw [hput.exposeKeys]; exact h.keys
  keys_nodup := by rw [hput.exposeKeys]; exact h.keys_nodup
  formats := h.formats
  placed name q hq := by
    rw [hput.property?] at hq
    split at hq
    · rw [← Option.some.inj hq]
      exact hplaced
    · exact h.placed name q hq
  attributes_nodup := by rw [hput.attributes]; exact h.attributes_nodup
  attributes := by rw [hput.attributes]; exact h.attributes
  attribute_types := by rw [hput.attributes]; exact h.attribute_types
  point := hput.extensionPoint.trans h.point

/-- An element or array property is put where nothing or a property without a place was, and has its
place at a new marker. -/
theorem putElement (h : d.Serves u point) {p : PropertyDescriptor} (hput : d.Puts p d')
    (hprim : p.kind.isPrimitive = false) (hsite : p.hasSite = true)
    (hold : ∀ q, d.property? p.name = some q → q.hasSite = false) :
    d'.Serves (u ++ { markers := [p.name] }) point where
  sources s hs := by
    have hbefore := h.sources s (by simpa [Uses.mem_sources] using hs)
    cases s with
    | attr name => simpa only [Provides, hput.attributes] using hbefore
    | property name =>
      obtain ⟨q, hq, hqprim, hqsite⟩ := hbefore
      simp only [Provides, hput.property?]
      split
      · next hname =>
        rw [hname] at hq
        rw [hold q hq] at hqsite
        cases hqsite
      · exact ⟨q, hq, hqprim, hqsite⟩
  markers_nodup := by
    apply List.nodup_append.2
    refine ⟨h.markers_nodup, by simp, fun a ha b hb hab => ?_⟩
    -- a marker that is there already is the place of a property with a place
    obtain ⟨q, hq, hqprim⟩ := (h.mem_markers a).1 ha
    rw [hab, List.mem_singleton.1 hb] at hq
    have hqsite := (h.placed _ q hq).hasSite hqprim
    rw [hold q hq] at hqsite
    cases hqsite
  mem_markers name := by
    rw [Uses.markers_append, List.mem_append, h.mem_markers, hput.property?]
    simp only [List.mem_singleton]
    split
    · next hname => exact iff_of_true (Or.inr hname) ⟨p, rfl, hprim⟩
    · next hname => exact or_iff_left hname
  handlers x hx m hm := by
    unfold isMethod
    rw [hput.methods]
    exact h.handlers x (by simpa using hx) m hm
  keys := by rw [hput.exposeKeys]; simpa using h.keys
  keys_nodup := by rw [hput.exposeKeys]; exact h.keys_nodup
  formats f hf := h.formats f (by simpa using hf)
  placed name q hq := by
    rw [hput.property?] at hq
    split at hq
    · rw [← Option.some.inj hq]
      refine ⟨fun _ => hsite, fun ts hts => ?_⟩
      cases hkind : p.kind with
      | primitive types => rw [hkind] at hprim; cases hprim
      | slot element => rw [hkind] at hts; cases hts
      | sequence element => rw [hkind] at hts; cases hts
    · exact h.placed name q hq
  attributes_nodup := by rw [hput.attributes]; exact h.attributes_nodup
  attributes := by rw [hput.attributes]; exact h.attributes
  attribute_types := by rw [hput.attributes]; exact h.attribute_types
  point := hput.extensionPoint.trans h.point

end Serves

end Draft

end Template

end ReactiveView
