import ReactiveView.Template.Parse
import Mathlib.Data.List.Nodup

/-!
# What a descriptor that has been read satisfies

Reading a class template ends with a descriptor whose properties have different names, whose bound
properties hold primitive values and read only declared primitive properties, and whose defaults are
plain data (`Descriptor.Valid`, `parse_valid`). The descriptor of the parent is valid to begin with;
every declaration and every substitution of the walk keeps a weaker condition on the draft
(`Draft.Sound`), from which settling the properties makes the full one.
-/

set_option autoImplicit false

namespace ReactiveView

/-! ## Plain data -/

/-- A value in which no instance and no collection occurs. -/
structure Value.Plain (v : Value) : Prop where
  instances : v.instances = []
  collections : v.collections = []

namespace Value

mutual

theorem instances_ofJson : ∀ j : Json, (ofJson j).instances = []
  | .null | .bool _ | .number _ | .text _ => by simp [ofJson, instances]
  | .array items => by simpa [ofJson, instances] using instancesOfItems_ofJson items
  | .object members => by simpa [ofJson, instances] using instancesOfFields_ofJson members

theorem instancesOfItems_ofJson : ∀ js : List Json, instancesOfItems (ofJsonItems js) = []
  | [] => rfl
  | j :: js => by simp [ofJsonItems, instancesOfItems, instances_ofJson j, instancesOfItems_ofJson js]

theorem instancesOfFields_ofJson :
    ∀ ms : List (String × Json), instancesOfFields (ofJsonMembers ms) = []
  | [] => rfl
  | (k, j) :: ms => by
    simp [ofJsonMembers, instancesOfFields, instances_ofJson j, instancesOfFields_ofJson ms]

end

mutual

theorem collections_ofJson : ∀ j : Json, (ofJson j).collections = []
  | .null | .bool _ | .number _ | .text _ => by simp [ofJson, collections]
  | .array items => by simpa [ofJson, collections] using collectionsOfItems_ofJson items
  | .object members => by simpa [ofJson, collections] using collectionsOfFields_ofJson members

theorem collectionsOfItems_ofJson : ∀ js : List Json, collectionsOfItems (ofJsonItems js) = []
  | [] => rfl
  | j :: js => by
    simp [ofJsonItems, collectionsOfItems, collections_ofJson j, collectionsOfItems_ofJson js]

theorem collectionsOfFields_ofJson :
    ∀ ms : List (String × Json), collectionsOfFields (ofJsonMembers ms) = []
  | [] => rfl
  | (k, j) :: ms => by
    simp [ofJsonMembers, collectionsOfFields, collections_ofJson j, collectionsOfFields_ofJson ms]

end

/-- What data stands for is plain. -/
theorem plain_ofJson (j : Json) : (ofJson j).Plain :=
  ⟨instances_ofJson j, collections_ofJson j⟩

/-- Primitive values are plain. -/
theorem plain_of_isPrimitive {v : Value} (h : v.isPrimitive = true) : v.Plain := by
  cases v <;> first | exact ⟨rfl, rfl⟩ | cases h

end Value

/-- A default of its types is primitive. -/
theorem isPrimitive_defaultFor (types : Option (List PrimitiveType)) :
    (defaultFor types).isPrimitive = true := by
  unfold defaultFor
  split
  · rfl
  · (repeat' split) <;> rfl

/-! ## Valid descriptors -/

/-- A binding reads properties only, and a default is plain data. -/
structure PropertyDescriptor.Sound (p : PropertyDescriptor) : Prop where
  sources : ∀ f, p.binding = some f → ∀ s ∈ f.sources, ∃ name, s = .property name
  default : p.default.Plain

/-- What reading a class template establishes of its properties. -/
structure Descriptor.Valid (d : Descriptor) : Prop where
  nodup : d.propertyNames.Nodup
  sound : ∀ p ∈ d.properties, p.Sound
  bound_primitive : ∀ p ∈ d.properties, p.binding.isSome = true → p.kind.isPrimitive = true
  reads_primitive : ∀ p ∈ d.properties, ∀ r ∈ p.reads,
    ∃ q ∈ d.properties, q.name = r ∧ q.kind.isPrimitive = true

namespace Template

/-- The properties of a draft have different names and are sound. -/
structure Draft.Sound (d : Draft) : Prop where
  nodup : (d.properties.map (·.name)).Nodup
  sound : ∀ p ∈ d.properties, p.Sound

namespace Draft

theorem property?_some {d : Draft} {name : String} {p : PropertyDescriptor}
    (h : d.property? name = some p) : p ∈ d.properties ∧ p.name = name :=
  ⟨List.mem_of_find?_eq_some h, by simpa using List.find?_some h⟩

theorem Sound.ofParent {parent : Option Descriptor} (h : ∀ d, parent = some d → d.Valid) :
    (Draft.ofParent parent).Sound := by
  cases parent with
  | none => exact ⟨List.nodup_nil, fun p hp => by cases hp⟩
  | some d => exact ⟨(h d rfl).nodup, (h d rfl).sound⟩

/-- Putting a sound property in the place of another keeps a draft sound. -/
theorem Sound.setProperty {d : Draft} (h : d.Sound) {p : PropertyDescriptor} (hp : p.Sound) :
    (d.setProperty p).Sound := by
  refine ⟨?_, fun q hq => ?_⟩
  · have hnames : (d.setProperty p).properties.map (·.name) = d.properties.map (·.name) := by
      unfold Draft.setProperty
      rw [List.map_map]
      refine List.map_congr_left fun q _ => ?_
      by_cases hq : q.name = p.name <;> simp [hq]
    rw [hnames]
    exact h.nodup
  · obtain ⟨q', hq', rfl⟩ := List.mem_map.1 hq
    split
    · exact hp
    · exact h.sound q' hq'

/-- Adding a sound property of a new name keeps a draft sound. -/
theorem Sound.addProperty {d : Draft} (h : d.Sound) {p : PropertyDescriptor} (hp : p.Sound)
    (hnew : d.property? p.name = none) : (d.addProperty p).Sound := by
  refine ⟨?_, fun q hq => ?_⟩
  · unfold Draft.addProperty
    rw [List.map_append, List.map_singleton]
    refine List.nodup_append.2 ⟨h.nodup, List.nodup_singleton _, fun a ha b hb hab => ?_⟩
    obtain ⟨q, hq, rfl⟩ := List.mem_map.1 ha
    rw [List.mem_singleton.1 hb] at hab
    have := List.find?_eq_none.1 hnew q hq
    simp [hab] at this
  · rcases List.mem_append.1 hq with hq | hq
    · exact h.sound q hq
    · rw [List.mem_singleton.1 hq]
      exact hp

/-- Only the properties of a draft matter. -/
theorem Sound.congr {d d' : Draft} (h : d.Sound) (hp : d'.properties = d.properties) :
    d'.Sound := by
  refine ⟨?_, ?_⟩
  · rw [hp]; exact h.nodup
  · rw [hp]; exact h.sound

theorem properties_addMethods {d d' : Draft} {methods : List (String × Host.Script)}
    (h : d.addMethods methods = .ok d') : d'.properties = d.properties := by
  induction methods generalizing d with
  | nil =>
    unfold addMethods at h
    rw [Except.ok.inj h]
  | cons m rest ih =>
    unfold addMethods at h
    split at h
    · cases h
    · rw [ih h]

end Draft

/-! ## Declarations -/

/-- Adding a hole adds its source and no other. -/
theorem mem_sources_addHole {f : Format} {source s : Source}
    (h : s ∈ (f.addHole source).sources) : s = source ∨ s ∈ f.sources := by
  have key (d : Dict Source (List Nat)) (a : List Nat) (hs : s ∈ (d.insert source a).keys) :
      s = source ∨ s ∈ d.keys := by
    induction d with
    | nil => exact Or.inl (by simpa [Dict.insert, Dict.keys] using hs)
    | cons e rest ih =>
      unfold Dict.insert at hs
      simp only [Dict.keys] at hs ih ⊢
      split at hs
      · simp only [List.map_cons, List.mem_cons] at hs ⊢
        tauto
      · split at hs
        · simpa using hs
        · simp only [List.map_cons, List.mem_cons] at hs ⊢
          tauto
  exact key f.slots _ h

/-- A binding reads properties only. -/
theorem sources_bindingOfPieces {name : String} {pieces : List Piece} {f g : Format}
    (h : bindingOfPieces name f pieces = .ok g)
    (hf : ∀ s ∈ f.sources, ∃ p, s = .property p) : ∀ s ∈ g.sources, ∃ p, s = .property p := by
  induction pieces generalizing f with
  | nil =>
    unfold bindingOfPieces at h
    rw [← Except.ok.inj h]
    exact hf
  | cons piece rest ih =>
    cases piece with
    | plain s =>
      refine ih h ?_
      unfold Format.addText
      split
      · exact hf
      · exact hf
    | ofText code =>
      unfold bindingOfPieces at h
      split at h
      · cases h
      · next p _ =>
        refine ih h fun s hs => ?_
        rcases mem_sources_addHole hs with rfl | hs
        · exact ⟨p, rfl⟩
        · exact hf s hs
      · cases h
    | ofElement code => exact ih h hf
    | fault e => cases h

theorem sources_writtenBinding {name : String} {decl : Markup} {f : Format}
    (h : writtenBinding name decl = .ok (some f)) : ∀ s ∈ f.sources, ∃ p, s = .property p := by
  unfold writtenBinding at h
  split at h
  · cases h
  · next source _ =>
    unfold parseBinding at h
    split at h
    · cases h
    · next g hg =>
      split at h
      · cases h
      · simp only [Except.map, Except.ok.injEq, Option.some.injEq] at h
        subst h
        exact sources_bindingOfPieces hg fun s hs => by cases hs

theorem plain_writtenDefault {decl : Markup} {v : Value}
    (h : writtenDefault decl = .ok (some v)) : v.Plain := by
  unfold writtenDefault at h
  extract_lets text at h
  split at h
  · cases h
  · split at h
    · simp only [Except.ok.injEq, Option.some.injEq] at h
      rw [← h]
      exact Value.plain_ofJson _
    · cases h

theorem sound_declareAttribute {d d' : Draft} {decl : Markup}
    (h : declareAttribute d decl = .ok d') (hd : d.Sound) : d'.Sound := by
  refine hd.congr ?_
  unfold declareAttribute at h
  simp only [bind, Except.bind, pure, Except.pure] at h
  (repeat' split at h) <;> first | cases h; done | (cases h; rfl)

theorem sound_overridden {p : PropertyDescriptor} (hp : p.Sound)
    (types : Option (List PrimitiveType)) {default : Option Value} {binding : Option Format}
    (passthrough : Option String) (hd : ∀ v, default = some v → v.Plain)
    (hb : ∀ f, binding = some f → ∀ s ∈ f.sources, ∃ n, s = .property n) :
    (overridden p types default binding passthrough).Sound := by
  refine ⟨fun f hf => ?_, ?_⟩
  · cases binding with
    | none => exact hp.sources f hf
    | some g => exact hb f hf
  · cases default with
    | none => exact hp.default
    | some v => exact hd v rfl

theorem sound_declareProperty {strict : Bool} {d d' : Draft} {decl : Markup}
    (h : declareProperty strict d decl = .ok d') (hd : d.Sound) : d'.Sound := by
  unfold declareProperty at h
  split at h
  · next name _ =>
    split at h
    · cases h
    · split at h
      · cases h
      · split at h
        · cases h
        · simp only [bind, Except.bind, pure, Except.pure] at h
          split at h
          · cases h
          · next types _ =>
            split at h
            · cases h
            · next default hdef =>
              split at h
              · cases h
              · split at h
                · cases h
                · next binding hbind =>
                  have hplain (v : Value) (hv : default = some v) : v.Plain := by
                    rw [hv] at hdef
                    exact plain_writtenDefault hdef
                  have hsources (f : Format) (hf : binding = some f) :
                      ∀ s ∈ f.sources, ∃ n, s = .property n := by
                    rw [hf] at hbind
                    exact sources_writtenBinding hbind
                  split at h
                  · next p hp =>
                    split at h
                    · rw [← Except.ok.inj h]
                      refine Draft.Sound.congr (hd.setProperty ?_) rfl
                      exact sound_overridden (hd.sound p (Draft.property?_some hp).1) _ _ hplain
                        hsources
                    · cases h
                  · next hnone =>
                    rw [← Except.ok.inj h]
                    refine Draft.Sound.congr (hd.addProperty ⟨hsources, ?_⟩ hnone) rfl
                    cases default with
                    | none => exact Value.plain_of_isPrimitive (isPrimitive_defaultFor types)
                    | some v => exact hplain v rfl
  · cases h

theorem sound_declareAll {declare : Draft → Markup → Except Error Draft}
    (hdecl : ∀ d d' m, declare d m = .ok d' → d.Sound → d'.Sound) {ms : List Markup}
    {d d' : Draft} (h : declareAll declare d ms = .ok d') (hd : d.Sound) : d'.Sound := by
  induction ms generalizing d with
  | nil =>
    unfold declareAll at h
    rw [← Except.ok.inj h]
    exact hd
  | cons m ms ih =>
    unfold declareAll at h
    split at h
    · cases h
    · next d₁ hd₁ => exact ih h (hdecl d d₁ m hd₁ hd)

/-! ## Substitutions -/

theorem sound_registerAttribute {d d' : Draft} {declared : Option String} {name : String}
    (h : registerAttribute d declared name = .ok d') (hd : d.Sound) : d'.Sound := by
  have heq : d' = d := by
    unfold registerAttribute at h
    (repeat' split at h) <;> first | cases h; done | exact (Except.ok.inj h).symm
  rw [heq]
  exact hd

theorem sound_registerPrimitive {r : Reading} {d d' : Draft} {declared : Option String}
    {name : String} (h : registerPrimitive r d declared name = .ok d') (hd : d.Sound) :
    d'.Sound := by
  unfold registerPrimitive at h
  split at h
  · cases h
  · split at h
    · cases h
    · split at h
      · cases h
      · next types _ =>
        split at h
        · next hnone =>
          rw [← Except.ok.inj h]
          refine hd.addProperty ⟨(fun f hf => by cases hf), ?_⟩ hnone
          exact Value.plain_of_isPrimitive (isPrimitive_defaultFor types)
        · next p hp =>
          have hps := hd.sound p (Draft.property?_some hp).1
          split at h
          · split at h
            · split at h
              · rw [← Except.ok.inj h]
                exact hd.setProperty ⟨hps.sources, hps.default⟩
              · cases h
            · rw [← Except.ok.inj h]
              exact hd.setProperty ⟨hps.sources, hps.default⟩
            · rw [← Except.ok.inj h]
              exact hd.setProperty ⟨hps.sources, hps.default⟩
          · cases h

theorem sound_registerElement {r : Reading} {d d' : Draft} {code : List Char} {name : String}
    (h : registerElement r d code = .ok (name, d')) (hd : d.Sound) : d'.Sound := by
  unfold registerElement at h
  split at h
  · cases h
  · extract_lets name at h
    split at h
    · cases h
    · split at h
      · cases h
      · split at h
        · cases h
        · extract_lets kind at h
          split at h
          · next hnone =>
            obtain ⟨-, rfl⟩ := Prod.mk.inj (Except.ok.inj h)
            exact hd.addProperty ⟨(fun f hf => by cases hf), ⟨rfl, rfl⟩⟩ hnone
          · next p hp =>
            have hps := hd.sound p (Draft.property?_some hp).1
            split at h
            · cases h
            · split at h
              · cases h
              · obtain ⟨-, rfl⟩ := Prod.mk.inj (Except.ok.inj h)
                exact hd.setProperty ⟨hps.sources, hps.default⟩

theorem sound_registerText {r : Reading} {d d' : Draft} {code : List Char} {source : Source}
    (h : registerText r d code = .ok (source, d')) (hd : d.Sound) : d'.Sound := by
  unfold registerText at h
  split at h
  · cases h
  · next declared name _ =>
    cases ha : registerAttribute d declared name with
    | error e => rw [ha] at h; cases h
    | ok d₁ =>
      rw [ha] at h
      obtain ⟨-, rfl⟩ := Prod.mk.inj (Except.ok.inj h)
      exact sound_registerAttribute ha hd
  · next declared name _ =>
    cases ha : registerPrimitive r d declared name with
    | error e => rw [ha] at h; cases h
    | ok d₁ =>
      rw [ha] at h
      obtain ⟨-, rfl⟩ := Prod.mk.inj (Except.ok.inj h)
      exact sound_registerPrimitive ha hd

/-! ## The walk through the view -/

theorem sound_nodesOfPieces {r : Reading} {pieces : List Piece} {d d' : Draft}
    {nodes : List ViewNode} (h : nodesOfPieces r d pieces = .ok (nodes, d')) (hd : d.Sound) :
    d'.Sound := by
  have map_ok {α β : Type} {x : Except Error α} {f : α → β} {b : β} (h : x.map f = .ok b) :
      ∃ a, x = .ok a ∧ f a = b := by
    cases x with
    | error e => cases h
    | ok a => exact ⟨a, rfl, Except.ok.inj h⟩
  induction pieces generalizing d nodes with
  | nil =>
    unfold nodesOfPieces at h
    obtain ⟨-, rfl⟩ := Prod.mk.inj (Except.ok.inj h)
    exact hd
  | cons piece rest ih =>
    unfold nodesOfPieces at h
    cases piece with
    | plain s =>
      obtain ⟨⟨nodes', d₁⟩, hrest, heq⟩ := map_ok h
      obtain ⟨-, rfl⟩ := Prod.mk.inj heq
      exact ih hrest hd
    | ofText code =>
      simp only at h
      split at h
      · cases h
      · next hreg =>
        obtain ⟨⟨nodes', d₂⟩, hrest, heq⟩ := map_ok h
        obtain ⟨-, rfl⟩ := Prod.mk.inj heq
        exact ih hrest (sound_registerText hreg hd)
    | ofElement code =>
      simp only at h
      split at h
      · cases h
      · next hreg =>
        obtain ⟨⟨nodes', d₂⟩, hrest, heq⟩ := map_ok h
        obtain ⟨-, rfl⟩ := Prod.mk.inj heq
        exact ih hrest (sound_registerElement hreg hd)
    | fault e => cases h

theorem sound_formatOfPieces {r : Reading} {pieces : List Piece} {d d' : Draft} {f g : Format}
    (h : formatOfPieces r d f pieces = .ok (g, d')) (hd : d.Sound) : d'.Sound := by
  induction pieces generalizing d f with
  | nil =>
    unfold formatOfPieces at h
    obtain ⟨-, rfl⟩ := Prod.mk.inj (Except.ok.inj h)
    exact hd
  | cons piece rest ih =>
    unfold formatOfPieces at h
    cases piece with
    | plain s => exact ih h hd
    | ofText code =>
      simp only at h
      split at h
      · cases h
      · next hreg => exact ih h (sound_registerText hreg hd)
    | ofElement code => exact ih h hd
    | fault e => cases h

theorem sound_readFormat {r : Reading} {d : Draft} {value : String} {x : Format × Draft}
    (h : readFormat r d value = .ok x) (hd : d.Sound) : x.2.Sound :=
  sound_formatOfPieces (g := x.1) h hd

theorem sound_readAttribute {r : Reading} {d d' : Draft} {shape shape' : ElementShape} {a : Attr}
    {name : String} (h : readAttribute r d shape a name = .ok (shape', d')) (hd : d.Sound) :
    d'.Sound := by
  unfold readAttribute at h
  simp only [bind, Except.bind, pure, Except.pure] at h
  (repeat' split at h) <;> first
    | cases h; done
    | (obtain ⟨-, rfl⟩ := Prod.mk.inj (Except.ok.inj h)
       first
         | exact hd
         | exact hd.congr rfl
         | exact sound_readFormat (by assumption) hd)

theorem sound_readAttributes {r : Reading} {as : List Attr} {d d' : Draft}
    {shape shape' : ElementShape} {seen : List String}
    (h : readAttributes r d shape seen as = .ok (shape', d')) (hd : d.Sound) : d'.Sound := by
  induction as generalizing d shape seen with
  | nil =>
    unfold readAttributes at h
    obtain ⟨-, rfl⟩ := Prod.mk.inj (Except.ok.inj h)
    exact hd
  | cons a rest ih =>
    unfold readAttributes at h
    extract_lets name at h
    split at h
    · cases h
    · split at h
      · cases h
      · next ha => exact ih h (sound_readAttribute ha hd)

mutual

theorem sound_readNode {r : Reading} : ∀ (m : Markup) {d d' : Draft} {path : List Nat}
    {nodes : List ViewNode}, readNode r d path m = .ok (nodes, d') → d.Sound → d'.Sound
  | .text s, d, d', path, nodes, h, hd => by
    unfold readNode at h
    exact sound_nodesOfPieces h hd
  | .comment s, d, d', path, nodes, h, hd => by
    unfold readNode at h
    obtain ⟨-, rfl⟩ := Prod.mk.inj (Except.ok.inj h)
    exact hd
  | .element name attrs apart children, d, d', path, nodes, h, hd => by
    unfold readNode at h
    split at h
    · split at h
      · cases h
      · obtain ⟨-, rfl⟩ := Prod.mk.inj (Except.ok.inj h)
        exact hd.congr rfl
    · split at h
      · cases h
      · split at h
        · cases h
        · next hattrs =>
          have hd₁ := sound_readAttributes hattrs hd
          split at h
          · obtain ⟨-, rfl⟩ := Prod.mk.inj (Except.ok.inj h)
            exact hd₁
          · split at h
            · cases h
            · next hnodes =>
              obtain ⟨-, rfl⟩ := Prod.mk.inj (Except.ok.inj h)
              exact sound_readNodes children hnodes hd₁

theorem sound_readNodes {r : Reading} : ∀ (ms : List Markup) {d d' : Draft} {path : List Nat}
    {read nodes : List ViewNode}, readNodes r d path read ms = .ok (nodes, d') → d.Sound → d'.Sound
  | [], d, d', path, read, nodes, h, hd => by
    unfold readNodes at h
    obtain ⟨-, rfl⟩ := Prod.mk.inj (Except.ok.inj h)
    exact hd
  | m :: ms, d, d', path, read, nodes, h, hd => by
    unfold readNodes at h
    split at h
    · cases h
    · next hm => exact sound_readNodes ms h (sound_readNode m hm hd)

end

theorem sound_readRoot {r : Reading} {d d' : Draft} {root : Option Markup} {v : Option ViewNode}
    (h : readRoot r d root = .ok (v, d')) (hd : d.Sound) : d'.Sound := by
  cases root with
  | none =>
    obtain ⟨-, rfl⟩ := Prod.mk.inj (Except.ok.inj h)
    exact hd
  | some m =>
    unfold readRoot at h
    cases hm : readNode r d [] m with
    | error e =>
      simp only [hm] at h
      cases h
    | ok x =>
      simp only [hm] at h
      obtain ⟨-, rfl⟩ := Prod.mk.inj (Except.ok.inj h)
      exact sound_readNode m hm hd

/-! ## Settling the properties -/

/-- A settled property keeps its name, kind and binding, and a bound one is primitive. -/
theorem settleDefault_spec {d : Draft} {p q : PropertyDescriptor}
    (h : settleDefault d p = .ok q) (hp : p.Sound) :
    q.name = p.name ∧ q.kind = p.kind ∧ q.binding = p.binding ∧ q.Sound ∧
      (q.binding.isSome = true → q.kind.isPrimitive = true) := by
  have hdefault (types : Option (List PrimitiveType)) :
      ({ p with default := defaultFor types } : PropertyDescriptor).Sound :=
    ⟨hp.sources, Value.plain_of_isPrimitive (isPrimitive_defaultFor types)⟩
  unfold settleDefault at h
  split at h
  · next types hkind =>
    have hprim : p.kind.isPrimitive = true := by rw [hkind]; rfl
    split at h
    · cases h
    · split at h
      · cases hc : checkDefault p.name p.default types with
        | error e => rw [hc] at h; cases h
        | ok u =>
          rw [hc] at h
          obtain rfl := Except.ok.inj h
          exact ⟨rfl, rfl, rfl, hp, fun _ => hprim⟩
      · (repeat' split at h) <;> obtain rfl := Except.ok.inj h <;>
          first
            | exact ⟨rfl, rfl, rfl, hp, fun _ => hprim⟩
            | exact ⟨rfl, rfl, rfl, hdefault _, fun _ => hprim⟩
  · split at h
    · split at h
      · cases h
      · next hb =>
        obtain rfl := Except.ok.inj h
        exact ⟨rfl, rfl, rfl, hp, fun hb' => absurd hb' hb⟩
    · split at h
      · cases h
      · next hb =>
        obtain rfl := Except.ok.inj h
        exact ⟨rfl, rfl, rfl, hp, fun hb' => absurd hb' hb⟩
    · cases h
  · extract_lets checked at h
    cases hchecked : checked with
    | error e =>
      rw [hchecked] at h
      cases h
    | ok q' =>
      rw [hchecked] at h
      dsimp only at h
      have hq' : q'.name = p.name ∧ q'.kind = p.kind ∧ q'.binding = p.binding ∧ q'.Sound := by
        simp only [checked] at hchecked
        split at hchecked
        · obtain rfl := Except.ok.inj hchecked
          exact ⟨rfl, rfl, rfl, hp.sources, ⟨rfl, rfl⟩⟩
        · split at hchecked
          · obtain rfl := Except.ok.inj hchecked
            exact ⟨rfl, rfl, rfl, hp⟩
          · cases hchecked
        · cases hchecked
      split at h
      · cases h
      · next hb =>
        obtain rfl := Except.ok.inj h
        refine ⟨hq'.1, hq'.2.1, hq'.2.2.1, hq'.2.2.2, fun hb' => ?_⟩
        simp [hb'] at hb

/-- What a checked binding reads is declared and primitive. -/
theorem checkReads_spec {ps : List PropertyDescriptor} {name : String} {rs : List String}
    (h : checkReads ps name rs = .ok ()) :
    ∀ r ∈ rs, ∃ q ∈ ps, q.name = r ∧ q.kind.isPrimitive = true := by
  induction rs with
  | nil => exact fun r hr => by cases hr
  | cons dependency rest ih =>
    unfold checkReads at h
    split at h
    · cases h
    · split at h
      · cases h
      · next q hq =>
        split at h
        · next hprim =>
          intro r hr
          rcases List.mem_cons.1 hr with rfl | hr
          · exact ⟨q, List.mem_of_find?_eq_some hq, by simpa using List.find?_some hq, hprim⟩
          · exact ih h r hr
        · cases h

/-- Settling properties keeps their names and kinds, and what it gives is checked. -/
theorem checkEach_spec {d : Draft} {ps qs : List PropertyDescriptor} (h : checkEach d ps = .ok qs)
    (hp : ∀ p ∈ ps, p.Sound) :
    qs.map (fun q => (q.name, q.kind)) = ps.map (fun p => (p.name, p.kind)) ∧
      ∀ q ∈ qs, q.Sound ∧ (q.binding.isSome = true → q.kind.isPrimitive = true) ∧
        ∀ r ∈ q.reads, ∃ p ∈ d.properties, p.name = r ∧ p.kind.isPrimitive = true := by
  induction ps generalizing qs with
  | nil =>
    obtain rfl := Except.ok.inj h
    exact ⟨rfl, fun q hq => by cases hq⟩
  | cons p ps ih =>
    unfold checkEach at h
    split at h
    · cases h
    · next q hcheck =>
      split at h
      · cases h
      · next qs' hrest =>
        obtain rfl := Except.ok.inj h
        obtain ⟨hnames, hall⟩ := ih hrest fun p' hp' => hp p' (List.mem_cons_of_mem _ hp')
        unfold checkProperty at hcheck
        split at hcheck
        · cases hcheck
        · split at hcheck
          · cases hcheck
          · next q' hsettle =>
            split at hcheck
            · cases hcheck
            · next hbind =>
              obtain rfl := Except.ok.inj hcheck
              obtain ⟨hname, hkind, -, hsound, hprim⟩ :=
                settleDefault_spec hsettle (hp p List.mem_cons_self)
              refine ⟨by rw [List.map_cons, List.map_cons, hnames, hname, hkind], fun q hq => ?_⟩
              rcases List.mem_cons.1 hq with rfl | hq
              · refine ⟨hsound, hprim, fun r hr => ?_⟩
                unfold PropertyDescriptor.reads at hr
                unfold checkBinding at hbind
                split at hbind
                · next hnone => rw [hnone] at hr; cases hr
                · next f hf =>
                  rw [hf] at hr
                  extract_lets acceptsText at hbind
                  split at hbind
                  · exact checkReads_spec hbind r hr
                  · cases hbind
              · exact hall q hq

/-! ## The result -/

/-- A class template that has been read has a valid descriptor, if its parent has one. -/
theorem parse_valid {r : Reading} {definition : Definition}
    {parent : Option (ClassRef × Descriptor)} {d : Descriptor}
    (hparent : ∀ p, parent = some p → p.2.Valid) (h : parse r definition parent = .ok d) :
    d.Valid := by
  unfold parse at h
  simp only [bind, Except.bind, pure, Except.pure] at h
  split at h
  · cases h
  · next d₁ h₁ =>
    split at h
    · cases h
    · next parts _ =>
      split at h
      · cases h
      · next d₂ h₂ =>
        split at h
        · cases h
        · next d₃ h₃ =>
          split at h
          · cases h
          · next own h₄ =>
            split at h
            · cases h
            · split at h
              · cases h
              · next d₅ h₅ =>
                obtain rfl := Except.ok.inj h
                have hs₁ : d₁.Sound := by
                  refine (Draft.Sound.ofParent fun p hp => ?_).congr (Draft.properties_addMethods h₁)
                  obtain ⟨x, hx, rfl⟩ := Option.map_eq_some_iff.1 hp
                  exact hparent x hx
                have hs₃ := sound_declareAll (fun d d' m => sound_declareProperty) h₃
                  (sound_declareAll (fun d d' m => sound_declareAttribute) h₂ hs₁)
                have hs₄ : own.2.Sound := sound_readRoot (v := own.1) h₄ hs₃
                unfold checkProperties at h₅
                split at h₅
                · cases h₅
                · next ps hps =>
                  obtain rfl := Except.ok.inj h₅
                  obtain ⟨hnames, hall⟩ := checkEach_spec hps hs₄.sound
                  refine ⟨?_, fun p hp => (hall p hp).1, fun p hp => (hall p hp).2.1,
                    fun p hp r hr => ?_⟩
                  · have hnd := hs₄.nodup
                    have := congrArg (List.map Prod.fst) hnames
                    simp only [List.map_map, Function.comp_def] at this
                    rw [← this] at hnd
                    exact hnd
                  · obtain ⟨q, hq, rfl, hprim⟩ := (hall p hp).2.2 r hr
                    have hmem := List.mem_map_of_mem (f := fun p => (p.name, p.kind)) hq
                    rw [← hnames] at hmem
                    obtain ⟨q', hq', heq⟩ := List.mem_map.1 hmem
                    obtain ⟨hname, hkind⟩ := Prod.mk.inj heq
                    exact ⟨q', hq', hname, by rw [hkind]; exact hprim⟩

end Template

end ReactiveView
