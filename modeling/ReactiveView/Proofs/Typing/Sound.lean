import ReactiveView.Proofs.Steps.Basic

/-!
# Sound worlds

A world is *sound* when its classes are compiled, every instance holds a value for each property and each
attribute, of the kind that is declared, and every item of a collection is accepted by it
(`World.Sound`). Of a primitive property and of an attribute this says only that the value is primitive:
while an instance is under construction, its values need not be of the declared types yet.

Elementary changes keep worlds sound (`World.Step.sound`), since a change that stores something has had it
checked, and what is accepted once is accepted for good.
-/

set_option autoImplicit false

namespace ReactiveView

/-- The descriptors of compiled classes have been read from templates, the parent's before the class. -/
theorem Compiled.parsed {T : Table Class} (hT : Compiled T) {i : Nat} {c : Class}
    (h : T.get? i = some c) : c.descriptor.Parsed := by
  induction hT generalizing i c with
  | empty => simp [Table.get?] at h
  | push _ r definition parent hparent d hd ns queue factory c' hc ih =>
    rcases Table.get?_push_eq_some h with rfl | h
    · rw [(Class.compile_spec hc).1]
      refine .parse r definition (parent.map fun p => (p.1, p.2.descriptor)) (fun p hp => ?_) d hd
      obtain ⟨x, hx, rfl⟩ := Option.map_eq_some_iff.1 hp
      exact ih (hparent x hx)
    · exact ih h

/-- A list that matches another still does when one entry is replaced by one that matches. -/
theorem forall₂_set {α β : Type} {R : α → β → Prop} {as : List α} {bs : List β}
    (h : List.Forall₂ R as bs) {n : Nat} {a : α} {b : β} (ha : as[n]? = some a) (hab : R a b) :
    List.Forall₂ R as (bs.set n b) := by
  induction h generalizing n with
  | nil => cases ha
  | cons hxy hrest ih =>
    cases n with
    | zero =>
      obtain rfl := Option.some.inj ha
      exact .cons hab hrest
    | succ n => exact .cons hxy (ih ha)

theorem forall₂_of_getElem? {α β : Type} {R : α → β → Prop} {as : List α} {bs : List β}
    (hlen : as.length = bs.length)
    (h : ∀ (n : Nat) a b, as[n]? = some a → bs[n]? = some b → R a b) : List.Forall₂ R as bs :=
  List.forall₂_iff_get.2 ⟨hlen, fun n hn hn' =>
    h n _ _ (List.getElem?_eq_getElem hn) (List.getElem?_eq_getElem hn')⟩

theorem getElem?_of_forall₂ {α β : Type} {R : α → β → Prop} {as : List α} {bs : List β}
    (h : List.Forall₂ R as bs) {n : Nat} {a : α} (ha : as[n]? = some a) :
    ∃ b, bs[n]? = some b ∧ R a b := by
  obtain ⟨hn, rfl⟩ := List.getElem?_eq_some_iff.1 ha
  have hn' : n < bs.length := h.length_eq ▸ hn
  exact ⟨bs[n], List.getElem?_eq_getElem hn', h.get hn hn'⟩

/-- A value that is admissible where it is a primitive one may be stored. -/
theorem Instance.Typed.set {x : Instance} {c : Class} (h : x.Typed c) {n : Nat} {v : Value}
    (hv : ∀ p types, c.descriptor.properties[n]? = some p → p.kind = .primitive types →
      Admissible types v) : Instance.Typed { x with values := x.values.set n v } c where
  attrs := h.attrs
  values m p types u hp hk hu := by
    dsimp only at hu
    rw [List.getElem?_set] at hu
    split at hu
    · next hnm =>
      subst hnm
      split at hu
      · obtain rfl := Option.some.inj hu
        exact hv p types hp hk
      · cases hu
    · exact h.values m p types u hp hk hu

theorem Instance.Typed.setAttr {x : Instance} {c : Class} (h : x.Typed c) {n : Nat} {v : Value}
    (hv : ∀ a, c.descriptor.attributes[n]? = some a → Admissible a.types v) :
    Instance.Typed { x with attrValues := x.attrValues.set n v } c where
  values := h.values
  attrs m a u ha hu := by
    dsimp only at hu
    rw [List.getElem?_set] at hu
    split at hu
    · next hnm =>
      subst hnm
      split at hu
      · obtain rfl := Option.some.inj hu
        exact hv a ha
      · cases hu
    · exact h.attrs m a u ha hu

namespace World

variable {w w' : World} {i : InstanceId} {p : PropertyDescriptor}

/-- The values that a property of an instance may hold at any time. -/
inductive Suits (w : World) (i : InstanceId) (p : PropertyDescriptor) : Value → Prop where
  | primitive {types : Option (List PrimitiveType)} {v : Value} :
      p.kind = .primitive types → v.isPrimitive = true → Suits w i p v
  | empty {element : ElementType} : p.kind = .slot element → Suits w i p .null
  | child {element : ElementType} {j : InstanceId} :
      p.kind = .slot element → w.accepts element j = true → Suits w i p (.inst j)
  /-- The collection is the property's own. -/
  | sequence {element : ElementType} {k : CollectionId} {y : Collection} :
      p.kind = .sequence element → w.coll? k = some y → y.element = element → y.owner = i →
        y.property = p.name → Suits w i p (.coll k)

theorem Suits.grows {v : Value} (h : w.Suits i p v) (hg : w.Grows w') : w'.Suits i p v := by
  cases h with
  | primitive hk hv => exact .primitive hk hv
  | empty hk => exact .empty hk
  | child hk hj => exact .child hk (hg.accepts hj)
  | sequence hk hy he ho hp =>
    obtain ⟨y', hy', he', ho', hp', -, -⟩ := hg.coll _ _ hy
    exact .sequence hk hy' (he'.trans he) (ho'.trans ho) (hp'.trans hp)

/-- An instance holds a value for each property and each attribute of its class. -/
structure Fills (w : World) (i : InstanceId) (c : Class) (x : Instance) : Prop where
  values : List.Forall₂ (w.Suits i) c.descriptor.properties x.values
  attrs : List.Forall₂ (fun (_ : AttributeDescriptor) v => v.isPrimitive = true)
    c.descriptor.attributes x.attrValues
  typed : x.built = true → x.Typed c

/-- Classes are compiled, instances hold what suits their properties, and items are accepted. -/
structure Sound (w : World) : Prop where
  compiled : Compiled w.classes
  inst : ∀ i x, w.inst? i = some x → ∃ c, w.class? x.classId = some c ∧ w.Fills i c x
  coll : ∀ k y, w.coll? k = some y → ∀ j ∈ y.items, w.accepts y.element j = true

theorem Fills.grows {c : Class} {x x' : Instance} (h : w.Fills i c x) (hg : w.Grows w')
    (hvalues : x'.values = x.values) (hattrs : x'.attrValues = x.attrValues)
    (hbuilt : x'.built = true → x.built = true) : w'.Fills i c x' where
  values := by
    rw [hvalues]
    exact h.values.imp fun _ _ hs => hs.grows hg
  attrs := by
    rw [hattrs]
    exact h.attrs
  typed hb := by
    obtain ⟨hv, ha⟩ := h.typed (hbuilt hb)
    exact ⟨by rw [hvalues]; exact hv, by rw [hattrs]; exact ha⟩

namespace Sound

theorem fills (hw : w.Sound) {x : Instance} {c : Class} (hx : w.inst? i = some x)
    (hc : w.class? x.classId = some c) : w.Fills i c x := by
  obtain ⟨c', hc', hfills⟩ := hw.inst i x hx
  rw [hc] at hc'
  rw [Option.some.inj hc']
  exact hfills

/-- Only what a world has more than before needs a look. -/
theorem of_grows (hw : w.Sound) (hg : w.Grows w') (hcompiled : Compiled w'.classes)
    (hinst : ∀ i x', w'.inst? i = some x' →
      (∃ x, w.inst? i = some x ∧ x'.classId = x.classId ∧ x'.values = x.values ∧
        x'.attrValues = x.attrValues ∧ x'.built = x.built) ∨ ∃ c, w'.class? x'.classId = some c ∧ w'.Fills i c x')
    (hcoll : ∀ k y', w'.coll? k = some y' →
      (∃ y, w.coll? k = some y ∧ y'.element = y.element ∧ y'.items = y.items) ∨
        ∀ j ∈ y'.items, w'.accepts y'.element j = true) : w'.Sound where
  compiled := hcompiled
  inst i x' hx' := by
    rcases hinst i x' hx' with ⟨x, hx, hid, hvalues, hattrs, hbuilt⟩ | hnew
    · obtain ⟨c, hc, hfills⟩ := hw.inst i x hx
      refine ⟨c, ?_, hfills.grows hg hvalues hattrs fun hb => hbuilt ▸ hb⟩
      rw [hid]
      exact hg.cls _ c hc
    · exact hnew
  coll k y' hy' := by
    rcases hcoll k y' hy' with ⟨y, hy, helement, hitems⟩ | hnew
    · rw [helement, hitems]
      exact fun j hj => hg.accepts (hw.coll k y hy j hj)
    · exact hnew

/-- Nothing that matters has changed. -/
theorem of_same (hw : w.Sound) (hc : w'.classes = w.classes) (hi : w'.instances = w.instances)
    (hk : w'.collections = w.collections) : w'.Sound := by
  refine hw.of_grows (.of_same hc hi hk) (hc ▸ hw.compiled) (fun i x' hx' => ?_) fun k y' hy' => ?_
  · refine Or.inl ⟨x', ?_, rfl, rfl, rfl, rfl⟩
    unfold inst? at hx' ⊢
    rw [← hi]
    exact hx'
  · refine Or.inl ⟨y', ?_, rfl, rfl⟩
    unfold coll? at hy' ⊢
    rw [← hk]
    exact hy'

/-- One instance is changed, and still holds what suits. -/
theorem modifyInstance (hw : w.Sound) (i : InstanceId) (f : Instance → Instance)
    (hf : ∀ x, (f x).classId = x.classId ∧ (f x).view = x.view)
    (hfills : ∀ x c, w.inst? i = some x → w.class? x.classId = some c → w.Fills i c x →
      w.Fills i c (f x)) : (w.modifyInstance i f).Sound := by
  have hg := Grows.modifyInstance w i f hf
  refine hw.of_grows hg hw.compiled (fun j x' hx' => ?_) fun k y' hy' => Or.inl ⟨y', hy', rfl, rfl⟩
  by_cases hij : i = j
  · subst hij
    rw [inst?_modifyInstance_self] at hx'
    obtain ⟨x, hx, rfl⟩ := Option.map_eq_some_iff.1 hx'
    obtain ⟨c, hc, hfillsx⟩ := hw.inst i x hx
    right
    refine ⟨c, ?_, (hfills x c hx hc hfillsx).grows hg rfl rfl id⟩
    rw [(hf x).1]
    exact hc
  · rw [inst?_modifyInstance_of_ne _ _ hij] at hx'
    exact Or.inl ⟨x', hx', rfl, rfl, rfl, rfl⟩

end Sound

/-! ## Making an instance -/

/-- A new instance starts with null in all its attributes. -/
theorem attrValues_createInstance {id : ClassId} {d : Descriptor} (h : w.createInstance id d = .ok (i, w'))
    {x : Instance} (hx : w'.inst? i = some x) : x.attrValues = d.attributes.map fun _ => .null := by
  unfold createInstance at h
  dsimp only [pushInstance] at h
  split at h
  · cases h
  · next view w₁ hview =>
    obtain ⟨rfl, rfl⟩ := Prod.mk.inj (Except.ok.inj h)
    obtain ⟨-, hinst, -⟩ := bindView_spec hview
    rw [inst?_modifyInstance_self] at hx
    unfold inst? at hx
    rw [hinst, Table.get?_push_self] at hx
    rw [← Option.some.inj hx]

theorem Sound.create (hw : w.Sound) {id : ClassId} {c : Class} (hc : w.class? id = some c)
    (h : w.createInstance id c.descriptor = .ok (i, w')) : w'.Sound := by
  obtain ⟨-, view, b, b', hjoins⟩ := createInstance_joins h
  have hg := grows_createInstance h
  refine hw.of_grows hg (hjoins.classes ▸ hw.compiled) (fun j x' hx' => ?_) fun k y' hy' => ?_
  · by_cases hj : j = i
    · subst hj
      right
      have hattrs := attrValues_createInstance h hx'
      obtain ⟨attrs, hself⟩ := hjoins.self
      rw [hself] at hx'
      obtain rfl := Option.some.inj hx'
      refine ⟨c, hg.cls id c hc, forall₂_of_getElem? (by simp [hjoins.length]) fun n p v hp hv => ?_, ?_,
        fun hb => by cases hb⟩
      · dsimp only at hv
        rw [List.getElem?_map] at hv
        obtain ⟨site, hsite, rfl⟩ := Option.map_eq_some_iff.1 hv
        cases hjoins.site n p site hp hsite with
        | nodes hk => exact .primitive hk rfl
        | slot hk _ => exact .empty hk
        | sequence hk _ _ hcoll => exact .sequence hk hcoll rfl rfl rfl
      · dsimp only at hattrs
        rw [hattrs]
        rw [List.forall₂_map_right_iff]
        exact List.forall₂_same.2 fun _ _ => rfl
    · exact Or.inl ⟨x', (hjoins.other j hj).symm.trans hx', rfl, rfl, rfl, rfl⟩
  · by_cases hk : k.index < w.collections.size
    · exact Or.inl ⟨y', (hjoins.old k hk).symm.trans hy', rfl, rfl⟩
    · right
      -- a new collection belongs to a site of the new view, and is empty
      obtain ⟨n, hn⟩ := hjoins.new k y' (Nat.not_lt.1 hk) hy'
      have hlt : n < c.descriptor.properties.length := by
        rw [← hjoins.length]
        exact (List.getElem?_eq_some_iff.1 hn).1
      cases hjoins.site n _ _ (List.getElem?_eq_getElem hlt) hn with
      | sequence _ _ _ hcoll =>
        rw [hcoll] at hy'
        rw [← Option.some.inj hy']
        intro j hj
        cases hj

/-! ## Elementary changes -/

theorem inst?_rendered (w : World) (c : Class) (site : Option Site) (source : Source) (text : String)
    (j : InstanceId) : (w.rendered c site source text).inst? j = w.inst? j := by
  unfold rendered
  split <;> rfl

/-- Elementary changes keep worlds sound. -/
theorem Step.sound (h : w.Step w') (hw : w.Sound) : w'.Sound := by
  cases h with
  | quiet screen classes instances collections spaces => exact hw.of_same classes instances collections
  | moves f hf => exact hw.of_same rfl rfl rfl
  | mark hr hm a ha => exact hw.of_same rfl rfl rfl
  | space n f hf => exact hw.of_same rfl rfl rfl
  | addSpace delay ns hq => exact hw.of_same rfl rfl rfl
  | addClass c hc hq =>
    have hg := Step.grows (.addClass c hc hq : w.Step _)
    exact hw.of_grows hg (hc hw.compiled) (fun i x' hx' => Or.inl ⟨x', hx', rfl, rfl, rfl, rfl⟩)
      fun k y' hy' => Or.inl ⟨y', hy', rfl, rfl⟩
  | record i f hf =>
    refine hw.modifyInstance i f (fun x => ⟨(hf x).1, (hf x).2.1⟩) fun x c _ _ hfills => ?_
    obtain ⟨-, -, hvalues, hattrs, hbuilt⟩ := hf x
    exact hfills.grows .rfl hvalues hattrs fun hb => hbuilt ▸ hb
  | finish i h hroot =>
    refine hw.modifyInstance i _ (fun _ => ⟨rfl, rfl⟩) fun x c hx hc hfills => ?_
    exact ⟨hfills.values, hfills.attrs, fun _ => ⟨(h x c hx hc).values, (h x c hx hc).attrs⟩⟩
  | contents k f hf hitems =>
    have hg := Step.grows (.contents k f hf hitems : w.Step _)
    refine hw.of_grows hg hw.compiled (fun i x' hx' => Or.inl ⟨x', hx', rfl, rfl, rfl, rfl⟩) fun k' y' hy' => ?_
    by_cases hk : k = k'
    · subst hk
      rw [coll?_modifyCollection_self] at hy'
      obtain ⟨y, hy, rfl⟩ := Option.map_eq_some_iff.1 hy'
      right
      rw [(hf y).1]
      exact hitems y hy
    · rw [coll?_modifyCollection_of_ne _ _ hk] at hy'
      exact Or.inl ⟨y', hy', rfl, rfl⟩
  | create hc h => exact hw.create hc h
  | @write i x c view n p types v hx hc hview hp hkind hv =>
    have hrendered : (w.rendered c view.sites[n]? (.property p.name) v.outputText).Sound := by
      unfold rendered
      split
      · exact hw.of_same rfl rfl rfl
      · exact hw
    refine hrendered.modifyInstance i _ (fun _ => ⟨rfl, rfl⟩) fun x' c' hx' hc' hfills => ?_
    rw [inst?_rendered] at hx'
    obtain rfl := Option.some.inj (hx.symm.trans hx')
    have hcc : c' = c := by
      have hsame : (w.rendered c view.sites[n]? (.property p.name) v.outputText).class? x.classId =
          w.class? x.classId := by
        unfold rendered
        split <;> rfl
      rw [hsame, hc] at hc'
      exact (Option.some.inj hc').symm
    subst hcc
    refine ⟨forall₂_set hfills.values hp (.primitive hkind hv.1), hfills.attrs, fun hb => ?_⟩
    refine (hfills.typed hb).set fun p' types' hp' hkind' => ?_
    obtain rfl := Option.some.inj (hp.symm.trans hp')
    obtain rfl := PropertyKind.primitive.inj (hkind.symm.trans hkind')
    exact hv
  | @slot i x c n p element v hx hc hp hkind hv =>
    refine hw.modifyInstance i _ (fun _ => ⟨rfl, rfl⟩) fun x' c' hx' hc' hfills => ?_
    obtain rfl := Option.some.inj (hx.symm.trans hx')
    obtain rfl := Option.some.inj (hc.symm.trans hc')
    refine ⟨forall₂_set hfills.values hp ?_, hfills.attrs, fun hb => ?_⟩
    · rcases hv with rfl | ⟨j, rfl, hj⟩
      · exact .empty hkind
      · exact .child hkind hj
    · refine (hfills.typed hb).set fun p' types hp' hkind' => ?_
      obtain rfl := Option.some.inj (hp.symm.trans hp')
      rw [hkind] at hkind'
      cases hkind'
  | @attr i x c view n a v hx hc hview ha hv =>
    have hrendered : ((w.renderIn c (view.attributeNodes[n]?.getD []) (.attr a.name)
        v.outputText).mapForest fun f => f.setAttr view.root (dataName a.name) v.outputText).Sound :=
      hw.of_same rfl rfl rfl
    refine hrendered.modifyInstance i _ (fun _ => ⟨rfl, rfl⟩) fun x' c' hx' hc' hfills => ?_
    obtain rfl := Option.some.inj (hx.symm.trans hx')
    obtain rfl := Option.some.inj (hc.symm.trans hc')
    refine ⟨hfills.values, forall₂_set hfills.attrs ha hv.1, fun hb => ?_⟩
    refine (hfills.typed hb).setAttr fun a' ha' => ?_
    obtain rfl := Option.some.inj (ha.symm.trans ha')
    exact hv
  | flush q => exact hw.of_same rfl rfl rfl

theorem Steps.sound (h : w.Steps w') (hw : w.Sound) : w'.Sound := by
  induction h with
  | refl => exact hw
  | tail _ hstep ih => exact hstep.sound ih

/-! ## Values that stay admissible -/

/-- The property at a position of an instance holds an admissible value, if it is a primitive one. -/
def FitsAt (w : World) (i : InstanceId) (n : Nat) : Prop :=
  ∃ x c p v, w.inst? i = some x ∧ w.class? x.classId = some c ∧ c.descriptor.properties[n]? = some p ∧
    x.values[n]? = some v ∧ ∀ types, p.kind = .primitive types → Admissible types v

/-- The attribute at a position of an instance holds an admissible value. -/
def AttrFitsAt (w : World) (i : InstanceId) (n : Nat) : Prop :=
  ∃ x c a v, w.inst? i = some x ∧ w.class? x.classId = some c ∧ c.descriptor.attributes[n]? = some a ∧
    x.attrValues[n]? = some v ∧ Admissible a.types v

theorem admissible_of_fitsAt {n : Nat} (h : w.FitsAt i n) {x : Instance} {c : Class} {v : Value}
    {types : Option (List PrimitiveType)} (hx : w.inst? i = some x) (hc : w.class? x.classId = some c)
    (hp : c.descriptor.properties[n]? = some p) (hkind : p.kind = .primitive types)
    (hv : x.values[n]? = some v) : Admissible types v := by
  obtain ⟨y, d, q, u, hy, hd, hq, hu, hadm⟩ := h
  obtain rfl := Option.some.inj (hx.symm.trans hy)
  obtain rfl := Option.some.inj (hc.symm.trans hd)
  obtain rfl := Option.some.inj (hp.symm.trans hq)
  obtain rfl := Option.some.inj (hv.symm.trans hu)
  exact hadm types hkind

theorem admissible_of_attrFitsAt {n : Nat} (h : w.AttrFitsAt i n) {x : Instance} {c : Class} {v : Value}
    {a : AttributeDescriptor} (hx : w.inst? i = some x) (hc : w.class? x.classId = some c)
    (ha : c.descriptor.attributes[n]? = some a) (hv : x.attrValues[n]? = some v) :
    Admissible a.types v := by
  obtain ⟨y, d, b, u, hy, hd, hb, hu, hadm⟩ := h
  obtain rfl := Option.some.inj (hx.symm.trans hy)
  obtain rfl := Option.some.inj (hc.symm.trans hd)
  obtain rfl := Option.some.inj (ha.symm.trans hb)
  obtain rfl := Option.some.inj (hv.symm.trans hu)
  exact hadm

/-- The values of an instance are as before, or one has been replaced by what is admissible. -/
structure Restored (w : World) (x x' : Instance) : Prop where
  classId : x'.classId = x.classId
  built : x.built = true → x'.built = true
  values : x'.values = x.values ∨ ∃ (n : Nat) (v : Value), x'.values = x.values.set n v ∧
    ∀ c p types, w.class? x.classId = some c → c.descriptor.properties[n]? = some p →
      p.kind = .primitive types → Admissible types v
  attrs : x'.attrValues = x.attrValues ∨ ∃ (n : Nat) (v : Value), x'.attrValues = x.attrValues.set n v ∧
    ∀ c a, w.class? x.classId = some c → c.descriptor.attributes[n]? = some a → Admissible a.types v

theorem restored_of_same {x x' : Instance} (hid : x'.classId = x.classId)
    (hbuilt : x.built = true → x'.built = true) (hvalues : x'.values = x.values)
    (hattrs : x'.attrValues = x.attrValues) : w.Restored x x' :=
  ⟨hid, hbuilt, Or.inl hvalues, Or.inl hattrs⟩

theorem exists_restored_modifyInstance {x : Instance} (hx : w.inst? i = some x) (j : InstanceId)
    {f : Instance → Instance} (hf : j = i → w.Restored x (f x)) :
    ∃ x', (w.modifyInstance j f).inst? i = some x' ∧ w.Restored x x' := by
  by_cases hj : j = i
  · subst hj
    exact ⟨f x, by rw [inst?_modifyInstance_self, hx]; rfl, hf rfl⟩
  · exact ⟨x, by rw [inst?_modifyInstance_of_ne _ _ hj]; exact hx, restored_of_same rfl id rfl rfl⟩

/-- What a change does to an instance that is there. -/
theorem Step.restored (h : w.Step w') {x : Instance} (hx : w.inst? i = some x) :
    ∃ x', w'.inst? i = some x' ∧ w.Restored x x' := by
  have hsame : w'.instances = w.instances → ∃ x', w'.inst? i = some x' ∧ w.Restored x x' := fun hi =>
    ⟨x, by unfold inst?; rw [hi]; exact hx, restored_of_same rfl id rfl rfl⟩
  cases h with
  | quiet screen classes instances collections spaces => exact hsame instances
  | moves f hf => exact hsame rfl
  | mark hr hm a ha => exact hsame rfl
  | space n f hf => exact hsame rfl
  | addSpace delay ns hq => exact hsame rfl
  | addClass c hc hq => exact hsame rfl
  | contents k f hf hitems => exact hsame rfl
  | flush q => exact hsame rfl
  | record j f hf =>
    obtain ⟨hid, -, hvalues, hattrs, hbuilt⟩ := hf x
    exact exists_restored_modifyInstance hx j fun _ => restored_of_same hid (hbuilt ▸ id) hvalues hattrs
  | finish j h hroot => exact exists_restored_modifyInstance hx j fun _ => restored_of_same rfl (fun _ => rfl) rfl rfl
  | create hc h =>
    obtain ⟨-, view, b, b', hjoins⟩ := createInstance_joins h
    refine ⟨x, (hjoins.other i ?_).trans hx, restored_of_same rfl id rfl rfl⟩
    rintro rfl
    rw [hjoins.fresh] at hx
    cases hx
  | @write j y c view n p types v hy hc hview hp hkind hv =>
    have hx' : (w.rendered c view.sites[n]? (.property p.name) v.outputText).inst? i = some x := by
      rw [inst?_rendered, hx]
    by_cases hj : j = i
    · subst hj
      obtain rfl := Option.some.inj (hy.symm.trans hx)
      refine ⟨{ y with values := y.values.set n v }, ?_, rfl, id, Or.inr ⟨n, v, rfl, ?_⟩, Or.inl rfl⟩
      · unfold storeValue
        rw [inst?_modifyInstance_self, hx']
        rfl
      · intro c' p' types' hc' hp' hkind'
        obtain rfl := Option.some.inj (hc.symm.trans hc')
        obtain rfl := Option.some.inj (hp.symm.trans hp')
        obtain rfl := PropertyKind.primitive.inj (hkind.symm.trans hkind')
        exact hv
    · refine ⟨x, ?_, restored_of_same rfl id rfl rfl⟩
      unfold storeValue
      rw [inst?_modifyInstance_of_ne _ _ hj, hx']
  | @slot j y c n p element v hy hc hp hkind hv =>
    refine exists_restored_modifyInstance hx j fun hj => ⟨rfl, id, Or.inr ⟨n, v, rfl, ?_⟩, Or.inl rfl⟩
    subst hj
    obtain rfl := Option.some.inj (hy.symm.trans hx)
    intro c' p' types hc' hp' hkind'
    obtain rfl := Option.some.inj (hc.symm.trans hc')
    obtain rfl := Option.some.inj (hp.symm.trans hp')
    rw [hkind] at hkind'
    cases hkind'
  | @attr j y c view n a v hy hc hview ha hv =>
    have hx' : ((w.renderIn c (view.attributeNodes[n]?.getD []) (.attr a.name) v.outputText).mapForest
        fun f => f.setAttr view.root (dataName a.name) v.outputText).inst? i = some x := hx
    by_cases hj : j = i
    · subst hj
      obtain rfl := Option.some.inj (hy.symm.trans hx)
      refine ⟨{ y with attrValues := y.attrValues.set n v }, ?_, rfl, id, Or.inl rfl, Or.inr ⟨n, v, rfl, ?_⟩⟩
      · unfold storeAttr
        rw [inst?_modifyInstance_self, hx']
        rfl
      · intro c' a' hc' ha'
        obtain rfl := Option.some.inj (hc.symm.trans hc')
        obtain rfl := Option.some.inj (ha.symm.trans ha')
        exact hv
    · refine ⟨x, ?_, restored_of_same rfl id rfl rfl⟩
      unfold storeAttr
      rw [inst?_modifyInstance_of_ne _ _ hj, hx']

theorem Step.fitsAt (h : w.Step w') {n : Nat} (hfits : w.FitsAt i n) : w'.FitsAt i n := by
  obtain ⟨x, c, p, v, hx, hc, hp, hv, hadm⟩ := hfits
  obtain ⟨x', hx', hid, -, hvalues, -⟩ := h.restored hx
  have hc' : w'.class? x'.classId = some c := hid ▸ h.grows.cls _ c hc
  rcases hvalues with hvalues | ⟨m, u, hvalues, hu⟩
  · exact ⟨x', c, p, v, hx', hc', hp, hvalues ▸ hv, hadm⟩
  · by_cases hmn : m = n
    · subst hmn
      refine ⟨x', c, p, u, hx', hc', hp, ?_, fun types hk => hu c p types hc hp hk⟩
      rw [hvalues, List.getElem?_set_self (List.getElem?_eq_some_iff.1 hv).1]
    · refine ⟨x', c, p, v, hx', hc', hp, ?_, hadm⟩
      rw [hvalues, List.getElem?_set_ne hmn, hv]

theorem Step.attrFitsAt (h : w.Step w') {n : Nat} (hfits : w.AttrFitsAt i n) : w'.AttrFitsAt i n := by
  obtain ⟨x, c, a, v, hx, hc, ha, hv, hadm⟩ := hfits
  obtain ⟨x', hx', hid, -, -, hattrs⟩ := h.restored hx
  have hc' : w'.class? x'.classId = some c := hid ▸ h.grows.cls _ c hc
  rcases hattrs with hattrs | ⟨m, u, hattrs, hu⟩
  · exact ⟨x', c, a, v, hx', hc', ha, hattrs ▸ hv, hadm⟩
  · by_cases hmn : m = n
    · subst hmn
      refine ⟨x', c, a, u, hx', hc', ha, ?_, hu c a hc ha⟩
      rw [hattrs, List.getElem?_set_self (List.getElem?_eq_some_iff.1 hv).1]
    · refine ⟨x', c, a, v, hx', hc', ha, ?_, hadm⟩
      rw [hattrs, List.getElem?_set_ne hmn, hv]

/-- The construction of an instance has ended well. -/
def HasBuilt (w : World) (i : InstanceId) : Prop := ∃ x, w.inst? i = some x ∧ x.built = true

theorem hasBuilt_iff_map : w.HasBuilt i ↔ (w.inst? i).map (·.built) = some true :=
  Option.map_eq_some_iff.symm

theorem Step.hasBuilt (h : w.Step w') (hb : w.HasBuilt i) : w'.HasBuilt i := by
  obtain ⟨x, hx, hbuilt⟩ := hb
  obtain ⟨x', hx', hr⟩ := h.restored hx
  exact ⟨x', hx', hr.built hbuilt⟩

theorem Steps.hasBuilt (h : w.Steps w') (hb : w.HasBuilt i) : w'.HasBuilt i := by
  induction h with
  | refl => exact hb
  | tail _ hstep ih => exact hstep.hasBuilt ih

theorem Steps.fitsAt (h : w.Steps w') {n : Nat} (hfits : w.FitsAt i n) : w'.FitsAt i n := by
  induction h with
  | refl => exact hfits
  | tail _ hstep ih => exact hstep.fitsAt ih

theorem Steps.attrFitsAt (h : w.Steps w') {n : Nat} (hfits : w.AttrFitsAt i n) : w'.AttrFitsAt i n := by
  induction h with
  | refl => exact hfits
  | tail _ hstep ih => exact hstep.attrFitsAt ih

/-! ## Runs that proceed by elementary changes -/

/-- A sound world leads to another by elementary changes. -/
def Proceeds (w w' : World) : Prop := w.Sound → w.Steps w'

instance : IsPreorder World Proceeds where
  refl _ _ := .refl
  trans _ _ _ h h' hw := (h hw).trans (h' ((h hw).sound hw))

end World

end ReactiveView
