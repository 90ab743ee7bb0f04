import ReactiveView.Proofs.Projection.Creation
import ReactiveView.Proofs.Projection.Intact

/-!
# Data that describes an instance

Data describes an instance of a class (`Describes`) when it is an object with an entry for each property: a
primitive value that the property admits and that survives a turn through data, null or a description for a
slot, a list of descriptions for an array property; and when every bound property follows what it reads.
Nothing is said of a world here, so what describes one instance can be given to another.

The projection of an instance describes it when the instance and everything below it is *faithful*
(`World.Faithful`): constructed, of exactly the class that the place declares, without passthrough keys,
without infinite numbers, with its bound properties up to date (`World.Orderly.describes`).
-/

set_option autoImplicit false

namespace ReactiveView

open Relation (TransGen ReflTransGen)

/-! ## Descriptions -/

/-- The data that a property of a kind can be written with, given what describes instances of a class. -/
inductive PropertyKind.Takes (R : ClassId → Json → Prop) : PropertyKind → Json → Prop where
  | primitive {types : Option (List PrimitiveType)} {j : Json} : Admissible types (.ofJson j) →
      (Value.ofJson j).plainJson = j → Takes R (.primitive types) j
  | none {element : ElementType} : Takes R (.slot element) .null
  | child {ref : ClassRef} {j : Json} : R ref.id j → Takes R (.slot (.ofClass ref)) j
  | items {element : ElementType} {js : List Json} : (∀ j ∈ js, ∃ ref, element = .ofClass ref ∧ R ref.id j) →
      Takes R (.sequence element) (.array js)

namespace Class

/-- The object with given data for the properties. -/
def dataOf (c : Class) (js : List Json) : Json := .object (Dict.ofList (c.descriptor.propertyNames.zip js))

/-- Data for the properties of an instance. -/
structure Depicts (c : Class) (R : ClassId → Json → Prop) (js : List Json) : Prop where
  concrete : c.descriptor.isAbstract = false
  creatable : c.descriptor.Creatable
  unkeyed : ∀ p ∈ c.descriptor.properties, p.passthrough = none
  length : js.length = c.descriptor.properties.length
  takes : ∀ (n : Nat) p j, c.descriptor.properties[n]? = some p → js[n]? = some j → p.kind.Takes R j
  follows : ∀ name, c.Follows (js.map Value.ofJson) name

end Class

/-- Data describes an instance of a class, at most so many levels deep. -/
def Describes (T : Table Class) : Nat → ClassId → Json → Prop
  | 0, _, _ => False
  | level + 1, id, j => ∃ c js, T.get? id.index = some c ∧ c.Depicts (Describes T level) js ∧ j = c.dataOf js

namespace World

variable {w : World} {i k : InstanceId}

/-! ## Levels -/

/-- Whatever stands below an instance in use, at any depth, is in use and stands below it in the layout. -/
theorem Orderly.transGen_under (hw : w.Orderly) (hi : w.isAlive i = true) (h : TransGen w.PartOf k i) :
    w.isAlive k = true ∧ TransGen (w.layout.Under w.occupants) k i := by
  induction h using TransGen.head_induction_on with
  | single hk => exact ⟨hw.isAlive_of_partOf hi hk, .single (hw.under_of_partOf hi hk)⟩
  | head hk _ ih => exact ⟨hw.isAlive_of_partOf ih.1 hk, .head (hw.under_of_partOf ih.1 hk) ih.2⟩

/-- Instances in use have levels, fewer than there are instances, that go down along what stands in them. -/
theorem Orderly.exists_level (hw : w.Orderly) : ∃ level : InstanceId → Nat,
    (∀ i, w.isAlive i = true → level i < w.instances.size) ∧
      ∀ i k, w.isAlive i = true → w.PartOf k i → level k < level i := by
  classical
  -- the level is the number of instances below
  have hacyclic (i : InstanceId) (hi : w.isAlive i = true) : ¬ TransGen w.PartOf i i := fun h =>
    hw.linked.not_under_self i (hw.transGen_under hi h).2
  refine ⟨fun i => ((Finset.range w.instances.size).filter fun n => TransGen w.PartOf ⟨n⟩ i).card,
    fun i hi => ?_, fun i k hi hk => ?_⟩
  · have hlt : ((Finset.range w.instances.size).filter fun n => TransGen w.PartOf ⟨n⟩ i) ⊂
        Finset.range w.instances.size := by
      refine Finset.ssubset_iff_subset_ne.2 ⟨Finset.filter_subset _ _, fun heq => ?_⟩
      have hmem : i.index ∈ Finset.range w.instances.size := Finset.mem_range.2 (lt_size_of_isAlive hi)
      rw [← heq] at hmem
      exact hacyclic i hi (Finset.mem_filter.1 hmem).2
    have hcard := Finset.card_lt_card hlt
    rwa [Finset.card_range] at hcard
  · have hkalive := hw.isAlive_of_partOf hi hk
    refine Finset.card_lt_card (Finset.ssubset_iff_of_subset ?_ |>.2 ⟨k.index, ?_, ?_⟩)
    · intro n hn
      obtain ⟨hlt, hbelow⟩ := Finset.mem_filter.1 hn
      exact Finset.mem_filter.2 ⟨hlt, hbelow.tail hk⟩
    · exact Finset.mem_filter.2 ⟨Finset.mem_range.2 (lt_size_of_isAlive hkalive), .single hk⟩
    · intro hmem
      exact hacyclic k hkalive (Finset.mem_filter.1 hmem).2

/-! ## Faithful instances -/

/-- An instance is of exactly the class that an element type names. -/
def IsExactly (w : World) (element : ElementType) (k : InstanceId) : Prop :=
  ∃ ref y, element = .ofClass ref ∧ w.inst? k = some y ∧ y.classId = ref.id

/-- A constructed instance whose data says all about it that an instance of its class can be made from. -/
structure Faithful (w : World) (i : InstanceId) : Prop where
  built : w.HasBuilt i
  concrete : ∀ c, w.classOf? i = some c → c.descriptor.isAbstract = false
  unkeyed : ∀ c, w.classOf? i = some c → ∀ p ∈ c.descriptor.properties, p.passthrough = none
  finite : ∀ x, w.inst? i = some x → ∀ v ∈ x.values, v.Finite
  follows : ∀ x c, w.inst? i = some x → w.class? x.classId = some c → ∀ name, c.Follows x.values name
  exact : ∀ x c (n : Nat) p v, w.inst? i = some x → w.class? x.classId = some c →
    c.descriptor.properties[n]? = some p → x.values[n]? = some v →
      (∀ element k, p.kind = .slot element → v = .inst k → w.IsExactly element k) ∧
        ∀ element d, p.kind = .sequence element → v = .coll d → ∀ k ∈ w.itemsOf d, w.IsExactly element k

/-! ## A test -/

/-- Tests whether an instance is of exactly the class that an element type names. -/
def checkExactly (w : World) : ElementType → InstanceId → Bool
  | .any, _ => false
  | .ofClass ref, k => (w.inst? k).any fun y => y.classId = ref.id

/-- Tests the value of a property of a kind. -/
def checkValue (w : World) : PropertyKind → Value → Bool
  | _, .number x => (Binary.ofFloat x).isFinite
  | .slot element, .inst k => w.checkExactly element k
  | .sequence element, .coll d => (w.itemsOf d).all (w.checkExactly element)
  | _, _ => true

/-- Tests whether a value is the text of a binding, if there is one. -/
def checkBinding (c : Class) (vals : List Value) : Option Format → Value → Bool
  | none, _ => true
  | some f, .text s => s = f.render (c.textIn vals)
  | some _, _ => false

/-- Tests whether an instance is faithful. -/
def checkFaithful (w : World) (i : InstanceId) : Bool :=
  match w.inst? i, w.classOf? i with
  | some x, some c => x.built && !c.descriptor.isAbstract && (c.descriptor.properties.zip x.values).all fun e =>
      e.1.passthrough.isNone && w.checkValue e.1.kind e.2 && checkBinding c x.values e.1.binding e.2
  | _, _ => false

theorem isExactly_of_check {element : ElementType} (h : w.checkExactly element k = true) :
    w.IsExactly element k := by
  cases element with
  | any => cases h
  | ofClass ref =>
    obtain ⟨y, hy, hid⟩ := (Option.any_eq_true _ _).1 h
    exact ⟨ref, y, rfl, hy, of_decide_eq_true hid⟩

/-- Instances that pass the test are faithful. -/
theorem Built.faithful_of_check (hw : w.Built) (h : w.checkFaithful i = true) : w.Faithful i := by
  unfold checkFaithful at h
  split at h
  · next x c hx hcls =>
    obtain ⟨y, hy, hc⟩ := exists_of_classOf? hcls
    obtain rfl := Option.some.inj (hx.symm.trans hy)
    obtain ⟨view, hf⟩ := hw.formed hx hc
    have hvalid := hw.compiled.valid hc
    rw [Bool.and_eq_true, Bool.and_eq_true, Bool.not_eq_true'] at h
    obtain ⟨⟨hbuilt, habstract⟩, hall⟩ := h
    -- each property with its value
    have heach (n : Nat) (p : PropertyDescriptor) (v : Value) (hp : c.descriptor.properties[n]? = some p)
        (hv : x.values[n]? = some v) : p.passthrough = none ∧ w.checkValue p.kind v = true ∧
          checkBinding c x.values p.binding v = true := by
      have htest := List.all_eq_true.1 hall (p, v) (List.mem_of_getElem? (List.getElem?_zip_eq_some.2 ⟨hp, hv⟩))
      rw [Bool.and_eq_true, Bool.and_eq_true, Option.isNone_iff_eq_none] at htest
      exact ⟨htest.1.1, htest.1.2, htest.2⟩
    have hvalue (p : PropertyDescriptor) (hp : p ∈ c.descriptor.properties) : ∃ (n : Nat) (v : Value),
        c.descriptor.properties[n]? = some p ∧ x.values[n]? = some v := by
      obtain ⟨n, hn⟩ := List.mem_iff_getElem?.1 hp
      exact ⟨n, _, hn, List.getElem?_eq_getElem (hf.values.symm ▸ (List.getElem?_eq_some_iff.1 hn).1)⟩
    have hsame (d : Class) (hd : w.classOf? i = some d) : d = c := Option.some.inj (hd.symm.trans hcls)
    refine ⟨⟨x, hx, hbuilt⟩, fun d hd => hsame d hd ▸ habstract, fun d hd p hp => ?_, fun y hy v hv => ?_,
      fun y d hy hd name f hbinding => ?_, fun y d n p v hy hd hp hv => ?_⟩
    · obtain rfl := hsame d hd
      obtain ⟨n, v, hn, hv⟩ := hvalue p hp
      exact (heach n p v hn hv).1
    · obtain rfl := Option.some.inj (hx.symm.trans hy)
      obtain ⟨n, hn⟩ := List.mem_iff_getElem?.1 hv
      obtain ⟨p, -, hp, -⟩ := hf.exists_fits hn
      have htest := (heach n p v hp hn).2.1
      cases v with
      | number z =>
        unfold checkValue at htest
        exact htest
      | _ => trivial
    · obtain rfl := Option.some.inj (hx.symm.trans hy)
      obtain rfl := Option.some.inj (hc.symm.trans hd)
      obtain ⟨p, hp, hpf⟩ := Option.bind_eq_some_iff.1 hbinding
      obtain ⟨hmem, rfl⟩ := Descriptor.property?_some hp
      obtain ⟨n, v, hn, hv⟩ := hvalue p hmem
      have htest := (heach n p v hn hv).2.2
      rw [hpf] at htest
      unfold Class.valueIn
      rw [hvalid.descriptor.propertyIndex?_name hn, Option.bind_some, hv]
      cases v with
      | text s => rw [of_decide_eq_true htest]
      | _ => cases htest
    · obtain rfl := Option.some.inj (hx.symm.trans hy)
      obtain rfl := Option.some.inj (hc.symm.trans hd)
      have htest := (heach n p v hp hv).2.1
      refine ⟨fun element k hk hvk => ?_, fun element k hk hvk j hj => ?_⟩
      · rw [hk, hvk] at htest
        exact isExactly_of_check htest
      · rw [hk, hvk] at htest
        exact isExactly_of_check (List.all_eq_true.1 htest j hj)
  · cases h

end World

/-- The values of another list by name. -/
theorem Class.valueIn_map (c : Class) (vals : List Value) (f : Value → Value) (name : String) :
    c.valueIn (vals.map f) name = (c.valueIn vals name).map f := by
  unfold valueIn
  cases c.descriptor.propertyIndex? name with
  | none => rfl
  | some n => exact List.getElem?_map

/-- A bound property goes on following when primitive values are replaced by values alike. -/
theorem Class.Valid.follows_map {c : Class} (hc : c.Valid) {vals : List Value} {name : String} {f : Value → Value}
    (h : c.Follows vals name) (htext : ∀ s, f (.text s) = .text s)
    (hf : ∀ (n : Nat) p v, c.descriptor.properties[n]? = some p → p.kind.isPrimitive = true →
      vals[n]? = some v → (f v).outputText = v.outputText) : c.Follows (vals.map f) name := by
  intro g hg
  obtain ⟨p, hp, hpg⟩ := Option.bind_eq_some_iff.1 hg
  obtain ⟨hmem, rfl⟩ := Descriptor.property?_some hp
  have hrender : g.render (c.textIn vals) = g.render (c.textIn (vals.map f)) := by
    refine Format.render_congr fun s hs => ?_
    obtain ⟨r, rfl⟩ := (hc.descriptor.sound p hmem).sources g hpg s hs
    have hreads : r ∈ p.reads := by
      unfold PropertyDescriptor.reads
      rw [hpg]
      exact Format.mem_properties hs
    obtain ⟨q, hq, rfl, hprim⟩ := hc.descriptor.reads_primitive p hmem r hreads
    obtain ⟨n, hn⟩ := List.mem_iff_getElem?.1 hq
    unfold textIn
    rw [Source.name, c.valueIn_map vals f q.name]
    have hvalue : c.valueIn vals q.name = vals[n]? := by
      unfold valueIn
      rw [hc.descriptor.propertyIndex?_name hn, Option.bind_some]
    cases hv : vals[n]? with
    | none =>
      rw [hvalue, hv]
      rfl
    | some v =>
      rw [hvalue, hv]
      exact (hf n q v hn hprim hv).symm
  rw [c.valueIn_map vals f p.name, h g hg, Option.map_some, htext, hrender]

namespace World

variable {w : World} {i k : InstanceId}

/-- The projection of a faithful instance describes it, if the projections of its children do. -/
theorem Faithful.depicts (h : w.Faithful i) (hw : w.Orderly) (hs : w.Sound) (hstocked : w.Stocked) {x : Instance}
    {c : Class} (hx : w.inst? i = some x) (hc : w.class? x.classId = some c) {R : ClassId → Json → Prop}
    {fuel : Nat} (hR : ∀ k y, w.PartOf k i → w.inst? k = some y → R y.classId (w.instanceData fuel k)) :
    c.Depicts R (x.values.map (w.valueData fuel)) := by
  have hclass : w.classOf? i = some c := by
    unfold classOf?
    rw [hx, Option.bind_some, hc]
  obtain ⟨view, hf⟩ := hw.formed hx hc
  have hvalid := hw.compiled.valid hc
  have hexact (element : ElementType) (k : InstanceId) (hk : w.IsExactly element k) (hpart : w.PartOf k i) :
      ∃ ref, element = .ofClass ref ∧ R ref.id (w.instanceData fuel k) := by
    obtain ⟨ref, y, helement, hy, hid⟩ := hk
    exact ⟨ref, helement, hid ▸ hR k y hpart hy⟩
  -- a primitive value comes back from its data alike
  have halike (n : Nat) (p : PropertyDescriptor) (v : Value) (hp : c.descriptor.properties[n]? = some p)
      (hprim : p.kind.isPrimitive = true) (hv : x.values[n]? = some v) :
      v.isPrimitive = true ∧ (Value.ofJson (w.valueData fuel v)).Alike v ∧ w.valueData fuel v = v.plainJson := by
    obtain ⟨q, site, hq, -, hfits⟩ := hf.exists_fits hv
    obtain rfl := Option.some.inj (hq.symm.trans hp)
    generalize q.kind = kind at hfits hprim
    cases hfits with
    | primitive hvprim =>
      have hplain : w.valueData fuel v = v.plainJson := Value.toJson_of_isPrimitive hvprim _ _
      rw [hplain]
      exact ⟨hvprim, Value.alike_ofJson_plainJson hvprim (h.finite x hx v (List.mem_of_getElem? hv)), rfl⟩
    | _ => cases hprim
  refine ⟨h.concrete c hclass, ?_, h.unkeyed c hclass, by rw [List.length_map, hf.values], ?_, fun name => ?_⟩
  · obtain ⟨d, hd, hcreatable⟩ := hstocked i x hx
    obtain rfl := Option.some.inj (hd.symm.trans hc)
    exact hcreatable
  · intro n p j hp hj
    rw [List.getElem?_map] at hj
    obtain ⟨v, hv, rfl⟩ := Option.map_eq_some_iff.1 hj
    have hmem := List.mem_of_getElem? hv
    obtain ⟨q, site, hq, -, hfits⟩ := hf.exists_fits hv
    obtain rfl := Option.some.inj (hq.symm.trans hp)
    obtain ⟨hslot, hsequence⟩ := h.exact x c n q v hx hc hp hv
    have htyped := (hs.fills hx hc).typed
    cases hkind : q.kind with
    | primitive types =>
      obtain ⟨hprim, halike', hplain⟩ := halike n q v hp (by rw [hkind]; rfl) hv
      obtain ⟨x', hx', hbuilt⟩ := h.built
      obtain rfl := Option.some.inj (hx'.symm.trans hx)
      obtain ⟨-, hadmissible⟩ := (htyped hbuilt).values n q types v hp hkind hv
      refine .primitive ⟨halike'.isPrimitive, fun ts hts => ?_⟩ (halike'.plainJson.trans hplain.symm)
      rw [← hadmissible ts hts]
      unfold acceptsValue
      exact congrArg (List.any ts) (funext halike'.accepts)
    | slot element =>
      rw [hkind] at hfits
      cases hfits with
      | empty => exact .none
      | @child _ _ _ k =>
        have hpart : w.PartOf k i := ⟨x, _, hx, hmem, .inl rfl⟩
        obtain ⟨ref, rfl, hdata⟩ := hexact element k (hslot element k hkind rfl) hpart
        exact .child hdata
    | sequence element =>
      rw [hkind] at hfits
      cases hfits with
      | @sequence _ d y hy howner helement =>
        refine .items fun j hj => ?_
        obtain ⟨k, hk, rfl⟩ := List.mem_map.1 hj
        exact hexact element k (hsequence element d hkind rfl k hk) ⟨x, _, hx, hmem, .inr ⟨d, rfl, hk⟩⟩
  · have hfollows := h.follows x c hx hc name
    rw [List.map_map]
    exact hvalid.follows_map hfollows (fun s => rfl) fun n p v hp hprim hv => (halike n p v hp hprim hv).2.1.outputText

/-- The projection of an instance that is faithful with all below it describes it. -/
theorem Orderly.describes (hw : w.Orderly) (hs : w.Sound) (hstocked : w.Stocked) (hi : w.isAlive i = true)
    (hfaithful : ∀ k, ReflTransGen w.PartOf k i → w.Faithful k) {x : Instance} (hx : w.inst? i = some x) :
    Describes w.classes w.instances.size x.classId (w.toData i) := by
  obtain ⟨level, hlt, hdown⟩ := hw.exists_level
  suffices hall : ∀ (n : Nat) (i : InstanceId) (x : Instance), level i < n → w.isAlive i = true →
      (∀ k, ReflTransGen w.PartOf k i → w.Faithful k) → w.inst? i = some x → ∀ fuel, n ≤ fuel →
        Describes w.classes n x.classId (w.instanceData fuel i) by
    exact hall _ i x (hlt i hi) hi hfaithful hx _ (Nat.le_succ _)
  intro n
  induction n with
  | zero => exact fun i x hlevel => absurd hlevel (Nat.not_lt_zero _)
  | succ n ih =>
    intro i x hlevel hi hfaithful hx fuel hfuel
    obtain ⟨fuel, rfl⟩ := Nat.exists_eq_add_of_le' (Nat.le_trans (Nat.le_add_left 1 n) hfuel)
    obtain ⟨c, view, hf⟩ := hw.inst i x hx
    refine ⟨c, _, hf.cls, (hfaithful i .refl).depicts hw hs hstocked hx hf.cls fun k y hk hy => ?_,
      instanceData_succ hx hf.cls fuel⟩
    refine ih k y ?_ (hw.isAlive_of_partOf hi hk) (fun l hl => hfaithful l (hl.tail hk)) hy fuel
      (Nat.le_of_succ_le_succ hfuel)
    exact Nat.lt_of_lt_of_le (hdown i k hi hk) (Nat.le_of_lt_succ hlevel)

end World

end ReactiveView
