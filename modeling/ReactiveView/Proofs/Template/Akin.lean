import ReactiveView.Proofs.Template.Redeclaring

/-!
# Drafts that settle alike

Two drafts of a class can come to the same class although they are not equal: the properties may stand in another
order, the types of a property may be listed in another order, and the default of a property that nothing declares
may have been left at null or may already be the one of its types. Such drafts are *akin* (`Draft.Akin`), and so are
their properties (`PropertyDescriptor.Akin`).

Settling makes up the difference. `checkProperty_akin` says that akin properties are accepted in both drafts or in
neither, and that they have the same kind, default, binding and passthrough afterwards (`PropertyDescriptor.Alike`);
`checkProperties_akin` says so for whole drafts.
-/

set_option autoImplicit false

namespace ReactiveView

/-! ## Lists of types as sets -/

/-- Two declarations of types list the same ones, or there is none in either. -/
def TypesAlike : Option (List PrimitiveType) → Option (List PrimitiveType) → Prop :=
  Option.Rel fun ts us => ∀ t, t ∈ ts ↔ t ∈ us

variable {ts us : List PrimitiveType}

theorem sameTypes_iff : sameTypes ts us = true ↔ ∀ t, t ∈ ts ↔ t ∈ us := by
  simp only [sameTypes, Bool.and_eq_true, List.all_eq_true, List.contains_iff_mem]
  exact ⟨fun h t => ⟨h.1 t, h.2 t⟩, fun h => ⟨fun t => (h t).1, fun t => (h t).2⟩⟩

theorem contains_congr (h : ∀ t, t ∈ ts ↔ t ∈ us) (t : PrimitiveType) : us.contains t = ts.contains t := by
  rw [Bool.eq_iff_iff, List.contains_iff_mem, List.contains_iff_mem, h t]

theorem any_congr (h : ∀ t, t ∈ ts ↔ t ∈ us) (p : PrimitiveType → Bool) : us.any p = ts.any p := by
  rw [Bool.eq_iff_iff, List.any_eq_true, List.any_eq_true]
  simp only [h]

/-- The default of types depends on which types there are. -/
theorem defaultFor_congr {types types' : Option (List PrimitiveType)} (h : TypesAlike types types') :
    defaultFor types' = defaultFor types := by
  cases h with
  | none => rfl
  | some h =>
    unfold defaultFor
    simp only [contains_congr h, any_congr h]

/-- Where null is a value of the types, it is their default. -/
theorem defaultFor_of_acceptsValue_null (h : acceptsValue ts .null = true) : defaultFor (some ts) = .null := by
  obtain ⟨t, ht, haccepts⟩ := List.any_eq_true.1 h
  have hnull : t = .null := by
    cases t with
    | null => rfl
    | _ => cases haccepts
  unfold defaultFor
  rw [hnull] at ht
  simp only [List.contains_iff_mem.2 ht, if_true]

/-! ## Properties -/

/-- Two kinds are the same, the declared types taken as sets. -/
inductive PropertyKind.Alike : PropertyKind → PropertyKind → Prop where
  | primitive {types types' : Option (List PrimitiveType)} (h : TypesAlike types types') :
    Alike (.primitive types) (.primitive types')
  | slot (element : ElementType) : Alike (.slot element) (.slot element)
  | sequence (element : ElementType) : Alike (.sequence element) (.sequence element)

namespace PropertyKind.Alike

variable {k l m : PropertyKind}

theorem refl : ∀ k : PropertyKind, k.Alike k
  | .primitive none => .primitive .none
  | .primitive (some _) => .primitive (.some fun _ => Iff.rfl)
  | .slot element => .slot element
  | .sequence element => .sequence element

theorem symm (h : k.Alike l) : l.Alike k := by
  cases h with
  | slot element => exact .slot element
  | sequence element => exact .sequence element
  | primitive h =>
    cases h with
    | none => exact .primitive .none
    | some h => exact .primitive (.some fun t => (h t).symm)

theorem trans (h : k.Alike l) (h' : l.Alike m) : k.Alike m := by
  cases h with
  | slot element => exact h'
  | sequence element => exact h'
  | primitive h =>
    cases h with
    | none => exact h'
    | some h =>
      cases h' with
      | primitive h' =>
        cases h' with
        | some h' => exact .primitive (.some fun t => (h t).trans (h' t))

theorem exists_eq_primitive {types : Option (List PrimitiveType)} (h : (PropertyKind.primitive types).Alike k) :
    ∃ types', k = PropertyKind.primitive types' ∧ TypesAlike types types' := by
  cases h with
  | primitive h => exact ⟨_, rfl, h⟩

theorem isPrimitive (h : k.Alike l) : l.isPrimitive = k.isPrimitive := by
  cases h <;> rfl

theorem types? (h : k.Alike l) : TypesAlike k.types? l.types? := by
  cases h with
  | slot element => exact .none
  | sequence element => exact .none
  | primitive h => exact h

end PropertyKind.Alike

namespace PropertyDescriptor

/-- Two properties are the same, the declared types taken as sets. -/
structure Alike (p q : PropertyDescriptor) : Prop where
  name : q.name = p.name
  kind : p.kind.Alike q.kind
  default : q.default = p.default
  binding : q.binding = p.binding
  passthrough : q.passthrough = p.passthrough

/-- The default of a property is null, or the one of its types. -/
def Implied (p : PropertyDescriptor) : Prop :=
  p.default = .null ∨ ∃ types, p.kind = .primitive types ∧ p.default = defaultFor types

/-- Two properties of drafts that settle alike; their defaults count only if they are not `implicit`. -/
structure Akin (implicit : Prop) (p q : PropertyDescriptor) : Prop where
  name : q.name = p.name
  kind : p.kind.Alike q.kind
  binding : q.binding = p.binding
  passthrough : q.passthrough = p.passthrough
  hasSite : q.hasSite = p.hasSite
  default : q.default = p.default ∨ implicit ∧ p.Implied ∧ q.Implied

variable {implicit : Prop} {p q s : PropertyDescriptor}

/-- Without declared types the implied default is null. -/
theorem Implied.eq_null (h : p.Implied) (htypes : p.kind.types? = none) : p.default = .null := by
  rcases h with h | ⟨types, hkind, hdefault⟩
  · exact h
  · rw [hkind] at htypes
    obtain rfl : types = none := htypes
    exact hdefault

theorem Implied.congr (h : p.Implied) (hkind : p.kind.Alike q.kind) (hdefault : q.default = p.default) :
    q.Implied := by
  rcases h with h | ⟨types, htypes, h⟩
  · exact .inl (hdefault.trans h)
  · rw [htypes] at hkind
    obtain ⟨types', hq, hsame⟩ := hkind.exists_eq_primitive
    exact .inr ⟨types', hq, by rw [hdefault, h, defaultFor_congr hsame]⟩

theorem Alike.refl (p : PropertyDescriptor) : p.Alike p := ⟨rfl, .refl _, rfl, rfl, rfl⟩

namespace Akin

theorem refl (implicit : Prop) (p : PropertyDescriptor) : p.Akin implicit p :=
  ⟨rfl, .refl _, rfl, rfl, rfl, .inl rfl⟩

theorem symm (h : p.Akin implicit q) : q.Akin implicit p where
  name := h.name.symm
  kind := h.kind.symm
  binding := h.binding.symm
  passthrough := h.passthrough.symm
  hasSite := h.hasSite.symm
  default := h.default.imp Eq.symm fun ⟨hi, hp, hq⟩ => ⟨hi, hq, hp⟩

theorem trans (h : p.Akin implicit q) (h' : q.Akin implicit s) : p.Akin implicit s where
  name := h'.name.trans h.name
  kind := h.kind.trans h'.kind
  binding := h'.binding.trans h.binding
  passthrough := h'.passthrough.trans h.passthrough
  hasSite := h'.hasSite.trans h.hasSite
  default := by
    rcases h.default with heq | ⟨hi, hp, hq⟩
    · rcases h'.default with heq' | ⟨hi, hq, hs⟩
      · exact .inl (heq'.trans heq)
      · exact .inr ⟨hi, hq.congr h.kind.symm heq.symm, hs⟩
    · rcases h'.default with heq' | ⟨-, -, hs⟩
      · exact .inr ⟨hi, hp, hq.congr h'.kind heq'⟩
      · exact .inr ⟨hi, hp, hs⟩

/-- Akin properties without primitive values are equal. -/
theorem eq (h : p.Akin implicit q) (hprim : p.kind.isPrimitive = false) : q = p := by
  obtain ⟨hname, hkind, hbinding, hpass, hsite, hdefault⟩ := h
  obtain ⟨name, kind, default, binding, passthrough, hasSite⟩ := p
  obtain ⟨name', kind', default', binding', passthrough', hasSite'⟩ := q
  obtain rfl : name' = name := hname
  obtain rfl : binding' = binding := hbinding
  obtain rfl : passthrough' = passthrough := hpass
  obtain rfl : hasSite' = hasSite := hsite
  have heq (htypes : kind.types? = none) (htypes' : kind'.types? = none) : default' = default := by
    rcases hdefault with heq | ⟨-, hp, hq⟩
    · exact heq
    · exact (hq.eq_null htypes').trans (hp.eq_null htypes).symm
  cases hkind with
  | primitive _ => cases hprim
  | slot element => rw [heq rfl rfl]
  | sequence element => rw [heq rfl rfl]

end Akin

end PropertyDescriptor

/-! ## Answers that are related -/

section Rel

variable {α β γ δ : Type} {R : α → β → Prop} {S : γ → δ → Prop}

theorem rel_refl {R : α → α → Prop} (h : ∀ a, R a a) : ∀ x : Option α, Option.Rel R x x
  | none => .none
  | some a => .some (h a)

theorem rel_symm {R : α → α → Prop} (h : ∀ a b, R a b → R b a) {x y : Option α} (hxy : Option.Rel R x y) :
    Option.Rel R y x := by
  cases hxy with
  | none => exact .none
  | some hab => exact .some (h _ _ hab)

theorem rel_trans {R : α → α → Prop} (h : ∀ a b c, R a b → R b c → R a c) {x y z : Option α}
    (hxy : Option.Rel R x y) (hyz : Option.Rel R y z) : Option.Rel R x z := by
  cases hxy with
  | none => exact hyz
  | some hab =>
    cases hyz with
    | some hbc => exact .some (h _ _ _ hab hbc)

theorem rel_bind {x : Option α} {y : Option β} {f : α → Option γ} {g : β → Option δ} (h : Option.Rel R x y)
    (hfg : ∀ a b, x = some a → R a b → Option.Rel S (f a) (g b)) : Option.Rel S (x.bind f) (y.bind g) := by
  cases h with
  | none => exact .none
  | some hab => exact hfg _ _ rfl hab

theorem rel_map {x : Option α} {y : Option β} {f : α → γ} {g : β → δ} (h : Option.Rel R x y)
    (hfg : ∀ a b, x = some a → R a b → S (f a) (g b)) : Option.Rel S (x.map f) (y.map g) := by
  cases h with
  | none => exact .none
  | some hab => exact .some (hfg _ _ rfl hab)

end Rel

/-! ## Drafts -/

namespace Template

open PropertyDescriptor (Alike Implied)

namespace Draft

/-- Nothing declares the property with a name. -/
def Implicit (d : Draft) (name : String) : Prop := name ∉ d.ownDeclarations ∧ name ∉ d.ownDefaults

/-- What is declared is known. -/
def Grounded (d : Draft) : Prop := ∀ name, d.property? name = none → d.Implicit name

/-- Two drafts that settle alike. -/
structure Akin (d e : Draft) : Prop where
  property? : ∀ name, Option.Rel (PropertyDescriptor.Akin (d.Implicit name)) (d.property? name) (e.property? name)
  attributes : e.attributes = d.attributes
  methods : e.methods = d.methods
  ownDefaults : e.ownDefaults = d.ownDefaults
  ownDeclarations : e.ownDeclarations = d.ownDeclarations
  exposeKeys : ∀ key, key ∈ d.exposeKeys ↔ key ∈ e.exposeKeys
  extensionPoint : e.extensionPoint.isSome = d.extensionPoint.isSome

namespace Akin

variable {d e f : Draft}

theorem implicit (h : d.Akin e) (name : String) : e.Implicit name ↔ d.Implicit name := by
  unfold Implicit
  rw [h.ownDefaults, h.ownDeclarations]

theorem refl (d : Draft) : d.Akin d :=
  ⟨fun _ => rel_refl (fun p => .refl _ p) _, rfl, rfl, rfl, rfl, fun _ => Iff.rfl, rfl⟩

theorem symm (h : d.Akin e) : e.Akin d where
  property? name := by
    rw [propext (h.implicit name)]
    exact rel_symm (fun _ _ h => h.symm) (h.property? name)
  attributes := h.attributes.symm
  methods := h.methods.symm
  ownDefaults := h.ownDefaults.symm
  ownDeclarations := h.ownDeclarations.symm
  exposeKeys key := (h.exposeKeys key).symm
  extensionPoint := h.extensionPoint.symm

theorem trans (h : d.Akin e) (h' : e.Akin f) : d.Akin f where
  property? name := by
    have hnext := h'.property? name
    rw [propext (h.implicit name)] at hnext
    exact rel_trans (fun _ _ _ h h' => h.trans h') (h.property? name) hnext
  attributes := h'.attributes.trans h.attributes
  methods := h'.methods.trans h.methods
  ownDefaults := h'.ownDefaults.trans h.ownDefaults
  ownDeclarations := h'.ownDeclarations.trans h.ownDeclarations
  exposeKeys key := (h.exposeKeys key).trans (h'.exposeKeys key)
  extensionPoint := h'.extensionPoint.trans h.extensionPoint

end Akin

end Draft

/-! ## Settling -/

variable {d e : Draft} {p q : PropertyDescriptor}

theorem checkDefault_congr {types types' : Option (List PrimitiveType)} (h : TypesAlike types types') (name : String)
    (v : Value) : checkDefault name v types' = checkDefault name v types := by
  cases h with
  | none => rfl
  | some h =>
    unfold checkDefault acceptsValue
    simp only [any_congr h]

/-- An implied default settles to the one of the types. -/
theorem settleDefault_of_implied {types : Option (List PrimitiveType)} (himplicit : d.Implicit p.name)
    (h : p.Implied) (hkind : p.kind = .primitive types) (hpass : p.passthrough = none) :
    settleDefault d p = .ok { p with default := defaultFor types } := by
  obtain ⟨name, kind, default, binding, passthrough, hasSite⟩ := p
  obtain rfl : kind = .primitive types := hkind
  obtain rfl : passthrough = none := hpass
  have hdefaults : d.ownDefaults.contains name = false :=
    Bool.eq_false_iff.2 (mt List.contains_iff_mem.1 himplicit.2)
  have hdeclarations : d.ownDeclarations.contains name = false :=
    Bool.eq_false_iff.2 (mt List.contains_iff_mem.1 himplicit.1)
  have hprim : default.isPrimitive = true := by
    rcases h with rfl | ⟨types', -, rfl⟩
    · rfl
    · exact isPrimitive_defaultFor types'
  unfold settleDefault
  simp only [hdefaults, hdeclarations, hprim, Option.isSome_none, Bool.false_eq_true, Bool.not_true, Bool.or_self,
    if_false]
  cases types with
  | none =>
    obtain rfl : default = .null := h.eq_null rfl
    rfl
  | some ts =>
    dsimp only
    split
    · next haccepts =>
      -- a default that is kept is the one of the types: null only where it is, since it is accepted
      rcases h with rfl | ⟨types', hkind, rfl⟩
      · rw [defaultFor_of_acceptsValue_null haccepts]
      · rw [PropertyKind.primitive.inj hkind]
    · rfl

theorem settleDefault_akin_of_primitive {types types' : Option (List PrimitiveType)} (h : d.Akin e)
    (hpq : p.Akin (d.Implicit p.name) q) (hp : p.kind = .primitive types) (hq : q.kind = .primitive types')
    (hsame : TypesAlike types types') :
    Option.Rel Alike (settleDefault d p).toOption (settleDefault e q).toOption := by
  obtain ⟨hname, -, hbinding, hpass, -, hdefault⟩ := hpq
  obtain ⟨name, kind, default, binding, passthrough, hasSite⟩ := p
  obtain ⟨name', kind', default', binding', passthrough', hasSite'⟩ := q
  obtain rfl : kind = .primitive types := hp
  obtain rfl : kind' = .primitive types' := hq
  obtain rfl : name' = name := hname
  obtain rfl : binding' = binding := hbinding
  obtain rfl : passthrough' = passthrough := hpass
  have halike (v : Value) : Alike ⟨name', .primitive types, v, binding', passthrough', hasSite⟩
      ⟨name', .primitive types', v, binding', passthrough', hasSite'⟩ :=
    ⟨rfl, .primitive hsame, rfl, rfl, rfl⟩
  cases passthrough' with
  | some key => exact .none -- a passthrough is for elements only
  | none =>
    rcases hdefault with heq | ⟨hi, himplied, himplied'⟩
    · -- one default, which both lists of types accept or refuse
      obtain rfl : default' = default := heq
      unfold settleDefault
      dsimp only
      rw [h.ownDefaults, h.ownDeclarations, checkDefault_congr hsame, defaultFor_congr hsame]
      simp only [Option.isSome_none, Bool.false_eq_true, if_false]
      split
      · cases checkDefault name' default' types with
        | error e => exact .none
        | ok _ => exact .some (halike _)
      · split
        · exact .some (halike _)
        · cases hsame with
          | none => exact .some (halike _)
          | some hsame =>
            unfold acceptsValue
            simp only [any_congr hsame]
            split
            · exact .some (halike _)
            · exact .some (halike _)
    · -- two defaults, of which nothing is left
      rw [settleDefault_of_implied hi himplied rfl rfl,
        settleDefault_of_implied ((h.implicit name').2 hi) himplied' rfl rfl, defaultFor_congr hsame]
      exact .some (halike _)

/-- What an element settles to does not depend on the draft. -/
theorem settleDefault_of_not_primitive (h : p.kind.isPrimitive = false) : settleDefault e p = settleDefault d p := by
  unfold settleDefault
  split
  · next types hkind =>
    rw [hkind] at h
    cases h
  · rfl
  · rfl

/-- Akin properties settle alike. -/
theorem settleDefault_akin (h : d.Akin e) (hpq : p.Akin (d.Implicit p.name) q) :
    Option.Rel Alike (settleDefault d p).toOption (settleDefault e q).toOption := by
  cases hprim : p.kind.isPrimitive with
  | false =>
    rw [hpq.eq hprim, settleDefault_of_not_primitive (d := d) (e := e) hprim]
    exact rel_refl .refl _
  | true =>
    have hsame := hpq.kind
    cases hkind : p.kind with
    | primitive types =>
      rw [hkind] at hsame
      obtain ⟨types', hq, hsame⟩ := hsame.exists_eq_primitive
      exact settleDefault_akin_of_primitive h hpq hkind hq hsame
    | _ =>
      rw [hkind] at hprim
      cases hprim

/-- What a binding reads is there in akin drafts alike. -/
theorem checkReads_akin (h : d.Akin e) (name : String) (rs : List String) :
    (checkReads e.properties name rs).toOption = (checkReads d.properties name rs).toOption := by
  induction rs with
  | nil => rfl
  | cons dependency rest ih =>
    have hproperty := h.property? dependency
    unfold Draft.property? at hproperty
    unfold checkReads
    split
    · rfl
    · generalize d.properties.find? (fun p => p.name == dependency) = x at hproperty
      generalize e.properties.find? (fun p => p.name == dependency) = y at hproperty
      cases hproperty with
      | none => rfl
      | some hpq =>
        dsimp only
        rw [hpq.kind.isPrimitive]
        split
        · exact ih
        · rfl

theorem checkBinding_akin (h : d.Akin e) (hpq : p.Alike q) :
    (checkBinding e.properties q).toOption = (checkBinding d.properties p).toOption := by
  unfold checkBinding
  rw [hpq.binding]
  cases p.binding with
  | none => rfl
  | some f =>
    have hsame := hpq.kind.types?
    generalize p.kind.types? = types at hsame
    generalize q.kind.types? = types' at hsame
    dsimp only
    rw [hpq.name]
    cases hsame with
    | none => exact checkReads_akin h p.name f.properties
    | some hsame =>
      simp only [contains_congr hsame]
      split
      · exact checkReads_akin h p.name f.properties
      · rfl

/-- Akin properties are accepted alike, and alike afterwards. -/
theorem checkProperty_akin (h : d.Akin e) (hpq : p.Akin (d.Implicit p.name) q) :
    Option.Rel Alike (checkProperty d p).toOption (checkProperty e q).toOption := by
  have hmethod : e.isMethod q.name = d.isMethod p.name := by
    unfold Draft.isMethod
    rw [h.methods, hpq.name]
  have hsettle := settleDefault_akin h hpq
  unfold checkProperty
  rw [hmethod]
  split
  · exact .none
  · generalize settleDefault d p = x at hsettle
    generalize settleDefault e q = y at hsettle
    cases x with
    | error _ =>
      cases y with
      | error _ => exact .none
      | ok _ => cases hsettle
    | ok p' =>
      cases y with
      | error _ => cases hsettle
      | ok q' =>
        cases hsettle with
        | some hsettle =>
          have hbinding := checkBinding_akin h hsettle
          dsimp only
          generalize checkBinding d.properties p' = x at hbinding
          generalize checkBinding e.properties q' = y at hbinding
          cases x <;> cases y <;> cases hbinding
          · exact .none
          · exact .some hsettle

/-- Properties are accepted together when each one is. -/
theorem exists_checkEach_iff {ps : List PropertyDescriptor} :
    (∃ qs, checkEach d ps = .ok qs) ↔ ∀ p ∈ ps, ∃ q, checkProperty d p = .ok q := by
  induction ps with
  | nil => exact iff_of_true ⟨[], rfl⟩ nofun
  | cons p ps ih =>
    rw [List.forall_mem_cons, ← ih, checkEach]
    constructor
    · rintro ⟨qs, h⟩
      split at h
      · cases h
      · next q hq =>
        split at h
        · cases h
        · next qs' hqs => exact ⟨⟨q, hq⟩, qs', hqs⟩
    · rintro ⟨⟨q, hq⟩, qs, hqs⟩
      rw [hq, hqs]
      exact ⟨_, rfl⟩

theorem exists_checkEach_of_akin (h : d.Akin e) (he : e.Sound)
    (hd : ∃ ps, checkEach d d.properties = .ok ps) : ∃ qs, checkEach e e.properties = .ok qs := by
  refine exists_checkEach_iff.2 fun q hq => ?_
  -- the lists may have different orders, so the other property is found by its name
  have hproperty := h.property? q.name
  rw [he.property?_name hq] at hproperty
  cases hp : d.property? q.name with
  | none =>
    rw [hp] at hproperty
    cases hproperty
  | some p =>
    obtain ⟨hmem, hname⟩ := Draft.property?_some hp
    rw [hp, ← hname] at hproperty
    cases hproperty with
    | some hpq =>
      obtain ⟨p', hp'⟩ := exists_checkEach_iff.1 hd p hmem
      have hchecked := checkProperty_akin h hpq
      rw [hp'] at hchecked
      cases hq' : checkProperty e q with
      | error _ =>
        rw [hq'] at hchecked
        cases hchecked
      | ok q' => exact ⟨q', rfl⟩

/-- Under each name stands what stood there, settled. -/
theorem property?_checkEach {ps qs : List PropertyDescriptor} (h : checkEach d ps = .ok qs)
    (hps : ∀ p ∈ ps, p.Sound) (name : String) :
    Option.Rel (fun p q => settleDefault d p = .ok q) (ps.find? fun p => p.name == name)
      (qs.find? fun q => q.name == name) := by
  cases hp : ps.find? fun p => p.name == name with
  | some p =>
    obtain ⟨q, hq, hsettle⟩ := find?_checkEach h hps hp
    rw [hq]
    exact .some hsettle
  | none =>
    have hnone : (qs.find? fun q => q.name == name) = none := by
      refine List.find?_eq_none.2 fun q hq => ?_
      have hnames := (checkEach_spec h hps).1
      have hmem := List.mem_map_of_mem (f := fun q => (q.name, q.kind)) hq
      rw [hnames] at hmem
      obtain ⟨p, hpmem, heq⟩ := List.mem_map.1 hmem
      rw [← (Prod.mk.inj heq).1]
      exact List.find?_eq_none.1 hp p hpmem
    rw [hnone]
    exact .none

/-- Akin drafts are accepted alike, and every property is alike afterwards. -/
theorem checkProperties_akin (h : d.Akin e) (hd : d.Sound) (he : e.Sound) :
    Option.Rel (fun d' e' => ∀ name, Option.Rel Alike (d'.property? name) (e'.property? name))
      (checkProperties d).toOption (checkProperties e).toOption := by
  have hiff : (∃ ps, checkEach d d.properties = .ok ps) ↔ ∃ qs, checkEach e e.properties = .ok qs :=
    ⟨exists_checkEach_of_akin h he, exists_checkEach_of_akin h.symm hd⟩
  unfold checkProperties
  cases hps : checkEach d d.properties with
  | error _ =>
    cases hqs : checkEach e e.properties with
    | error _ => exact .none
    | ok qs =>
      obtain ⟨ps, hps'⟩ := hiff.2 ⟨qs, hqs⟩
      cases hps.symm.trans hps'
  | ok ps =>
    obtain ⟨qs, hqs⟩ := hiff.1 ⟨ps, hps⟩
    rw [hqs]
    refine .some fun name => ?_
    have hsettle (p q : PropertyDescriptor) (hp : d.property? name = some p) (hpq : p.Akin (d.Implicit name) q) :
        Option.Rel Alike (settleDefault d p).toOption (settleDefault e q).toOption :=
      settleDefault_akin h ((Draft.property?_some hp).2.symm ▸ hpq)
    have hproperty := h.property? name
    have hleft := property?_checkEach hps hd.sound name
    have hright := property?_checkEach hqs he.sound name
    unfold Draft.property? at hproperty hsettle ⊢
    dsimp only
    generalize d.properties.find? (fun p => p.name == name) = x at hproperty hleft hsettle
    generalize e.properties.find? (fun p => p.name == name) = y at hproperty hright
    generalize ps.find? (fun p => p.name == name) = x' at hleft ⊢
    generalize qs.find? (fun p => p.name == name) = y' at hright ⊢
    cases hproperty with
    | none =>
      cases hleft
      cases hright
      exact .none
    | some hpq =>
      have hpq := hsettle _ _ rfl hpq
      cases hleft with
      | some hp =>
        cases hright with
        | some hq =>
          rw [hp, hq] at hpq
          exact hpq

end Template

end ReactiveView
