import ReactiveView.Proofs.Template.Akin
import ReactiveView.Proofs.Template.Demands

/-!
# Meeting demands in another order

A substitution makes the property that it names, gives types to one that has none, or has to agree with what is known
of it. Which of these it does depends on what has come before. What comes of it all does not: two claims on one
property can change places (`Claim.on_comm`), claims on different properties have nothing to do with each other, and
so any two acts can change places (`Draft.perform_comm`). `meets_perm` is an induction on the permutation: demands can
be met in every order or in none, and the drafts that have met them are akin.
-/

set_option autoImplicit false

namespace ReactiveView.Template

open PropertyDescriptor (Akin Implied)

theorem sameTypes_congr {ts us : List PrimitiveType} (h : ∀ t, t ∈ ts ↔ t ∈ us) (ws : List PrimitiveType) :
    sameTypes us ws = sameTypes ts ws := by
  rw [Bool.eq_iff_iff, sameTypes_iff, sameTypes_iff]
  exact ⟨fun hus t => (h t).trans (hus t), fun hts t => (h t).symm.trans (hts t)⟩

/-! ## Claims on one property -/

namespace Claim

variable {implicit : Prop} {name : String} {p q : PropertyDescriptor} {k l : PropertyKind} {s : Bool}

/-- A claim keeps a kind, or gives one where no types are known. -/
theorem eq_or_types?_of_kind? {c : Claim} (h : c.kind? s k = some l) : l = k ∨ k.types? = none := by
  cases c with
  | primitive types =>
    cases k with
    | slot element => cases h
    | sequence element => cases h
    | primitive known =>
      cases known with
      | none => exact .inr rfl
      | some ks =>
        unfold kind? at h
        cases types with
        | none => exact .inl (Option.some.inj h).symm
        | some ts =>
          dsimp only at h
          split at h
          · exact .inl (Option.some.inj h).symm
          · cases h
  | element isArray type =>
    unfold kind? at h
    dsimp only at h
    split at h
    · cases h
    · next hfree => exact .inr (by simpa using hfree : s = false ∧ k.types? = none).2

theorem kind?_alike (c : Claim) (h : k.Alike l) :
    Option.Rel PropertyKind.Alike (c.kind? s k) (c.kind? s l) := by
  cases h with
  | slot element => exact rel_refl .refl _
  | sequence element => exact rel_refl .refl _
  | primitive h =>
    cases h with
    | none => exact rel_refl .refl _
    | some h =>
      unfold kind?
      cases c with
      | primitive types =>
        cases types with
        | none => exact .some (.primitive (.some h))
        | some ts =>
          dsimp only
          rw [sameTypes_congr h]
          split
          · exact .some (.primitive (.some h))
          · exact .none
      | element isArray type => exact rel_refl .refl _

/-- A property with the site of an element takes no other claim. -/
theorem kind?_siteKind (c : Claim) (isArray : Bool) (type : ElementType) :
    c.kind? true (siteKind isArray type) = none := by
  cases c <;> cases isArray <;> rfl

/-- The site of an element is the only one. -/
theorem kind?_element (c : Claim) (isArray : Bool) (type : ElementType) (s : Bool) (k : PropertyKind) :
    ((Claim.element isArray type).kind? s k).bind (c.kind? true) = none ∧
      (c.kind? s k).bind ((Claim.element isArray type).kind? true) = none := by
  constructor
  · refine Option.bind_eq_none_iff.2 fun l hl => ?_
    unfold kind? at hl
    dsimp only at hl
    split at hl
    · cases hl
    · rw [← Option.some.inj hl]
      exact kind?_siteKind c isArray type
  · exact Option.bind_eq_none_iff.2 fun _ _ => rfl

/-- A claim without types says nothing new of a primitive property. -/
theorem kind?_untyped (types known : Option (List PrimitiveType)) (s : Bool) :
    ((Claim.primitive types).kind? s (.primitive known)).bind ((Claim.primitive none).kind? true) =
      ((Claim.primitive none).kind? s (.primitive known)).bind ((Claim.primitive types).kind? true) := by
  cases known <;> cases types
  case some.some ks ts => cases hsame : sameTypes ks ts <;> simp [kind?, hsame]
  all_goals rfl

/-- Where types are declared, later ones have to agree with them. -/
theorem kind?_typed (ks ts us : List PrimitiveType) (s : Bool) :
    ((Claim.primitive (some ts)).kind? s (.primitive (some ks))).bind ((Claim.primitive (some us)).kind? true) =
      if sameTypes ks ts ∧ sameTypes ks us then some (.primitive (some ks)) else none := by
  cases hts : sameTypes ks ts <;> cases hus : sameTypes ks us <;> simp [kind?, hts, hus]

/-- Where no types are declared, the first ones declare them, and the second ones have to agree. -/
theorem kind?_untyped_typed (ts us : List PrimitiveType) (s : Bool) :
    ((Claim.primitive (some ts)).kind? s (.primitive none)).bind ((Claim.primitive (some us)).kind? true) =
      if sameTypes ts us then some (.primitive (some ts)) else none := rfl

/-- Two claims on one kind come to the same in either order. -/
theorem kind?_comm (c c' : Claim) (s : Bool) (k : PropertyKind) :
    Option.Rel PropertyKind.Alike ((c.kind? s k).bind (c'.kind? true)) ((c'.kind? s k).bind (c.kind? true)) := by
  cases c with
  | element isArray type =>
    obtain ⟨hfirst, hsecond⟩ := kind?_element c' isArray type s k
    rw [hfirst, hsecond]
    exact .none
  | primitive types =>
    cases c' with
    | element isArray type =>
      obtain ⟨hfirst, hsecond⟩ := kind?_element (.primitive types) isArray type s k
      rw [hfirst, hsecond]
      exact .none
    | primitive types' =>
      cases k with
      | slot element => exact .none
      | sequence element => exact .none
      | primitive known =>
        cases types with
        | none =>
          rw [kind?_untyped]
          exact rel_refl .refl _
        | some ts =>
          cases types' with
          | none =>
            rw [kind?_untyped]
            exact rel_refl .refl _
          | some us =>
            cases known with
            | none =>
              rw [kind?_untyped_typed, kind?_untyped_typed]
              by_cases h : ∀ t, t ∈ ts ↔ t ∈ us
              · rw [if_pos (sameTypes_iff.2 h), if_pos (sameTypes_iff.2 fun t => (h t).symm)]
                exact .some (.primitive (.some h))
              · rw [if_neg (mt sameTypes_iff.1 h), if_neg (mt sameTypes_iff.1 fun h' => h fun t => (h' t).symm)]
                exact .none
            | some ks =>
              rw [kind?_typed, kind?_typed]
              simp only [and_comm]
              exact rel_refl .refl _

/-! ### Properties -/

theorem implied_of_kind? {c : Claim} (h : p.Implied) (hkind : c.kind? p.hasSite p.kind = some k) :
    ({ p with kind := k, hasSite := true } : PropertyDescriptor).Implied := by
  rcases eq_or_types?_of_kind? hkind with rfl | htypes
  · exact h
  · exact .inl (h.eq_null htypes)

theorem on_name {c : Claim} {x : Option PropertyDescriptor} (h : c.on name x = some p)
    (hx : ∀ q, x = some q → q.name = name) : p.name = name := by
  cases x with
  | none =>
    obtain rfl := Option.some.inj h
    cases c <;> rfl
  | some q =>
    obtain ⟨kind, -, rfl⟩ := Option.map_eq_some_iff.1 h
    exact hx q rfl

theorem on_some_akin (c : Claim) (h : p.Akin implicit q) :
    Option.Rel (Akin implicit) (c.on name (some p)) (c.on name (some q)) := by
  have hkinds := c.kind?_alike (s := p.hasSite) h.kind
  have hleft := fun k (hk : c.kind? p.hasSite p.kind = some k) (hp : p.Implied) => implied_of_kind? hp hk
  have hright := fun k (hk : c.kind? q.hasSite q.kind = some k) (hq : q.Implied) => implied_of_kind? hq hk
  rw [h.hasSite] at hright
  unfold on
  dsimp only
  rw [h.hasSite]
  generalize c.kind? p.hasSite p.kind = x at hkinds hleft
  generalize c.kind? p.hasSite q.kind = y at hkinds hright
  cases hkinds with
  | none => exact .none
  | some hkind =>
    refine .some ⟨h.name, hkind, h.binding, h.passthrough, rfl, h.default.imp_right ?_⟩
    exact fun ⟨hi, hp, hq⟩ => ⟨hi, hleft _ rfl hp, hright _ rfl hq⟩

/-- A property that is not known is like one of which nothing is said. -/
theorem on_none_akin (c : Claim) (hi : implicit) :
    Option.Rel (Akin implicit) (c.on name none) (c.on name (some (.ofTypes name none))) := by
  cases c with
  | primitive types =>
    cases types with
    | none => exact .some (.refl _ _)
    | some ts => exact .some ⟨rfl, .refl _, rfl, rfl, rfl, .inr ⟨hi, .inr ⟨some ts, rfl, rfl⟩, .inl rfl⟩⟩
  | element isArray type => exact .some (.refl _ _)

/-- A claim fits akin properties alike, or fits a property that neither draft knows. -/
theorem on_akin (c : Claim) (name : String) {x y : Option PropertyDescriptor} (h : Option.Rel (Akin implicit) x y) :
    Option.Rel (Akin implicit) (c.on name x) (c.on name y) := by
  cases h with
  | none => exact rel_refl (.refl _) _
  | some h => exact c.on_some_akin h

theorem on_some_comm (c c' : Claim) (p : PropertyDescriptor) :
    Option.Rel (Akin implicit) ((c.on name (some p)).bind fun p => c'.on name (some p))
      ((c'.on name (some p)).bind fun p => c.on name (some p)) := by
  have hbind (c c' : Claim) : (c.on name (some p)).bind (fun p => c'.on name (some p)) =
      ((c.kind? p.hasSite p.kind).bind (c'.kind? true)).map fun kind => { p with kind := kind, hasSite := true } := by
    unfold on
    dsimp only
    cases c.kind? p.hasSite p.kind <;> rfl
  rw [hbind, hbind]
  exact rel_map (kind?_comm c c' p.hasSite p.kind) fun k l _ hkl => ⟨rfl, hkl, rfl, rfl, rfl, .inl rfl⟩

/-- Two claims on one property come to the same in either order. -/
theorem on_comm (c c' : Claim) (name : String) {x : Option PropertyDescriptor} (hx : x = none → implicit) :
    Option.Rel (Akin implicit) ((c.on name x).bind fun p => c'.on name (some p))
      ((c'.on name x).bind fun p => c.on name (some p)) := by
  cases x with
  | some p => exact on_some_comm c c' p
  | none =>
    -- nothing declares the property, and it may as well have been there without types
    have hfresh (c c' : Claim) : Option.Rel (Akin implicit) ((c.on name none).bind fun p => c'.on name (some p))
        ((c.on name (some (.ofTypes name none))).bind fun p => c'.on name (some p)) :=
      rel_bind (c.on_none_akin (hx rfl)) fun p q _ hpq => c'.on_some_akin hpq
    have htrans {x y z : Option PropertyDescriptor} (hxy : Option.Rel (Akin implicit) x y)
        (hyz : Option.Rel (Akin implicit) y z) : Option.Rel (Akin implicit) x z :=
      rel_trans (fun _ _ _ h h' => h.trans h') hxy hyz
    exact htrans (hfresh c c') (htrans (on_some_comm c c' _) (rel_symm (fun _ _ h => h.symm) (hfresh c' c)))

end Claim

/-! ## Acts on drafts -/

namespace Draft

variable {d d' e : Draft} {p q : PropertyDescriptor} {r : Reading}

theorem puts_put (d : Draft) (p : PropertyDescriptor) : d.Puts p (d.put p) := by
  unfold put
  cases h : d.property? p.name with
  | none => exact puts_addProperty h
  | some q => exact puts_setProperty h rfl

theorem put_eq (d : Draft) (p : PropertyDescriptor) : d.put p = { d with properties := (d.put p).properties } := by
  unfold put
  split <;> rfl

/-- What an act leaves of a draft. -/
structure Extends (d d' : Draft) : Prop where
  attributes : d'.attributes = d.attributes
  methods : d'.methods = d.methods
  ownDefaults : d'.ownDefaults = d.ownDefaults
  ownDeclarations : d'.ownDeclarations = d.ownDeclarations
  known : ∀ name, d'.property? name = none → d.property? name = none

theorem Extends.grounded (h : d.Extends d') (hd : d.Grounded) : d'.Grounded := by
  intro name hname
  unfold Implicit
  rw [h.ownDefaults, h.ownDeclarations]
  exact hd name (h.known name hname)

theorem extends_put (d : Draft) (p : PropertyDescriptor) : d.Extends (d.put p) := by
  have hput := d.puts_put p
  refine ⟨hput.attributes, hput.methods, ?_, ?_, fun name hname => ?_⟩
  · rw [put_eq]
  · rw [put_eq]
  · rw [hput.property?] at hname
    split at hname
    · cases hname
    · exact hname

theorem extends_perform {a : Act} (h : d.perform a = some d') : d.Extends d' := by
  cases a with
  | nothing =>
    obtain rfl := Option.some.inj h
    exact ⟨rfl, rfl, rfl, rfl, fun _ hname => hname⟩
  | claim name c =>
    obtain ⟨p, -, rfl⟩ := Option.map_eq_some_iff.1 h
    exact d.extends_put p
  | key key =>
    unfold perform at h
    dsimp only at h
    split at h
    · cases h
    · obtain rfl := Option.some.inj h
      exact ⟨rfl, rfl, rfl, rfl, fun _ hname => hname⟩
  | point =>
    unfold perform at h
    dsimp only at h
    split at h
    · cases h
    · obtain rfl := Option.some.inj h
      exact ⟨rfl, rfl, rfl, rfl, fun _ hname => hname⟩

theorem Extends.trans (h : d.Extends d') (h' : d'.Extends e) : d.Extends e where
  attributes := h'.attributes.trans h.attributes
  methods := h'.methods.trans h.methods
  ownDefaults := h'.ownDefaults.trans h.ownDefaults
  ownDeclarations := h'.ownDeclarations.trans h.ownDeclarations
  known name hname := h.known name (h'.known name hname)

/-- Drafts that have come from one draft, and have the same under every name, are akin. -/
theorem Extends.akin (h : d.Extends d') (h' : d.Extends e) (hproperty : ∀ name, e.property? name = d'.property? name)
    (hkeys : e.exposeKeys = d'.exposeKeys) (hpoint : e.extensionPoint = d'.extensionPoint) : d'.Akin e where
  property? name := by
    rw [hproperty]
    exact rel_refl (.refl _) _
  attributes := h'.attributes.trans h.attributes.symm
  methods := h'.methods.trans h.methods.symm
  ownDefaults := h'.ownDefaults.trans h.ownDefaults.symm
  ownDeclarations := h'.ownDeclarations.trans h.ownDeclarations.symm
  exposeKeys _ := by rw [hkeys]
  extensionPoint := by rw [hpoint]

/-- Of two properties with one name the second stays. -/
theorem put_put_akin (d : Draft) (h : p.name = q.name) : ((d.put p).put q).Akin (d.put q) := by
  have hp := d.puts_put p
  have hpq := (d.put p).puts_put q
  have hq := d.puts_put q
  refine ((d.extends_put p).trans ((d.put p).extends_put q)).akin (d.extends_put q) (fun name => ?_) ?_ ?_
  · rw [hq.property?, hpq.property?, hp.property?, h]
    split <;> rfl
  · rw [hq.exposeKeys, hpq.exposeKeys, hp.exposeKeys]
  · rw [hq.extensionPoint, hpq.extensionPoint, hp.extensionPoint]

/-- Properties with different names are put in any order. -/
theorem put_comm_akin (d : Draft) (h : p.name ≠ q.name) : ((d.put p).put q).Akin ((d.put q).put p) := by
  have hp := d.puts_put p
  have hpq := (d.put p).puts_put q
  have hq := d.puts_put q
  have hqp := (d.put q).puts_put p
  refine ((d.extends_put p).trans ((d.put p).extends_put q)).akin ((d.extends_put q).trans ((d.put q).extends_put p))
    (fun name => ?_) ?_ ?_
  · rw [hqp.property?, hpq.property?, hp.property?, hq.property?]
    by_cases hname : name = p.name
    · rw [if_pos hname, if_neg fun heq => h (hname.symm.trans heq), if_pos hname]
    · rw [if_neg hname, if_neg hname]
  · rw [hqp.exposeKeys, hq.exposeKeys, hpq.exposeKeys, hp.exposeKeys]
  · rw [hqp.extensionPoint, hq.extensionPoint, hpq.extensionPoint, hp.extensionPoint]

theorem Akin.put (h : d.Akin e) (hpq : p.Akin (d.Implicit p.name) q) : (d.put p).Akin (e.put q) := by
  have hp := d.puts_put p
  have hq := e.puts_put q
  have hd := d.extends_put p
  have he := e.extends_put q
  refine ⟨fun name => ?_, ?_, ?_, ?_, ?_, fun key => ?_, ?_⟩
  · have himplicit : (d.put p).Implicit name = d.Implicit name := by
      unfold Implicit
      rw [hd.ownDefaults, hd.ownDeclarations]
    rw [himplicit, hp.property?, hq.property?, hpq.name]
    split
    · next hname =>
      subst hname
      exact .some hpq
    · exact h.property? name
  · rw [hd.attributes, he.attributes, h.attributes]
  · rw [hd.methods, he.methods, h.methods]
  · rw [hd.ownDefaults, he.ownDefaults, h.ownDefaults]
  · rw [hd.ownDeclarations, he.ownDeclarations, h.ownDeclarations]
  · rw [hp.exposeKeys, hq.exposeKeys, h.exposeKeys]
  · rw [hp.extensionPoint, hq.extensionPoint, h.extensionPoint]

theorem property?_name {name : String} {x : Option PropertyDescriptor} (hx : x = d.property? name) :
    ∀ q, x = some q → q.name = name :=
  fun _ hq => (property?_some (hx.symm.trans hq)).2

/-- An act is possible in akin drafts alike, and they are akin afterwards. -/
theorem Akin.perform (h : d.Akin e) (a : Act) : Option.Rel Draft.Akin (d.perform a) (e.perform a) := by
  cases a with
  | nothing => exact .some h
  | claim name c =>
    have hclaim := c.on_akin name (h.property? name)
    have hname := fun p (hp : c.on name (d.property? name) = some p) => Claim.on_name hp (property?_name rfl)
    unfold Draft.perform
    dsimp only
    generalize c.on name (d.property? name) = x at hclaim hname
    generalize c.on name (e.property? name) = y at hclaim
    cases hclaim with
    | none => exact .none
    | some hpq => exact .some (h.put (by rwa [hname _ rfl]))
  | key key =>
    have hkey : e.exposeKeys.contains key = d.exposeKeys.contains key := by
      rw [Bool.eq_iff_iff, List.contains_iff_mem, List.contains_iff_mem, h.exposeKeys]
    unfold Draft.perform
    dsimp only
    rw [hkey]
    split
    · exact .none
    · refine .some ⟨h.property?, h.attributes, h.methods, h.ownDefaults, h.ownDeclarations, fun k => ?_,
        h.extensionPoint⟩
      rw [List.mem_append, List.mem_append, h.exposeKeys]
  | point =>
    unfold Draft.perform
    dsimp only
    rw [h.extensionPoint]
    split
    · exact .none
    · exact .some ⟨h.property?, h.attributes, h.methods, h.ownDefaults, h.ownDeclarations, h.exposeKeys, rfl⟩

/-! ### Two acts -/

theorem perform_claim_akin (d : Draft) (name : String) (c c' : Claim) :
    Option.Rel Draft.Akin ((d.perform (.claim name c)).bind fun d => d.perform (.claim name c'))
      (((c.on name (d.property? name)).bind fun p => c'.on name (some p)).map d.put) := by
  unfold perform
  dsimp only
  cases hp : c.on name (d.property? name) with
  | none => exact .none
  | some p =>
    have hname := Claim.on_name hp (property?_name rfl)
    have hfound : (d.put p).property? name = some p := by rw [(d.puts_put p).property?, if_pos hname.symm]
    rw [Option.map_some, Option.bind_some, Option.bind_some, hfound]
    cases hq : c'.on name (some p) with
    | none => exact .none
    | some q =>
      have hname' := Claim.on_name hq (by rintro _ ⟨⟩; exact hname)
      exact .some (d.put_put_akin (hname.trans hname'.symm))

theorem perform_claim_comm (hd : d.Grounded) (name name' : String) (c c' : Claim) :
    Option.Rel Draft.Akin ((d.perform (.claim name c)).bind fun d => d.perform (.claim name' c'))
      ((d.perform (.claim name' c')).bind fun d => d.perform (.claim name c)) := by
  by_cases hne : name = name'
  · -- both claims are on one property, which is put twice
    subst hne
    have htrans {x y z : Option Draft} (hxy : Option.Rel Draft.Akin x y) (hyz : Option.Rel Draft.Akin y z) :
        Option.Rel Draft.Akin x z := rel_trans (fun _ _ _ h h' => h.trans h') hxy hyz
    have hcomm := Claim.on_comm c c' name (hd name)
    refine htrans (d.perform_claim_akin name c c') (htrans (rel_map hcomm fun p q hp hpq => (Akin.refl d).put ?_)
      (rel_symm (fun _ _ h => h.symm) (d.perform_claim_akin name c' c)))
    obtain ⟨p', hp', hp⟩ := Option.bind_eq_some_iff.1 hp
    have hname := Claim.on_name hp' (property?_name rfl)
    have hname' := Claim.on_name hp (by rintro _ ⟨⟩; exact hname)
    rwa [hname']
  · -- each claim finds what it would have found without the other
    have hother (p : PropertyDescriptor) (hp : c.on name (d.property? name) = some p) :
        p.name = name ∧ (d.put p).property? name' = d.property? name' := by
      have hname := Claim.on_name hp (property?_name rfl)
      exact ⟨hname, by rw [(d.puts_put p).property?, if_neg fun heq => hne (hname.symm.trans heq.symm)]⟩
    have hother' (q : PropertyDescriptor) (hq : c'.on name' (d.property? name') = some q) :
        q.name = name' ∧ (d.put q).property? name = d.property? name := by
      have hname := Claim.on_name hq (property?_name rfl)
      exact ⟨hname, by rw [(d.puts_put q).property?, if_neg fun heq => hne (heq.trans hname)]⟩
    unfold perform
    dsimp only
    cases hp : c.on name (d.property? name) with
    | none =>
      cases hq : c'.on name' (d.property? name') with
      | none => exact .none
      | some q =>
        rw [Option.map_some, Option.bind_some, (hother' q hq).2, hp]
        exact .none
    | some p =>
      rw [Option.map_some, Option.bind_some, (hother p hp).2]
      cases hq : c'.on name' (d.property? name') with
      | none => exact .none
      | some q =>
        rw [Option.map_some, Option.map_some, Option.bind_some, (hother' q hq).2, hp]
        exact .some (d.put_comm_akin fun heq => hne ((hother p hp).1.symm.trans (heq.trans (hother' q hq).1)))

/-- A claim and an act that leaves the properties alone have nothing to do with each other. -/
theorem perform_claim_aside {b : Act} {f : Draft → Draft} {taken : Draft → Prop} [DecidablePred taken]
    (hb : ∀ d : Draft, d.perform b = if taken d then none else some (f d)) (hextends : ∀ d : Draft, d.Extends (f d))
    (hproperty : ∀ (d : Draft) (n : String), (f d).property? n = d.property? n)
    (htaken : ∀ (d : Draft) (p : PropertyDescriptor), taken (d.put p) ↔ taken d)
    (hkeys : ∀ (d : Draft) (p : PropertyDescriptor), ((f d).put p).exposeKeys = (f (d.put p)).exposeKeys)
    (hpoint : ∀ (d : Draft) (p : PropertyDescriptor), ((f d).put p).extensionPoint = (f (d.put p)).extensionPoint)
    (d : Draft) (name : String)
    (c : Claim) :
    Option.Rel Draft.Akin ((d.perform (.claim name c)).bind fun d => d.perform b)
      ((d.perform b).bind fun d => d.perform (.claim name c)) := by
  have hclaim : (f d).perform (.claim name c) = (c.on name (d.property? name)).map (f d).put := by
    rw [← hproperty d]
    rfl
  change Option.Rel _ (((c.on name (d.property? name)).map d.put).bind _) _
  rw [hb d]
  cases hp : c.on name (d.property? name) with
  | none =>
    split
    · exact .none
    · rw [Option.bind_some, hclaim, hp]
      exact .none
  | some p =>
    rw [Option.map_some, Option.bind_some, hb]
    simp only [htaken]
    split
    · exact .none
    · rw [Option.bind_some, hclaim, hp]
      refine .some (((d.extends_put p).trans (hextends _)).akin ((hextends d).trans ((f d).extends_put p))
        (fun n => ?_) (hkeys d p) (hpoint d p))
      rw [hproperty, ((f d).puts_put p).property?, (d.puts_put p).property?, hproperty]

theorem perform_key (d : Draft) (key : String) :
    d.perform (.key key) =
      if key ∈ d.exposeKeys then none else some { d with exposeKeys := d.exposeKeys ++ [key] } := by
  unfold perform
  simp only [List.contains_iff_mem]

theorem perform_point (d : Draft) :
    d.perform .point = if d.extensionPoint.isSome then none else some { d with extensionPoint := some [] } := rfl

theorem perform_claim_key (d : Draft) (name key : String) (c : Claim) :
    Option.Rel Draft.Akin ((d.perform (.claim name c)).bind fun d => d.perform (.key key))
      ((d.perform (.key key)).bind fun d => d.perform (.claim name c)) := by
  refine perform_claim_aside (fun d => d.perform_key key) (fun d => ⟨rfl, rfl, rfl, rfl, fun _ h => h⟩)
    (fun _ _ => rfl) (fun d p => ?_) (fun d p => ?_) (fun d p => ?_) d name c
  · rw [(d.puts_put p).exposeKeys]
  · rw [(puts_put _ p).exposeKeys, (d.puts_put p).exposeKeys]
  · exact (puts_put _ p).extensionPoint.trans (d.puts_put p).extensionPoint.symm

theorem perform_claim_point (d : Draft) (name : String) (c : Claim) :
    Option.Rel Draft.Akin ((d.perform (.claim name c)).bind fun d => d.perform .point)
      ((d.perform .point).bind fun d => d.perform (.claim name c)) := by
  refine perform_claim_aside (fun d => d.perform_point) (fun d => ⟨rfl, rfl, rfl, rfl, fun _ h => h⟩)
    (fun _ _ => rfl) (fun d p => ?_) (fun d p => ?_) (fun d p => ?_) d name c
  · rw [(d.puts_put p).extensionPoint]
  · exact (puts_put _ p).exposeKeys.trans (d.puts_put p).exposeKeys.symm
  · exact (puts_put _ p).extensionPoint

theorem perform_key_comm (d : Draft) (key key' : String) :
    Option.Rel Draft.Akin ((d.perform (.key key)).bind fun d => d.perform (.key key'))
      ((d.perform (.key key')).bind fun d => d.perform (.key key)) := by
  have htwo (key key' : String) : (d.perform (.key key)).bind (fun d => d.perform (.key key')) =
      if key ∈ d.exposeKeys ∨ key' ∈ d.exposeKeys ∨ key' = key then none
      else some { d with exposeKeys := d.exposeKeys ++ [key] ++ [key'] } := by
    rw [perform_key]
    by_cases hkey : key ∈ d.exposeKeys
    · rw [if_pos hkey, if_pos (.inl hkey)]
      rfl
    · rw [if_neg hkey, Option.bind_some, perform_key]
      simp only [List.mem_append, List.mem_singleton, hkey, false_or]
  rw [htwo, htwo]
  by_cases h : key ∈ d.exposeKeys ∨ key' ∈ d.exposeKeys ∨ key' = key
  · rw [if_pos h, if_pos (by tauto)]
    exact .none
  · rw [if_neg h, if_neg (by tauto)]
    refine .some ⟨fun _ => rel_refl (.refl _) _, rfl, rfl, rfl, rfl, fun k => ?_, rfl⟩
    simp only [List.mem_append, List.mem_singleton]
    tauto

theorem perform_key_point (d : Draft) (key : String) :
    (d.perform (.key key)).bind (fun d => d.perform .point) =
      (d.perform .point).bind fun d => d.perform (.key key) := by
  by_cases hkey : key ∈ d.exposeKeys <;> cases hpoint : d.extensionPoint <;>
    simp [perform_key, perform_point, hkey, hpoint]

/-- Two acts come to the same in either order. -/
theorem perform_comm (hd : d.Grounded) (a b : Act) :
    Option.Rel Draft.Akin ((d.perform a).bind fun d => d.perform b) ((d.perform b).bind fun d => d.perform a) := by
  have hsymm {x y : Option Draft} (h : Option.Rel Draft.Akin x y) : Option.Rel Draft.Akin y x :=
    rel_symm (fun _ _ h => h.symm) h
  have hnothing (a : Act) : Option.Rel Draft.Akin (d.perform a) ((d.perform a).bind some) := by
    rw [Option.bind_fun_some]
    exact rel_refl .refl _
  cases a with
  | nothing => exact hnothing b
  | claim name c =>
    cases b with
    | nothing => exact hsymm (hnothing (.claim name c))
    | claim name' c' => exact perform_claim_comm hd name name' c c'
    | key key => exact d.perform_claim_key name key c
    | point => exact d.perform_claim_point name c
  | key key =>
    cases b with
    | nothing => exact hsymm (hnothing (.key key))
    | claim name c => exact hsymm (d.perform_claim_key name key c)
    | key key' => exact d.perform_key_comm key key'
    | point =>
      rw [perform_key_point]
      exact rel_refl .refl _
  | point =>
    cases b with
    | nothing => exact hsymm (hnothing .point)
    | claim name c => exact hsymm (d.perform_claim_point name c)
    | key key =>
      rw [perform_key_point]
      exact rel_refl .refl _
    | point => exact rel_refl .refl _

end Draft

/-! ## Demands in another order -/

variable {r : Reading} {d d' e : Draft}

/-- What a demand amounts to depends on the attributes and the methods. -/
theorem Demand.act?_congr (hattributes : e.attributes = d.attributes) (hmethods : e.methods = d.methods) (x : Demand) :
    x.act? r e = x.act? r d := by
  have hmethod : e.isMethod = d.isMethod := by
    funext name
    unfold Draft.isMethod
    rw [hmethods]
  cases x with
  | text code =>
    unfold act? textAct?
    simp only [primitiveAct?, hmethod, attributeAct?_congr hattributes]
  | element code =>
    unfold act? elementAct?
    simp only [hmethod]
  | handler attrName event body =>
    unfold act? readHandler
    simp only [hmethod]
  | expose key => rfl
  | point => rfl
  | refused => rfl

theorem meet_akin (h : d.Akin e) (x : Demand) : Option.Rel Draft.Akin (meet r d x) (meet r e x) := by
  unfold meet
  rw [x.act?_congr h.attributes h.methods]
  exact rel_bind (rel_refl Eq.refl _) fun a b _ hab => hab ▸ h.perform a

theorem extends_meet {x : Demand} (h : meet r d x = some d') : d.Extends d' := by
  obtain ⟨a, -, ha⟩ := Option.bind_eq_some_iff.1 h
  exact Draft.extends_perform ha

theorem meets_akin (h : d.Akin e) (xs : List Demand) : Option.Rel Draft.Akin (meets r d xs) (meets r e xs) := by
  induction xs generalizing d e with
  | nil => exact .some h
  | cons x xs ih => exact rel_bind (meet_akin h x) fun _ _ _ h => ih h

/-- Two demands come to the same in either order. -/
theorem meet_comm (hd : d.Grounded) (x y : Demand) :
    Option.Rel Draft.Akin ((meet r d x).bind fun d => meet r d y) ((meet r d y).bind fun d => meet r d x) := by
  have hacts (x y : Demand) : (meet r d x).bind (fun d => meet r d y) =
      (x.act? r d).bind fun a => (y.act? r d).bind fun b => (d.perform a).bind fun d => d.perform b := by
    unfold meet
    cases x.act? r d with
    | none => rfl
    | some a =>
      rw [Option.bind_some, Option.bind_some]
      cases hperform : d.perform a with
      | none => cases y.act? r d <;> rfl
      | some d' =>
        -- the first act has left alone what the second demand is judged by
        have hextends := Draft.extends_perform hperform
        rw [Option.bind_some, y.act?_congr hextends.attributes hextends.methods]
        cases y.act? r d <;> rfl
  rw [hacts, hacts]
  cases x.act? r d with
  | none => cases y.act? r d <;> exact .none
  | some a =>
    cases y.act? r d with
    | none => exact .none
    | some b => exact Draft.perform_comm hd a b

/-- Demands can be met in every order or in none, and come to the same. -/
theorem meets_perm (hd : d.Grounded) {xs ys : List Demand} (h : xs.Perm ys) :
    Option.Rel Draft.Akin (meets r d xs) (meets r d ys) := by
  induction h generalizing d with
  | nil => exact .some (.refl d)
  | cons x _ ih =>
    refine rel_bind (rel_refl Eq.refl (meet r d x)) fun d' _ hmeet heq => ?_
    rw [← heq]
    exact ih ((extends_meet hmeet).grounded hd)
  | swap x y xs =>
    have htwo (x y : Demand) :
        meets r d (x :: y :: xs) = ((meet r d x).bind fun d => meet r d y).bind fun d => meets r d xs := by
      rw [Option.bind_assoc]
      rfl
    rw [htwo, htwo]
    exact rel_bind (meet_comm hd y x) fun _ _ _ hakin => meets_akin hakin xs
  | trans _ _ ih ih' => exact rel_trans (fun _ _ _ h h' => h.trans h') (ih hd) (ih' hd)

end ReactiveView.Template
