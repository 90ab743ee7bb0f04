import ReactiveView.Proofs.Binding.Write
import ReactiveView.World.Construction

/-!
# What a new instance holds

A construction that succeeds is taken apart into its stages: the record is registered with nothing
in it, every property is initialized in declaration order, and the author's constructor runs last.
`initializeProperty_spec` says what one property is left with, and `constructInstance_ok` puts the
stages together.
-/

set_option autoImplicit false

namespace ReactiveView

/-! ## A new instance -/

namespace World

theorem siteOf_spec {w w' : World} {owner : InstanceId} {anchors : Dict String (NodeId × Sink)}
    {p : PropertyDescriptor} {places : NodeSet} {site : Site}
    (h : w.siteOf owner anchors p places = .ok (site, w')) :
    w'.classes = w.classes ∧ w'.instances = w.instances := by
  unfold siteOf at h
  split at h
  · obtain ⟨-, rfl⟩ := Prod.mk.inj (Except.ok.inj h)
    exact ⟨rfl, rfl⟩
  · split at h
    · obtain ⟨-, rfl⟩ := Prod.mk.inj (Except.ok.inj h)
      exact ⟨rfl, rfl⟩
    · cases h
  · split at h
    · obtain ⟨-, rfl⟩ := Prod.mk.inj (Except.ok.inj h)
      exact ⟨rfl, rfl⟩
    · cases h

theorem sitesOf_spec {w w' : World} {owner : InstanceId} {anchors : Dict String (NodeId × Sink)}
    {ps : List PropertyDescriptor} {nodes : List NodeSet} {sites : List Site}
    (h : w.sitesOf owner anchors ps nodes = .ok (sites, w')) :
    w'.classes = w.classes ∧ w'.instances = w.instances ∧ sites.length = ps.length := by
  induction ps generalizing w nodes sites with
  | nil =>
    obtain ⟨rfl, rfl⟩ := Prod.mk.inj (Except.ok.inj h)
    exact ⟨rfl, rfl, rfl⟩
  | cons p ps ih =>
    unfold sitesOf at h
    split at h
    · cases h
    · next hsite =>
      split at h
      · cases h
      · next hsites =>
        obtain ⟨rfl, rfl⟩ := Prod.mk.inj (Except.ok.inj h)
        obtain ⟨hc, hi⟩ := siteOf_spec hsite
        obtain ⟨hc', hi', hlen⟩ := ih hsites
        exact ⟨hc'.trans hc, hi'.trans hi, by rw [List.length_cons, List.length_cons, hlen]⟩

theorem bindView_spec {w w' : World} {d : Descriptor} {owner : InstanceId} {view : View}
    (h : w.bindView d owner = .ok (view, w')) :
    w'.classes = w.classes ∧ w'.instances = w.instances ∧
      view.sites.length = d.properties.length := by
  unfold bindView at h
  split at h
  · extract_lets start at h
    split at h
    · cases h
    · cases h
    · split at h
      · cases h
      · next hsites =>
        obtain ⟨rfl, rfl⟩ := Prod.mk.inj (Except.ok.inj h)
        obtain ⟨hcls, hinst, hlen⟩ := sitesOf_spec hsites
        exact ⟨hcls, hinst, hlen⟩
  · cases h

/-- A new instance gets the next number and holds a value for each property. -/
theorem createInstance_spec {w w' : World} {id : ClassId} {c : Class} {i : InstanceId}
    (hc : w.class? id = some c) (h : w.createInstance id c.descriptor = .ok (i, w')) :
    i = ⟨w.instances.size⟩ ∧ w'.classes = w.classes ∧
      (∀ j : InstanceId, j.index < w.instances.size → w'.inst? j = w.inst? j) ∧
      ∃ vals, w'.Holds i id c vals ∧ vals.length = c.descriptor.properties.length := by
  unfold createInstance at h
  dsimp only [pushInstance] at h
  split at h
  · cases h
  · next view w₁ hview =>
    obtain ⟨rfl, rfl⟩ := Prod.mk.inj (Except.ok.inj h)
    obtain ⟨hcls, hinst, hlen⟩ := bindView_spec hview
    refine ⟨rfl, hcls, fun j hj => ?_, view.sites.map placeholder, ⟨?_, ?_⟩, ?_⟩
    · rw [inst?_modifyInstance_of_ne _ _ (by rintro rfl; exact Nat.lt_irrefl _ hj)]
      unfold inst?
      rw [hinst]
      exact Table.get?_push_of_lt _ _ _ hj
    · unfold class? at hc ⊢
      change w₁.classes.get? id.index = _
      rw [hcls, hc]
    · rw [inst?_modifyInstance_self]
      unfold inst?
      rw [hinst, Table.get?_push_self]
      exact ⟨_, view, rfl, rfl, rfl, rfl, rfl⟩
    · rw [List.length_map, hlen]

end World

namespace Run

variable {w w' : World} {i : InstanceId} {id : ClassId} {c : Class} {vals : List Value}
  {kind : Table Class → Prop} {cb : Callbacks}

/-- A list of runs that ends well is a first run that ends well and the others after it. -/
theorem forM_cons_ok {α : Type} {f : α → Run Unit} {a : α} {as : List α}
    (h : (a :: as).forM f w = (.ok (), w')) :
    ∃ w₁, f a w = (.ok (), w₁) ∧ as.forM f w₁ = (.ok (), w') := by
  rw [forM_cons] at h
  obtain ⟨_, w₁, h₁, h₂⟩ := bind_eq_ok_iff.1 h
  exact ⟨w₁, h₁, h₂⟩

theorem forM_append_ok {α : Type} {f : α → Run Unit} {as bs : List α}
    (h : (as ++ bs).forM f w = (.ok (), w')) :
    ∃ w₁, as.forM f w = (.ok (), w₁) ∧ bs.forM f w₁ = (.ok (), w') := by
  induction as generalizing w with
  | nil => exact ⟨w, rfl, h⟩
  | cons a as ih =>
    obtain ⟨w₁, h₁, h₂⟩ := forM_cons_ok h
    obtain ⟨w₂, h₃, h₄⟩ := ih h₂
    refine ⟨w₂, ?_, h₄⟩
    rw [forM_cons, bind_of_ok h₁, h₃]

/-- Writing a primitive property is checking the value and writing it. -/
theorem setProperty_primitive (h : w.Holds i id c vals) {n : Nat} {p : PropertyDescriptor}
    (hn : c.descriptor.propertyIndex? p.name = some n) (hp : c.descriptor.properties[n]? = some p)
    {types : Option (List PrimitiveType)} (hkind : p.kind = .primitive types) (v : Value) :
    setProperty cb i p.name v w = setPrimitive cb i n p.name types v w := by
  unfold setProperty
  rw [bind_of_ok (propertyIndex_holds h hn), bind_of_ok (theClassOf_holds h), hp,
    bind_of_ok (ofOption_some _ _), hkind]

end Run

namespace Class.Valid

variable {c : Class} (hc : c.Valid) {vals vals' : List Value} {n : Nat} {q : PropertyDescriptor}

include hc

/-- A change at the position of a slot or of an array property changes no primitive value. -/
theorem valueIn_of_element (hq : c.descriptor.properties[n]? = some q)
    (hprim : q.kind.isPrimitive = false) (hvals : ∀ m, m ≠ n → vals'[m]? = vals[m]?)
    {p : PropertyDescriptor} (hp : p ∈ c.descriptor.properties) (hpp : p.kind.isPrimitive = true) :
    c.valueIn vals' p.name = c.valueIn vals p.name := by
  unfold valueIn
  cases hm : c.descriptor.propertyIndex? p.name with
  | none => rfl
  | some m =>
    refine hvals m fun hmn => ?_
    obtain ⟨p', hp', hname⟩ := Descriptor.propertyIndex?_some hm
    rw [hmn, hq, Option.some.injEq] at hp'
    rw [hp', List.inj_on_of_nodup_map hc.descriptor.nodup (hp' ▸ List.mem_of_getElem? hq) hp hname,
      hpp] at hprim
    cases hprim

/-- Such a change lets every property follow that did. -/
theorem follows_of_element (hq : c.descriptor.properties[n]? = some q)
    (hprim : q.kind.isPrimitive = false) (hvals : ∀ m, m ≠ n → vals'[m]? = vals[m]?) {m : String}
    (hm : m ∈ c.graph.order) (h : c.Follows vals m) : c.Follows vals' m := by
  obtain ⟨p, hp, hb, rfl⟩ := (hc.mem_order m).1 hm
  have hpp := hc.descriptor.bound_primitive p hp hb
  refine hc.follows_congr (hc.valueIn_of_element hq hprim hvals hp hpp) (fun r hr => ?_) h
  unfold readsOf at hr
  rw [hc.descriptor.property?_name hp] at hr
  obtain ⟨p', hp', rfl, hpp'⟩ := hc.descriptor.reads_primitive p hp r hr
  exact hc.valueIn_of_element hq hprim hvals hp' hpp'

end Class.Valid

/-! ## The initial state -/

/-- The value that a property is first written with. -/
def startingValue (fields : Dict String Value) (p : PropertyDescriptor) : Except Error Value :=
  match fields.get? p.name with
  | some given => initialValue p given
  | none => .ok p.default

namespace Run

variable {w w' : World} {i : InstanceId} {id : ClassId} {c : Class} {vals : List Value}
  {kind : Table Class → Prop} {cb : Callbacks} {fields : Dict String Value}

theorem initializeProperty_ok {p : PropertyDescriptor}
    (h : initializeProperty cb i fields p w = (.ok (), w')) :
    ∃ v, startingValue fields p = .ok v ∧ setProperty cb i p.name v w = (.ok (), w') := by
  unfold initializeProperty at h
  unfold startingValue
  cases hg : fields.get? p.name with
  | none =>
    rw [hg] at h
    exact ⟨p.default, rfl, h⟩
  | some given =>
    rw [hg] at h
    dsimp only at h ⊢
    cases hv : initialValue p given with
    | error e =>
      rw [hv, bind_of_error (ofExcept_error _ _)] at h
      cases h
    | ok v =>
      rw [hv, bind_of_ok (ofExcept_ok _ _)] at h
      exact ⟨v, rfl, h⟩

/-- What the first write of a property does to the values of a new instance. -/
theorem initializeProperty_spec (hc : c.Valid) (hcb : cb.Discreet kind i) (hk : kind w.classes)
    (hw : w.Holds i id c vals) (hlen : vals.length = c.descriptor.properties.length) {n : Nat}
    {p : PropertyDescriptor} (hp : c.descriptor.properties[n]? = some p)
    (h : initializeProperty cb i fields p w = (.ok (), w')) :
    kind w'.classes ∧ ∃ vals', w'.Holds i id c vals' ∧ vals'.length = vals.length ∧
      ((p.kind.isPrimitive = true ∧
          ∃ v, startingValue fields p = .ok v ∧ vals' = c.written vals p.name v) ∨
        (p.kind.isPrimitive = false ∧ ∀ m, m ≠ n → vals'[m]? = vals[m]?)) := by
  obtain ⟨v, hv, hset⟩ := initializeProperty_ok h
  have hn := hc.descriptor.propertyIndex?_name hp
  cases hprim : p.kind.isPrimitive with
  | true =>
    obtain ⟨types, hkind⟩ : ∃ types, p.kind = .primitive types := by
      cases hkind : p.kind with
      | primitive types => exact ⟨types, rfl⟩
      | slot element => rw [hkind] at hprim; cases hprim
      | sequence element => rw [hkind] at hprim; cases hprim
    rw [setProperty_primitive hw hn hp hkind] at hset
    cases hcheck : checkPrimitive p.name types v with
    | error e =>
      rw [setPrimitive_of_error cb hcheck] at hset
      cases hset
    | ok u =>
      obtain ⟨w₁, hw₁, h₁, hc₁⟩ := setPrimitive_of_ok hc cb hn hcheck w vals hw hlen
      rw [hw₁] at hset
      obtain ⟨-, rfl⟩ := Prod.mk.inj hset
      exact ⟨hc₁ ▸ hk, _, h₁, Class.length_written _ _ _, Or.inl ⟨rfl, v, hv, rfl⟩⟩
  | false =>
    have hspec := setProperty_element hcb hk hw hn hp hprim v
    rw [hset] at hspec
    obtain ⟨hk', vals', h', hlen', hvals⟩ := hspec
    exact ⟨hk', vals', h', hlen', Or.inr ⟨rfl, hvals⟩⟩

/-- Writing the first values of some properties. -/
theorem forM_initializeProperty_holds (hc : c.Valid) (hcb : cb.Discreet kind i)
    {ps : List PropertyDescriptor} (hps : ∀ p ∈ ps, p ∈ c.descriptor.properties)
    (hk : kind w.classes) (hw : w.Holds i id c vals)
    (hlen : vals.length = c.descriptor.properties.length)
    (h : ps.forM (initializeProperty cb i fields) w = (.ok (), w')) :
    kind w'.classes ∧ ∃ vals', w'.Holds i id c vals' ∧ vals'.length = vals.length := by
  induction ps generalizing w vals with
  | nil =>
    obtain ⟨-, rfl⟩ := Prod.mk.inj h
    exact ⟨hk, vals, hw, rfl⟩
  | cons p ps ih =>
    obtain ⟨w₁, h₁, h₂⟩ := forM_cons_ok h
    obtain ⟨n, hp⟩ := List.mem_iff_getElem?.1 (hps p List.mem_cons_self)
    obtain ⟨hk₁, vals₁, hw₁, hlen₁, -⟩ := initializeProperty_spec hc hcb hk hw hlen hp h₁
    obtain ⟨hk₂, vals₂, hw₂, hlen₂⟩ := ih (fun q hq => hps q (List.mem_cons_of_mem _ hq)) hk₁ hw₁
      (hlen₁.trans hlen) h₂
    exact ⟨hk₂, vals₂, hw₂, hlen₂.trans hlen₁⟩

end Run

/-! ## The stages of a construction -/

namespace Run

variable {w w' : World} {i : InstanceId} {id : ClassId} {c : Class} {kind : Table Class → Prop}
  {cb : Callbacks} {init : Option Value}

theorem populate_ok {j : InstanceId} {fields : Dict String Value}
    (h : populate cb j c fields w = (.ok i, w')) :
    i = j ∧ ∃ w₂, giveInitialState cb j c fields w = (.ok (), w₂) ∧
      w' = (flushQueue c.queue w₂).2.modifyInstance j fun x => { x with built := true } := by
  unfold populate at h
  obtain ⟨_, w₂, hstate, h⟩ := bind_eq_ok_iff.1 h
  obtain ⟨_, w₃, hflush, h⟩ := bind_eq_ok_iff.1 h
  obtain ⟨_, _, hmark, h⟩ := bind_eq_ok_iff.1 h
  obtain ⟨-, rfl⟩ := Prod.mk.inj hmark
  obtain ⟨hj, rfl⟩ := Prod.mk.inj h
  refine ⟨(Except.ok.inj hj).symm, w₂, ?_, by rw [hflush]⟩
  rw [tryCatch_apply] at hstate
  rcases hgive : giveInitialState cb j c fields w with ⟨r, w₄⟩
  rw [hgive] at hstate
  cases r with
  | ok u => exact hstate
  | error e =>
    -- what is undone after a failure ends in the failure
    obtain ⟨_, _, -, hthrow⟩ := bind_eq_ok_iff.1 hstate
    obtain ⟨_, _, -, hthrow⟩ := bind_eq_ok_iff.1 hthrow
    cases hthrow

theorem constructConcrete_ok (h : constructConcrete cb id c init w = (.ok i, w')) :
    ∃ fields w₁, initialFields c.name init = .ok fields ∧ create id c w = (.ok i, w₁) ∧
      populate cb i c fields w₁ = (.ok i, w') := by
  unfold constructConcrete at h
  obtain ⟨fields, w₀, hf, h⟩ := bind_eq_ok_iff.1 h
  cases hfields : initialFields c.name init with
  | error e =>
    rw [hfields] at hf
    cases hf
  | ok fields' =>
    rw [hfields, ofExcept_ok] at hf
    obtain ⟨hf', rfl⟩ := Prod.mk.inj hf
    obtain rfl := Except.ok.inj hf'
    cases hunknown : fields'.keys.find? fun k => (c.descriptor.property? k).isNone with
    | some k =>
      rw [hunknown] at h
      cases h
    | none =>
      rw [hunknown] at h
      obtain ⟨j, w₁, hcreate, h⟩ := bind_eq_ok_iff.1 h
      obtain ⟨rfl, -⟩ := populate_ok h
      exact ⟨fields', w₁, rfl, hcreate, h⟩

theorem create_ok {w₁ : World} (hc : w.class? id = some c) (h : create id c w = (.ok i, w₁)) :
    i = ⟨w.instances.size⟩ ∧ w₁.classes = w.classes ∧
      (∀ j : InstanceId, j.index < w.instances.size → w₁.inst? j = w.inst? j) ∧
      ∃ vals, w₁.Holds i id c vals ∧ vals.length = c.descriptor.properties.length := by
  unfold create at h
  rw [bind_of_ok (get_apply w)] at h
  cases hcreate : w.createInstance id c.descriptor with
  | error e =>
    rw [hcreate] at h
    cases h
  | ok x =>
    obtain ⟨j, w₂⟩ := x
    rw [hcreate] at h
    obtain ⟨hj, rfl⟩ := Prod.mk.inj h
    obtain rfl := Except.ok.inj hj
    obtain ⟨hi, hcls, hold, vals, hvals, hlen⟩ := World.createInstance_spec hc hcreate
    exact ⟨hi, hcls, hold, vals, hvals.congr rfl rfl, hlen⟩

/-- The stages of a construction that ends well: after the attributes the properties get their first
values, then the bound properties that nobody supplied are refreshed, then the constructors run, and
what comes after leaves the instance alone. -/
theorem constructInstance_ok (hc : w.class? id = some c) (habs : c.descriptor.isAbstract = false)
    (hk : kind w.classes) (h : constructInstance cb id init w = (.ok i, w')) :
    ∃ fields w₁ vals w₂ w₃ w₄, initialFields c.name init = .ok fields ∧ kind w₁.classes ∧
      w₁.Holds i id c vals ∧ vals.length = c.descriptor.properties.length ∧
      c.descriptor.properties.forM (initializeProperty cb i fields) w₁ = (.ok (), w₂) ∧
      (c.graph.order.filter fun name => !fields.contains name).forM (recomputeBinding cb i) w₂
        = (.ok (), w₃) ∧
      runConstructors cb i c.constructors w₃ = (.ok (), w₄) ∧
      w₄.SparesAmong kind i (fun _ => False) w' := by
  unfold constructInstance keeping at h
  obtain ⟨hok, hw'⟩ := Prod.mk.inj h
  rw [bind_of_ok (theClass_of hc), habs] at hok hw'
  rcases hbody : constructConcrete cb id c init w with ⟨r, w₅⟩
  simp only [Bool.false_eq_true, if_false] at hok hw'
  rw [hbody] at hok hw'
  dsimp only at hok hw'
  subst hok
  obtain ⟨fields, w₁, hfields, hcreate, hpopulate⟩ := constructConcrete_ok hbody
  obtain ⟨-, w₄, hgive, rfl⟩ := populate_ok hpopulate
  obtain ⟨-, hcls, -, vals, hw₁, hlen⟩ := create_ok hc hcreate
  unfold giveInitialState at hgive
  obtain ⟨_, wa, hattrs, hgive⟩ := bind_eq_ok_iff.1 hgive
  obtain ⟨_, w₂, hprops, hgive⟩ := bind_eq_ok_iff.1 hgive
  obtain ⟨_, w₃, hbound, hcons⟩ := bind_eq_ok_iff.1 hgive
  have hk₁ : kind w₁.classes := hcls ▸ hk
  have hspare : w₁.SparesAmong kind i (fun _ => False) wa := by
    have hkeeps := Keeps.forM (R := World.SparesAmong kind i fun _ => False)
      (fun a : AttributeDescriptor => keeps_setAttribute i a.name a.default) c.descriptor.attributes w₁
    rw [hattrs] at hkeeps
    exact hkeeps
  have hka := (hspare hk₁).1
  have hwa := hw₁.of_leavesAlone (hspare hk₁).2
  refine ⟨fields, wa, vals, w₂, w₃, w₄, hfields, hka, hwa, hlen, hprops, hbound, hcons, ?_⟩
  rw [← hw']
  have hflush : w₄.SparesAmong kind i (fun _ => False) (flushQueue c.queue w₄).2 :=
    IsFrame.same _ _ rfl rfl
  have hmark := World.upkeep_trans hflush
    (IsFrame.modify _ i (fun x => { x with built := true }) fun _ => ⟨rfl, rfl, rfl, rfl⟩)
  refine World.upkeep_trans (World.upkeep_trans hmark ?_) (World.upkeep_settle _)
  exact IsFrame.same _ _ rfl rfl

end Run

end ReactiveView
