import ReactiveView.Proofs.Binding.Plain
import Mathlib.Data.List.Basic

/-!
# Supplied values and defaults

What a primitive property of a new instance holds, for a class without constructors. A supplied value
is written when its turn comes; it stays unless a later step of the construction reaches the property
through its binding. Such a step is the first write of a primitive property that is declared after it,
or the refreshing of a bound property that nobody supplied (`Class.Overwritten`). A property that is
written over holds the text of its binding, rendered with the texts that the instance ends up with; every
other supplied property holds the supplied value (`construct_supplied`). A property that is neither
supplied nor bound holds its default (`construct_default`).

`Class.KeptOrFollows` is what carries the argument from step to step.
-/

set_option autoImplicit false

namespace ReactiveView

/-! ## Values that are written over -/

namespace Class

/-- A write of one of the named properties reaches a property. -/
def Reached (c : Class) (names : List String) (m : String) : Prop := ∃ n ∈ names, m ∈ c.affected n

/-- What a property holds that had a value before the named properties were written: the value, or the
text of its binding if one of the writes reached it. -/
structure KeptOrFollows (c : Class) (vals : List Value) (m : String) (v : Value)
    (names : List String) : Prop where
  follows : c.Reached names m → c.Follows vals m
  kept : ¬ c.Reached names m → c.valueIn vals m = some v

variable {c : Class} {vals : List Value} {m name : String} {v : Value} {names : List String}

theorem reached_append_singleton :
    c.Reached (names ++ [name]) m ↔ c.Reached names m ∨ m ∈ c.affected name := by
  simp only [Reached, List.mem_append, List.mem_singleton]
  constructor
  · rintro ⟨n, hn | rfl, hm⟩
    · exact Or.inl ⟨n, hn, hm⟩
    · exact Or.inr hm
  · rintro (⟨n, hn, hm⟩ | hm)
    · exact ⟨n, Or.inl hn, hm⟩
    · exact ⟨name, Or.inr rfl, hm⟩

theorem KeptOrFollows.written (hc : c.Valid) (h : c.KeptOrFollows vals m v names)
    (hlen : vals.length = c.descriptor.properties.length) (hne : m ≠ name) (u : Value) :
    c.KeptOrFollows (c.written vals name u) m v (names ++ [name]) := by
  refine ⟨fun hr => ?_, fun hr => ?_⟩
  · refine hc.follows_written hlen ?_
    exact (reached_append_singleton.1 hr).symm.imp_right fun hr => ⟨hne, h.follows hr⟩
  · rw [reached_append_singleton, not_or] at hr
    rw [Valid.valueIn_written_of_not_mem hne hr.2, h.kept hr.1]

theorem KeptOrFollows.refreshed (hc : c.Valid) (h : c.KeptOrFollows vals m v names)
    (hlen : vals.length = c.descriptor.properties.length) (hne : m ≠ name)
    (hname : name ∈ c.graph.order) :
    c.KeptOrFollows (c.refreshed vals name) m v (names ++ [name]) := by
  refine ⟨fun hr => ?_, fun hr => ?_⟩
  · refine hc.follows_refreshed hlen hname (Or.inr ?_)
    exact (reached_append_singleton.1 hr).symm.imp_right h.follows
  · rw [reached_append_singleton, not_or] at hr
    rw [Valid.valueIn_refreshed_of_not_mem hne hr.2, h.kept hr.1]

theorem KeptOrFollows.foldl_refreshed (hc : c.Valid) {ns : List String}
    (h : c.KeptOrFollows vals m v names) (hlen : vals.length = c.descriptor.properties.length)
    (hns : ∀ n ∈ ns, n ∈ c.graph.order) (hm : m ∉ ns) :
    c.KeptOrFollows (ns.foldl c.refreshed vals) m v (names ++ ns) := by
  induction ns generalizing vals names with
  | nil => rwa [List.append_nil]
  | cons n ns ih =>
    simp only [List.mem_cons, not_or] at hm
    have hstep := h.refreshed hc hlen hm.1 (hns n List.mem_cons_self)
    have hrest := ih hstep ((length_refreshed _ _).trans hlen)
      (fun n' hn' => hns n' (List.mem_cons_of_mem _ hn')) hm.2
    rwa [List.append_assoc] at hrest

/-- Refreshing bound properties makes all of them follow, and those that followed before. -/
theorem Valid.follows_foldl_refreshed (hc : c.Valid) {ns : List String}
    (hlen : vals.length = c.descriptor.properties.length) (hns : ∀ n ∈ ns, n ∈ c.graph.order)
    (h : m ∈ ns ∨ c.Follows vals m) : c.Follows (ns.foldl c.refreshed vals) m := by
  induction ns generalizing vals with
  | nil => exact h.resolve_left fun hm => by cases hm
  | cons n ns ih =>
    refine ih ((length_refreshed _ _).trans hlen) (fun n' hn' => hns n' (List.mem_cons_of_mem _ hn')) ?_
    rcases h with hm | hf
    · rcases List.mem_cons.1 hm with rfl | hm
      · exact Or.inr (hc.follows_refreshed hlen (hns m List.mem_cons_self) (Or.inl rfl))
      · exact Or.inl hm
    · exact Or.inr (hc.follows_refreshed hlen (hns n List.mem_cons_self) (Or.inr (Or.inr hf)))

end Class

/-! ## The first values -/

/-- The names of the primitive properties of a list. -/
def primitiveNames (ps : List PropertyDescriptor) : List String :=
  (ps.filter (·.kind.isPrimitive)).map (·.name)

namespace Run

variable {w w' : World} {i : InstanceId} {id : ClassId} {c : Class} {vals : List Value}
  {kind : Table Class → Prop} {cb : Callbacks} {fields : Dict String Value}

/-- The first write of a property other than `m` is one more write after which `m` is kept or
follows. -/
theorem keptOrFollows_initializeProperty (hc : c.Valid) (hcb : cb.Discreet kind i)
    (hk : kind w.classes) (hw : w.Holds i id c vals)
    (hlen : vals.length = c.descriptor.properties.length) {p q : PropertyDescriptor}
    (hp : p ∈ c.descriptor.properties) (hpp : p.kind.isPrimitive = true)
    (hq : q ∈ c.descriptor.properties) (hne : p.name ≠ q.name) {v : Value} {names : List String}
    (hkept : c.KeptOrFollows vals p.name v names)
    (h : initializeProperty cb i fields q w = (.ok (), w')) :
    kind w'.classes ∧ ∃ vals', w'.Holds i id c vals' ∧ vals'.length = vals.length ∧
      c.KeptOrFollows vals' p.name v (names ++ if q.kind.isPrimitive then [q.name] else []) := by
  obtain ⟨n, hn⟩ := List.mem_iff_getElem?.1 hq
  obtain ⟨hk', vals', hw', hlen', ⟨hprim, u, -, rfl⟩ | ⟨hprim, hvals⟩⟩ :=
    initializeProperty_spec hc hcb hk hw hlen hn h
  · rw [if_pos hprim]
    exact ⟨hk', _, hw', hlen', hkept.written hc hlen hne u⟩
  · rw [if_neg (by rw [hprim]; exact Bool.false_ne_true), List.append_nil]
    refine ⟨hk', vals', hw', hlen', fun hr => ?_, fun hr => ?_⟩
    · obtain ⟨m, hm, hpm⟩ := hr
      exact hc.follows_of_element hn hprim hvals (Graph.mem_order_of_mem_downstream _ _ _ _ hpm)
        (hkept.follows ⟨m, hm, hpm⟩)
    · rw [hc.valueIn_of_element hn hprim hvals hp hpp, hkept.kept hr]

theorem keptOrFollows_forM (hc : c.Valid) (hcb : cb.Discreet kind i) (hk : kind w.classes)
    (hw : w.Holds i id c vals) (hlen : vals.length = c.descriptor.properties.length)
    {p : PropertyDescriptor} (hp : p ∈ c.descriptor.properties) (hpp : p.kind.isPrimitive = true)
    {qs : List PropertyDescriptor} (hqs : ∀ q ∈ qs, q ∈ c.descriptor.properties ∧ p.name ≠ q.name)
    {v : Value} {names : List String} (hkept : c.KeptOrFollows vals p.name v names)
    (h : qs.forM (initializeProperty cb i fields) w = (.ok (), w')) :
    kind w'.classes ∧ ∃ vals', w'.Holds i id c vals' ∧ vals'.length = vals.length ∧
      c.KeptOrFollows vals' p.name v (names ++ primitiveNames qs) := by
  induction qs generalizing w vals names with
  | nil =>
    obtain ⟨-, rfl⟩ := Prod.mk.inj h
    exact ⟨hk, vals, hw, rfl, by rwa [primitiveNames, List.filter_nil, List.map_nil, List.append_nil]⟩
  | cons q qs ih =>
    obtain ⟨w₁, h₁, h₂⟩ := forM_cons_ok h
    obtain ⟨hq, hne⟩ := hqs q List.mem_cons_self
    obtain ⟨hk₁, vals₁, hw₁, hlen₁, hkept₁⟩ :=
      keptOrFollows_initializeProperty hc hcb hk hw hlen hp hpp hq hne hkept h₁
    obtain ⟨hk₂, vals₂, hw₂, hlen₂, hkept₂⟩ := ih hk₁ hw₁ (hlen₁.trans hlen)
      (fun q' hq' => hqs q' (List.mem_cons_of_mem _ hq')) hkept₁ h₂
    refine ⟨hk₂, vals₂, hw₂, hlen₂.trans hlen₁, ?_⟩
    have hnames : names ++ primitiveNames (q :: qs) =
        (names ++ if q.kind.isPrimitive then [q.name] else []) ++ primitiveNames qs := by
      unfold primitiveNames
      rw [List.append_assoc, List.filter_cons]
      split <;> rfl
    rwa [hnames]

end Run

/-! ## What a new instance holds -/

/-- Whether a construction writes over the value that a property has been supplied with: the property
is downstream of a primitive property declared after it, or of a bound property that nobody supplied. -/
def Class.Overwritten (c : Class) (fields : Dict String Value) (p : PropertyDescriptor) : Prop :=
  (∃ pre post, c.descriptor.properties = pre ++ p :: post ∧
    ∃ q ∈ post, q.kind.isPrimitive = true ∧ p.name ∈ c.affected q.name) ∨
  ∃ r ∈ c.graph.order, fields.contains r = false ∧ p.name ∈ c.affected r

section Construct

variable {w w' : World} {i : InstanceId} {id : ClassId} {c : Class} {kind : Table Class → Prop}
  {cb : Callbacks} {init : Option Value} {fields : Dict String Value}

/-- What a primitive property holds that starts with a value and is not refreshed by name. -/
theorem Run.constructInstance_keptOrFollows (hT : Compiled w.classes) (hc : w.class? id = some c)
    (habs : c.descriptor.isAbstract = false) (hcons : c.constructors = []) (hk : kind w.classes)
    (hcb : cb.Discreet kind i) (hinit : initialFields c.name init = .ok fields)
    (h : constructInstance cb id init w = (.ok i, w')) {pre post : List PropertyDescriptor}
    {p : PropertyDescriptor} (hsplit : c.descriptor.properties = pre ++ p :: post)
    (hpp : p.kind.isPrimitive = true) (hp : fields.contains p.name = true ∨ p.binding = none) :
    ∃ v vals, startingValue fields p = .ok v ∧ w'.Holds i id c vals ∧
      c.KeptOrFollows vals p.name v
        (primitiveNames post ++ c.graph.order.filter fun name => !fields.contains name) := by
  have hvalid : c.Valid := hT.valid hc
  obtain ⟨fields', w₁, vals₁, w₂, w₃, w₄, hf', hk₁, hw₁, hlen₁, hprops, hbound, hrun, hspare⟩ :=
    constructInstance_ok hc habs hk h
  obtain rfl : fields' = fields := Except.ok.inj (hf'.symm.trans hinit)
  have hnd := hvalid.descriptor.nodup
  rw [Descriptor.propertyNames, hsplit, List.map_append, List.map_cons] at hnd
  have hmem (q : PropertyDescriptor) (hq : q ∈ pre ++ p :: post) : q ∈ c.descriptor.properties :=
    hsplit ▸ hq
  have hpm : p ∈ c.descriptor.properties :=
    hmem p (List.mem_append_right _ List.mem_cons_self)
  -- the properties before, the property itself, and the properties after
  rw [hsplit] at hprops
  obtain ⟨wa, hpre, hprops⟩ := forM_append_ok hprops
  obtain ⟨wb, hself, hpost⟩ := forM_cons_ok hprops
  obtain ⟨hka, valsa, hwa, hlena⟩ := forM_initializeProperty_holds hvalid hcb
    (fun q hq => hmem q (List.mem_append_left _ hq)) hk₁ hw₁ hlen₁ hpre
  obtain ⟨n, hn⟩ := List.mem_iff_getElem?.1 hpm
  obtain ⟨hkb, valsb, hwb, hlenb, ⟨-, v, hv, rfl⟩ | ⟨hprim, -⟩⟩ :=
    initializeProperty_spec hvalid hcb hka hwa (hlena.trans hlen₁) hn hself
  · have hsome := Class.isSome_valueIn (hlena.trans hlen₁) hpm
    have hstart : c.KeptOrFollows (c.written valsa p.name v) p.name v [] :=
      ⟨fun ⟨_, hm, _⟩ => absurd hm List.not_mem_nil,
        fun _ => hvalid.valueIn_written_self hsome⟩
    have hpost' (q : PropertyDescriptor) (hq : q ∈ post) :
        q ∈ c.descriptor.properties ∧ p.name ≠ q.name := by
      refine ⟨hmem q (List.mem_append_right _ (List.mem_cons_of_mem _ hq)), fun hpq => ?_⟩
      have hnot := (List.nodup_cons.1 (List.nodup_append.1 hnd).2.1).1
      exact hnot (hpq ▸ List.mem_map_of_mem hq)
    have hlenb' := hlenb.trans (hlena.trans hlen₁)
    obtain ⟨hk₂, vals₂, hw₂, hlen₂, hkept₂⟩ :=
      keptOrFollows_forM hvalid hcb hkb hwb hlenb' hpm hpp hpost' hstart hpost
    have hord (m : String) (hm : m ∈ c.graph.order.filter fun name => !fields'.contains name) :
        m ∈ c.graph.order := (List.mem_filter.1 hm).1
    have hstores (m : String) (hm : m ∈ c.graph.order.filter fun name => !fields'.contains name) :
        Stores i id c (recomputeBinding cb i m) fun vals => c.refreshed vals m :=
      stores_recomputeBinding hvalid cb (hord m hm)
    obtain ⟨w₃', hrun₃, hw₃, hcls₃⟩ :=
      Stores.forM hstores Class.length_refreshed w₂ vals₂ hw₂ (hlen₂.trans hlenb')
    rw [hbound] at hrun₃
    obtain ⟨-, rfl⟩ := Prod.mk.inj hrun₃
    have hpnot : p.name ∉ c.graph.order.filter fun name => !fields'.contains name := by
      intro hm
      rw [List.mem_filter] at hm
      rcases hp with hp | hp
      · rw [hp] at hm
        exact Bool.false_ne_true hm.2
      · obtain ⟨q, hq, hb, hname⟩ := (hvalid.mem_order _).1 hm.1
        rw [List.inj_on_of_nodup_map hvalid.descriptor.nodup hq hpm hname, hp] at hb
        cases hb
    refine ⟨v, _, hv, ?_, hkept₂.foldl_refreshed hvalid (hlen₂.trans hlenb') hord hpnot⟩
    unfold runConstructors at hrun
    rw [hcons] at hrun
    obtain ⟨-, rfl⟩ := Prod.mk.inj hrun
    exact hw₃.of_leavesAlone (hspare (hcls₃ ▸ hk₂)).2
  · rw [hpp] at hprim
    cases hprim

omit cb kind in
theorem Class.reached_iff_overwritten (hc : c.Valid) {pre post : List PropertyDescriptor}
    {p : PropertyDescriptor} (hsplit : c.descriptor.properties = pre ++ p :: post) :
    c.Reached (primitiveNames post ++ c.graph.order.filter fun name => !fields.contains name)
        p.name ↔ c.Overwritten fields p := by
  have hpost (pre' post' : List PropertyDescriptor)
      (hsplit' : c.descriptor.properties = pre' ++ p :: post') : post' = post := by
    have hnd : c.descriptor.properties.Nodup := List.Nodup.of_map _ hc.descriptor.nodup
    rw [hsplit'] at hnd
    obtain ⟨-, hcons, hdisj⟩ := List.nodup_append.1 hnd
    have hpre : p ∉ pre' := fun hp => hdisj p hp p List.mem_cons_self rfl
    have heq := hsplit'.symm.trans hsplit
    exact ((List.append_cons_inj_of_notMem hpre (List.nodup_cons.1 hcons).1).1 heq).2.2
  unfold Reached Overwritten primitiveNames
  constructor
  · rintro ⟨n, hn, hm⟩
    rcases List.mem_append.1 hn with hn | hn
    · obtain ⟨q, hq, rfl⟩ := List.mem_map.1 hn
      obtain ⟨hqp, hprim⟩ := List.mem_filter.1 hq
      exact Or.inl ⟨pre, post, hsplit, q, hqp, hprim, hm⟩
    · obtain ⟨hno, hnf⟩ := List.mem_filter.1 hn
      exact Or.inr ⟨n, hno, by simpa using hnf, hm⟩
  · rintro (⟨pre', post', hsplit', q, hq, hprim, hm⟩ | ⟨r, hr, hrf, hm⟩)
    · rw [hpost pre' post' hsplit'] at hq
      refine ⟨q.name, List.mem_append_left _ ?_, hm⟩
      exact List.mem_map_of_mem (List.mem_filter.2 ⟨hq, hprim⟩)
    · refine ⟨r, List.mem_append_right _ (List.mem_filter.2 ⟨hr, ?_⟩), hm⟩
      rw [hrf]
      rfl

/-- What the primitive properties of a new instance hold. A supplied value stays unless the property is
downstream of a primitive property declared after it or of a bound property that nobody supplied; a
property that is written over holds the text of its binding. A property that is neither supplied nor
bound holds its default. -/
theorem Run.getProperty_constructInstance (hT : Compiled w.classes) (hc : w.class? id = some c)
    (habs : c.descriptor.isAbstract = false) (hcons : c.constructors = []) (hk : kind w.classes)
    (hcb : cb.Discreet kind i) (hinit : initialFields c.name init = .ok fields)
    (h : constructInstance cb id init w = (.ok i, w')) {p : PropertyDescriptor}
    (hp : p ∈ c.descriptor.properties) (hpp : p.kind.isPrimitive = true)
    (hpass : p.passthrough = none) :
    (∀ v, fields.get? p.name = some v →
      (¬ c.Overwritten fields p → getProperty i p.name w' = (.ok v, w')) ∧
      (c.Overwritten fields p → ∃ f, p.binding = some f ∧
        getProperty i p.name w' = (.ok (.text (f.render (w'.textOfSource i))), w'))) ∧
    (fields.get? p.name = none → p.binding = none →
      getProperty i p.name w' = (.ok p.default, w')) := by
  have hvalid : c.Valid := hT.valid hc
  obtain ⟨pre, post, hsplit⟩ := List.append_of_mem hp
  have hbinding {names : List String} (hr : c.Reached names p.name) : ∃ f, p.binding = some f := by
    obtain ⟨n, -, hm⟩ := hr
    obtain ⟨q, hq, hb, hname⟩ := hvalid.bound_of_mem_affected hm
    rw [List.inj_on_of_nodup_map hvalid.descriptor.nodup hq hp hname] at hb
    exact Option.isSome_iff_exists.1 hb
  constructor
  · intro v hv
    have hcontains : fields.contains p.name = true := by
      unfold Dict.contains
      rw [hv]
      rfl
    obtain ⟨u, vals, hu, hw', hkept⟩ := constructInstance_keptOrFollows hT hc habs hcons hk hcb hinit h
      hsplit hpp (Or.inl hcontains)
    unfold startingValue at hu
    rw [hv] at hu
    dsimp only at hu
    rw [initialValue_of_none p v hpass] at hu
    obtain rfl := Except.ok.inj hu
    rw [← Class.reached_iff_overwritten hvalid hsplit]
    refine ⟨fun hnot => getProperty_holds hw' (hkept.kept hnot), fun hr => ?_⟩
    obtain ⟨f, hf⟩ := hbinding hr
    have hbf : c.bindingOf? p.name = some f := by
      unfold Class.bindingOf?
      rw [hvalid.descriptor.property?_name hp, Option.bind_some, hf]
    refine ⟨f, hf, ?_⟩
    rw [show w'.textOfSource i = c.textIn vals from funext hw'.textOfSource]
    exact getProperty_holds hw' (hkept.follows hr f hbf)
  · intro hnone hunbound
    obtain ⟨u, vals, hu, hw', hkept⟩ := constructInstance_keptOrFollows hT hc habs hcons hk hcb hinit h
      hsplit hpp (Or.inr hunbound)
    unfold startingValue at hu
    rw [hnone] at hu
    obtain rfl := Except.ok.inj hu
    refine getProperty_holds hw' (hkept.kept fun hr => ?_)
    obtain ⟨f, hf⟩ := hbinding hr
    rw [hunbound] at hf
    cases hf

end Construct

/-- The supplied value of the bound property is lost when the property that it reads, declared after it,
gets its first value. -/
theorem Run.getProperty_constructInstance_echo :
    ∃ (p : PropertyDescriptor) (w' : World), p.name = "shout" ∧
      constructInstance (Callbacks.ofDepth 1) ⟨0⟩ (some (.object [("shout", .text "mine")])) echoWorld
        = (.ok ⟨0⟩, w') ∧
      ∃ f, p.binding = some f ∧ getProperty ⟨0⟩ p.name w' =
        (.ok (.text (f.render (w'.textOfSource ⟨0⟩))), w') := by
  obtain ⟨c, p, q, hc, habs, hcons, hprops, hp, hq, hpp, hqp, hpass, -, haff⟩ := exists_echo
  have hok : ((constructInstance (Callbacks.ofDepth 1) ⟨0⟩ (some (.object [("shout", .text "mine")]))
      echoWorld).1.toOption == some ⟨0⟩) = true := by decide +kernel
  rcases hrun : constructInstance (Callbacks.ofDepth 1) ⟨0⟩
    (some (.object [("shout", .text "mine")])) echoWorld with ⟨r, w'⟩
  rw [hrun] at hok
  obtain rfl : r = .ok ⟨0⟩ := by
    cases r with
    | error e => cases hok
    | ok i => rw [eq_of_beq (show (i == ⟨0⟩) = true from hok)]
  have hmem : p ∈ c.descriptor.properties := by
    rw [hprops]
    exact List.mem_cons_self
  have hgiven : Dict.get? [("shout", .text "mine")] p.name = some (Value.text "mine") := by
    rw [hp]
    rfl
  have hover : c.Overwritten [("shout", .text "mine")] p :=
    Or.inl ⟨[], [q], hprops, q, List.mem_cons_self, hqp, haff⟩
  obtain ⟨hsupplied, -⟩ := getProperty_constructInstance compiled_echoWorld hc habs hcons
    plainClasses_echoWorld (Callbacks.discreet_ofDepth 1 ⟨0⟩) rfl hrun hmem hpp hpass
  exact ⟨p, w', hp, rfl, (hsupplied _ hgiven).2 hover⟩

end ReactiveView
