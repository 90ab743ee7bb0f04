import ReactiveView.Proofs.Binding.InitialState
import ReactiveView.Proofs.Binding.Plain

/-!
# Bound properties follow their bindings

The life of an instance, as far as its bound properties go, is its construction and then any sequence of
writes and assignments, each of which may fail, with other things happening in between that leave the
instance alone (`Run.Calls`). A bound property that was not supplied and that no call has written holds
the text of its binding, rendered with the current texts of what it reads: after the construction and
after every call (`Run.getProperty_of_calls`).

The invariant is `World.FollowsExcept`: all bound properties follow, apart from those on a list of names,
which grows by what is supplied and by what a call writes. `Run.followsExcept_setProperty` is the step,
`Run.Calls.followsExcept` the run.
-/

set_option autoImplicit false

namespace ReactiveView

/-! ## Calls -/

namespace Run

/-- What a write writes: its property if it ends well. -/
def writtenBy (name : String) : Except Halt Unit → List String
  | .ok _ => [name]
  | .error _ => []

/-- What an assignment of some entries writes: their properties in order, up to the first that is
refused. -/
def writtenByAll (cb : Callbacks) (i : InstanceId) : List (String × Value) → World → List String
  | [], _ => []
  | e :: rest, w =>
    match setProperty cb i e.1 e.2 w with
    | (.ok _, w') => e.1 :: writtenByAll cb i rest w'
    | (.error _, _) => []

/-- What an assignment writes: nothing if it is not an object or names a property that is not there. -/
def writtenByAssign (cb : Callbacks) (i : InstanceId) (v : Value) (w : World) : List String :=
  match v with
  | .object fields =>
    match checkKnown i fields w with
    | (.ok _, w') => writtenByAll cb i fields w'
    | (.error _, _) => []
  | _ => []

/-- Calls on an instance, and the names of the properties that they have written. What is called back
leaves the instance alone, and so does whatever happens between two calls. -/
inductive Calls (kind : Table Class → Prop) (i : InstanceId) : List String → World → World → Prop where
  | none (w : World) : Calls kind i [] w w
  | aside {D : List String} {w w' w'' : World} (h : Calls kind i D w w')
      (hs : w'.SparesAmong kind i (fun _ => False) w'') : Calls kind i D w w''
  | set {D : List String} {w w' : World} (h : Calls kind i D w w') {cb : Callbacks}
      (hcb : cb.Discreet kind i) (name : String) (v : Value) :
      Calls kind i (writtenBy name (setProperty cb i name v w').1 ++ D) w
        (setProperty cb i name v w').2
  | assign {D : List String} {w w' : World} (h : Calls kind i D w w') {cb : Callbacks}
      (hcb : cb.Discreet kind i) (v : Value) :
      Calls kind i (writtenByAssign cb i v w' ++ D) w (assign cb i v w').2

end Run

/-! ## The invariant -/

/-- All bound properties of an instance follow their bindings, apart from those on a list of names. -/
def World.FollowsExcept (w : World) (i : InstanceId) (id : ClassId) (c : Class) (D : List String) :
    Prop :=
  ∃ vals, w.Holds i id c vals ∧ vals.length = c.descriptor.properties.length ∧
    ∀ m ∈ c.graph.order, m ∉ D → c.Follows vals m

theorem World.FollowsExcept.mono {w : World} {i : InstanceId} {id : ClassId} {c : Class}
    {D D' : List String} (hD : D ⊆ D') (h : w.FollowsExcept i id c D) : w.FollowsExcept i id c D' := by
  obtain ⟨vals, hw, hlen, hf⟩ := h
  exact ⟨vals, hw, hlen, fun m hm hmD => hf m hm fun h => hmD (hD h)⟩

namespace Run

variable {kind : Table Class → Prop} {i : InstanceId} {id : ClassId} {c : Class} {cb : Callbacks}
  {D : List String} {w w' : World}

theorem followsExcept_of_leavesAlone (h : w.FollowsExcept i id c D)
    (hs : w.Spares i (fun _ => False) w') : w'.FollowsExcept i id c D := by
  obtain ⟨vals, hw, hlen, hf⟩ := h
  exact ⟨vals, hw.of_leavesAlone hs, hlen, hf⟩

/-- After a write all bound properties follow that did before, apart from the written one. -/
theorem followsExcept_setProperty (hc : c.Valid) (hcb : cb.Discreet kind i) (hk : kind w.classes)
    (h : w.FollowsExcept i id c D) (name : String) (v : Value) :
    kind (setProperty cb i name v w).2.classes ∧ (setProperty cb i name v w).2.FollowsExcept i id c
      (writtenBy name (setProperty cb i name v w).1 ++ D) := by
  obtain ⟨vals, hw, hlen, hf⟩ := h
  have hsame : w.FollowsExcept i id c D := ⟨vals, hw, hlen, hf⟩
  cases hn : c.descriptor.propertyIndex? name with
  | none =>
    have hset : setProperty cb i name v w =
        (.error (.failed (.unknownProperty name c.name)), w) := by
      unfold setProperty
      rw [bind_of_error (propertyIndex_of_none hw hn)]
    rw [hset]
    exact ⟨hk, hsame⟩
  | some n =>
    obtain ⟨p, hp, rfl⟩ := Descriptor.propertyIndex?_some hn
    cases hkind : p.kind with
    | primitive types =>
      rw [setProperty_primitive hw hn hp hkind]
      cases hcheck : checkPrimitive p.name types v with
      | error e =>
        rw [setPrimitive_of_error cb hcheck]
        exact ⟨hk, hsame⟩
      | ok u =>
        obtain ⟨w₁, hw₁, h₁, hcls₁⟩ := setPrimitive_of_ok hc cb hn hcheck w vals hw hlen
        rw [hw₁]
        refine ⟨hcls₁ ▸ hk, _, h₁, (Class.length_written _ _ _).trans hlen, fun m hm hmD => ?_⟩
        simp only [writtenBy, List.singleton_append, List.mem_cons, not_or] at hmD
        exact hc.follows_written hlen (Or.inr ⟨hmD.1, hf m hm hmD.2⟩)
    | slot element =>
      have hprim : p.kind.isPrimitive = false := by rw [hkind]; rfl
      obtain ⟨hk', vals', hw', hlen', hvals⟩ := setProperty_element hcb hk hw hn hp hprim v
      refine ⟨hk', vals', hw', hlen'.trans hlen, fun m hm hmD => ?_⟩
      rw [List.mem_append, not_or] at hmD
      exact hc.follows_of_element hp hprim hvals hm (hf m hm hmD.2)
    | sequence element =>
      have hprim : p.kind.isPrimitive = false := by rw [hkind]; rfl
      obtain ⟨hk', vals', hw', hlen', hvals⟩ := setProperty_element hcb hk hw hn hp hprim v
      refine ⟨hk', vals', hw', hlen'.trans hlen, fun m hm hmD => ?_⟩
      rw [List.mem_append, not_or] at hmD
      exact hc.follows_of_element hp hprim hvals hm (hf m hm hmD.2)

theorem followsExcept_setAll (hc : c.Valid) (hcb : cb.Discreet kind i) (hk : kind w.classes)
    (h : w.FollowsExcept i id c D) (fields : List (String × Value)) :
    kind ((fields.forM fun e => setProperty cb i e.1 e.2) w).2.classes ∧
      ((fields.forM fun e => setProperty cb i e.1 e.2) w).2.FollowsExcept i id c
        (writtenByAll cb i fields w ++ D) := by
  induction fields generalizing w D with
  | nil => exact ⟨hk, h⟩
  | cons e rest ih =>
    have hstep := followsExcept_setProperty hc hcb hk h e.1 e.2
    rw [forM_cons]
    unfold writtenByAll
    rcases hset : setProperty cb i e.1 e.2 w with ⟨r, w₁⟩
    rw [hset] at hstep
    obtain ⟨hk₁, h₁⟩ := hstep
    cases r with
    | error e' =>
      rw [bind_of_error hset]
      exact ⟨hk₁, h₁⟩
    | ok u =>
      rw [bind_of_ok hset]
      obtain ⟨hk₂, h₂⟩ := ih hk₁ h₁
      refine ⟨hk₂, h₂.mono fun m hm => ?_⟩
      simp only [writtenBy, List.mem_append, List.mem_cons, List.not_mem_nil, or_false] at hm ⊢
      tauto

theorem checkKnown_unchanged (i : InstanceId) (fields : List (String × Value)) (w : World) :
    (checkKnown i fields w).2 = w := by
  have hindex (name : String) : (propertyIndex i name w).2 = w :=
    (keeps_propertyIndex (R := Eq) i name w).symm
  induction fields with
  | nil => rfl
  | cons e rest ih =>
    unfold checkKnown at ih ⊢
    rw [forM_cons, bind_apply, bind_apply]
    have he := hindex e.1
    rcases hrun : propertyIndex i e.1 w with ⟨r, w₁⟩
    rw [hrun] at he
    obtain rfl : w₁ = w := he
    cases r with
    | error h => rfl
    | ok n => exact ih

/-- An assignment keeps what a write keeps. -/
theorem followsExcept_assign (hc : c.Valid) (hcb : cb.Discreet kind i) (hk : kind w.classes)
    (h : w.FollowsExcept i id c D) (v : Value) :
    kind (assign cb i v w).2.classes ∧
      (assign cb i v w).2.FollowsExcept i id c (writtenByAssign cb i v w ++ D) := by
  cases v with
  | object fields =>
    unfold assign writtenByAssign
    dsimp only
    rcases hrun : checkKnown i fields w with ⟨r, w₁⟩
    obtain rfl : w₁ = w := by rw [← checkKnown_unchanged i fields w, hrun]
    cases r with
    | error e =>
      rw [bind_of_error hrun]
      exact ⟨hk, h⟩
    | ok u =>
      rw [bind_of_ok hrun]
      exact followsExcept_setAll hc hcb hk h fields
  | null => exact ⟨hk, h⟩
  | bool b => exact ⟨hk, h⟩
  | number x => exact ⟨hk, h⟩
  | text s => exact ⟨hk, h⟩
  | inst j => exact ⟨hk, h⟩
  | coll k => exact ⟨hk, h⟩
  | array items => exact ⟨hk, h⟩

/-- Calls keep the bound properties following, apart from those that they write. -/
theorem Calls.followsExcept (hc : c.Valid) (hcalls : Calls kind i D w w') (hk : kind w.classes)
    {D₀ : List String} (h : w.FollowsExcept i id c D₀) :
    kind w'.classes ∧ w'.FollowsExcept i id c (D ++ D₀) := by
  induction hcalls with
  | none w => exact ⟨hk, h⟩
  | aside _ hs ih =>
    obtain ⟨hk', h'⟩ := ih hk h
    exact ⟨(hs hk').1, followsExcept_of_leavesAlone h' (hs hk').2⟩
  | set _ hcb name v ih =>
    obtain ⟨hk', h'⟩ := ih hk h
    rw [List.append_assoc]
    exact followsExcept_setProperty hc hcb hk' h' name v
  | assign _ hcb v ih =>
    obtain ⟨hk', h'⟩ := ih hk h
    rw [List.append_assoc]
    exact followsExcept_assign hc hcb hk' h' v

/-! ## After the construction -/

/-- After its construction the bound properties of an instance follow, apart from those that were
supplied and those that a constructor has written. -/
theorem followsExcept_constructInstance {init : Option Value} {D₀ : List String}
    {fields : Dict String Value} (hc : c.Valid) (hcls : w.class? id = some c)
    (habs : c.descriptor.isAbstract = false) (hk : kind w.classes) (hcb : cb.Discreet kind i)
    (hcons : ∀ script ∈ c.constructors, ∀ frame : Frame, frame.self = i → ∀ w,
      ∃ D, D ⊆ D₀ ∧ Calls kind i D w (cb.script frame script w).2)
    (hinit : initialFields c.name init = .ok fields)
    (h : constructInstance cb id init w = (.ok i, w')) :
    kind w'.classes ∧ w'.FollowsExcept i id c (D₀ ++ fields.keys) := by
  obtain ⟨fields', w₁, vals₁, w₂, w₃, w₄, hf', hk₁, hw₁, hlen₁, hprops, hbound, hrun, hspare⟩ :=
    constructInstance_ok hcls habs hk h
  obtain rfl : fields' = fields := Except.ok.inj (hf'.symm.trans hinit)
  obtain ⟨hk₂, vals₂, hw₂, hlen₂⟩ :=
    forM_initializeProperty_holds hc hcb (fun _ hp => hp) hk₁ hw₁ hlen₁ hprops
  have hord (m : String) (hm : m ∈ c.graph.order.filter fun name => !fields'.contains name) :
      m ∈ c.graph.order := (List.mem_filter.1 hm).1
  have hstores (m : String) (hm : m ∈ c.graph.order.filter fun name => !fields'.contains name) :
      Stores i id c (recomputeBinding cb i m) fun vals => c.refreshed vals m :=
    stores_recomputeBinding hc cb (hord m hm)
  obtain ⟨w₃', hrun₃, hw₃, hcls₃⟩ :=
    Stores.forM hstores Class.length_refreshed w₂ vals₂ hw₂ (hlen₂.trans hlen₁)
  rw [hbound] at hrun₃
  obtain ⟨-, rfl⟩ := Prod.mk.inj hrun₃
  have hk₃ : kind w₃.classes := hcls₃ ▸ hk₂
  have hfollows : w₃.FollowsExcept i id c fields'.keys := by
    have hlen₃ (ns : List String) (vals : List Value) :
        (ns.foldl c.refreshed vals).length = vals.length := by
      induction ns generalizing vals with
      | nil => rfl
      | cons n ns ih => rw [List.foldl_cons, ih, Class.length_refreshed]
    refine ⟨_, hw₃, (hlen₃ _ _).trans (hlen₂.trans hlen₁), fun m hm hmf => ?_⟩
    refine hc.follows_foldl_refreshed (hlen₂.trans hlen₁) hord (Or.inl (List.mem_filter.2 ⟨hm, ?_⟩))
    cases hg : fields'.get? m with
    | none =>
      unfold Dict.contains
      rw [hg]
      rfl
    | some v => exact absurd (Dict.mem_keys_of_get? hg) hmf
  have hafter : kind w₄.classes ∧ w₄.FollowsExcept i id c (D₀ ++ fields'.keys) := by
    unfold runConstructors at hrun
    cases hlast : c.constructors.getLast? with
    | none =>
      rw [hlast] at hrun
      obtain ⟨-, rfl⟩ := Prod.mk.inj hrun
      exact ⟨hk₃, hfollows.mono (List.subset_append_right _ _)⟩
    | some script =>
      rw [hlast] at hrun
      obtain ⟨o, w₅, hscript, hpure⟩ := bind_eq_ok_iff.1 hrun
      obtain ⟨-, rfl⟩ := Prod.mk.inj hpure
      obtain ⟨D, hD, hcalls⟩ := hcons script (List.mem_of_getLast? hlast)
        { self := i, chain := c.constructors.dropLast } rfl w₃
      rw [hscript] at hcalls
      obtain ⟨hk₅, h₅⟩ := hcalls.followsExcept hc hk₃ hfollows
      exact ⟨hk₅, h₅.mono fun m hm => (List.mem_append.1 hm).elim (fun h => List.mem_append_left _ (hD h)) fun h =>
        List.mem_append_right _ h⟩
  exact ⟨(hspare hafter.1).1, followsExcept_of_leavesAlone hafter.2 (hspare hafter.1).2⟩

end Run

/-- Whether an initial state supplies a property. -/
def Supplied (init : Option Value) (name : String) : Prop :=
  ∃ fields, init = some (.object fields) ∧ name ∈ Dict.keys fields

end ReactiveView
