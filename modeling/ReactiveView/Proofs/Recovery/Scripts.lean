import ReactiveView.Host.Perform
import ReactiveView.Proofs.Recovery.Writes
import ReactiveView.Proofs.Closed.Construction
import ReactiveView.Proofs.Steps.Commands

/-!
# Scripts that write the running instance

A script *writes only its own* (`Host.ownScript`) when it logs, reads, branches, fails, returns, calls the
ancestor's constructor, or writes the attributes, properties and collections of the running instance, with
values in which that instance does not occur; it may call methods that do no more.

What an expression denotes was there or is finished, unless the expression names the running instance
(`Run.lends_evaluate`). So a script that writes only its own lends, on an instance under construction
(`Run.lends_runScript`).
-/

set_option autoImplicit false

namespace ReactiveView

namespace Host

mutual

/-- Whether an expression does not hand out the running instance. -/
def Expr.selfless : Expr → Bool
  | .self => false
  | .array items => selflessItems items
  | .object fields => selflessFields fields
  | _ => true

/-- Whether none of the expressions hands out the running instance. -/
def Expr.selflessItems : List Expr → Bool
  | [] => true
  | e :: es => e.selfless && selflessItems es

/-- Whether none of the entries hands out the running instance. -/
def Expr.selflessFields : List (String × Expr) → Bool
  | [] => true
  | (_, e) :: es => e.selfless && selflessFields es

end

/-- Whether a target is the running instance. -/
def isOwn : Option String → Bool
  | none => true
  | some label => label == Run.selfWord

/-- Whether an operation on an instance only reads. -/
def InstanceOp.reads : InstanceOp → Bool
  | .get _ none | .attr _ | .attrs | .values | .toObject | .toJson | .html | .text | .classOf | .same _
  | .debug | .state | .exposed _ => true
  | _ => false

/-- Whether an operation on the running instance writes it alone, or calls one of the methods. -/
def InstanceOp.own (methods : List String) : InstanceOp → Bool
  | .set _ v | .setAttr _ v | .assign v => v.selfless
  | .setAttrs entries => Expr.selflessFields entries
  | .call method data => methods.contains method && data.selfless
  | _ => false

/-- Whether an operation on a collection only reads. -/
def CollectionOp.reads : CollectionOp → Bool
  | .get _ none | .items | .indexOf _ | .info | .debug | .toArray _ _ | .toJson _ _ _ => true
  | _ => false

/-- Whether an operation edits a collection and registers nothing. -/
def CollectionOp.own : CollectionOp → Bool
  | .push v | .unshift v | .insert _ v => v.selfless
  | .pop none | .shift none | .remove _ none | .move _ _ => true
  | .splice _ _ values [] | .replaceAll values [] => Expr.selflessItems values
  | _ => false

/-- Whether a collection is one of the running instance. -/
def CollectionRef.isOwn : CollectionRef → Bool
  | .property target _ => Host.isOwn target
  | .held _ => false

/-- Whether a command only reads, or writes the running instance alone. -/
def Command.own (methods : List String) : Command → Bool
  | .instanceOp target op => op.reads || (isOwn target && op.own methods)
  | .collectionOp source op => op.reads || (source.isOwn && op.own)
  | _ => false

mutual

/-- Whether an action writes the running instance alone. -/
def Action.own (methods : List String) : Action → Bool
  | .log _ | .give _ | .fail _ | .callSuper | .prevent => true
  | .branch _ _ yes no => ownScript methods yes && ownScript methods no
  | .emit _ _ => false
  | .command c => c.own methods

/-- Whether a script writes the running instance alone. -/
def ownScript (methods : List String) : List Action → Bool
  | [] => true
  | a :: rest => a.own methods && ownScript methods rest

end

end Host

/-- The constructors of a class write only the new instance, and so do the methods that they call. -/
def Class.WritesOwn (c : Class) : Prop :=
  ∃ methods : List String, (∀ s ∈ c.constructors, Host.ownScript methods s = true) ∧
    ∀ m ∈ methods, ∀ s, c.descriptor.methods.get? m = some s → Host.ownScript methods s = true

/-- A class whose properties make instances of the given classes only, and whose listed methods write only the
instance. -/
structure Class.Sparing (able : ClassId → Prop) (methods : List String) (c : Class) : Prop where
  makes : ∀ p ∈ c.descriptor.properties, ∀ id, p.kind.Makes id → able id
  methods : ∀ m ∈ methods, ∀ s, c.descriptor.methods.get? m = some s → Host.ownScript methods s = true

variable {α : Type} {w₀ w w' : World} {loose : Place → InstanceId → Prop} {T : InstanceId} {c : Class}
  {k : CollectionId}

namespace World

instance : IsNoting (Still w₀) where
  noting _ _ hs hc hi hk hn hr hp := .of_same hs hc hi hk hn hr hp

/-! ## Values that are stored -/

/-- What a known instance stores was there. -/
theorem Retains.fit_stored (h : w₀.Retains w) (hw₀ : w₀.Closed) {i : InstanceId} (hi : w₀.Knows i)
    {x : Instance} (hx : w.inst? i = some x) {v : Value} (hv : v ∈ x.values) : w₀.Fit w v := by
  obtain ⟨y, hy⟩ := hi.exists_inst
  obtain ⟨a, ha⟩ := h.inst i y hy
  obtain rfl := Option.some.inj (ha.symm.trans hx)
  exact fun j hj => Or.inl (hw₀.stored hy hv j hj)

/-- What an instance under construction stores was there or is finished. -/
theorem Loan.fit_stored (h : w₀.Loan loose w.occupants w) (hw₀ : w₀.Resting) (hT : w₀.Busy w T c)
    {x : Instance} (hx : w.inst? T = some x) {v : Value} (hv : v ∈ x.values) : w₀.Fit w v := by
  obtain ⟨y, view, hy, -, hf⟩ := h.exists_record hT.toWorking hT.cls
  obtain rfl := Option.some.inj (hy.symm.trans hx)
  obtain ⟨n, hn⟩ := List.mem_iff_getElem?.1 hv
  obtain ⟨p, site, hp, -, hfits⟩ := hf.exists_fits hn
  generalize hk : p.kind = kind at hfits
  cases hfits with
  | primitive hprim =>
    intro j hj
    rw [(Value.plain_of_isPrimitive hprim).instances] at hj
    cases hj
  | empty => exact fun j hj => by cases hj
  | child =>
    obtain ⟨m, sink, old, -, hold, hocc, -⟩ := hf.exists_slot hx hp (h.valid hw₀ hT) hT.alive hk
    obtain rfl := Option.some.inj (hn.symm.trans hold)
    intro j hj
    refine h.whole (.slot T p.name) j hT.new ?_
    rw [hocc]
    exact hj
  | sequence => exact fun j hj => by cases hj

/-- The collection is one of the instance, and its elements are of classes that may be made. -/
def Owns (w : World) (able : ClassId → Prop) (T : InstanceId) (k : CollectionId) : Prop :=
  ∃ x, w.coll? k = some x ∧ x.owner = T ∧ ∀ ref, x.element = .ofClass ref → able ref.id

theorem Owns.lasts {able : ClassId → Prop} (h : w.Owns able T k) (hl : w.Lasts w') : w'.Owns able T k := by
  obtain ⟨x, hx, howner, hable⟩ := h
  obtain ⟨y, hy, hshape⟩ := hl.toExtends.coll k x hx
  refine ⟨y, hy, (congrArg (·.2.2) hshape).trans howner, fun ref href => hable ref ?_⟩
  exact (congrArg (·.1) hshape).symm.trans href

end World

namespace Run

open World Host

/-! ## Expressions -/

theorem lends_pinnedProperty (hu : w₀.Underway loose w) {i : InstanceId} (name : String)
    (hi : ∀ x, w.inst? i = some x → ∀ v ∈ x.values, w₀.Fit w v) :
    Lends w₀ loose (do
      let v ← getProperty i name
      pinValue v
      return v) w fun v w' => w₀.Fit w' v := by
  refine .bind_read (keeps_getProperty (R := Eq) i name w).symm hu fun v hv => ?_
  have hfit : w₀.Fit w v := by
    obtain ⟨x, hx, hmem⟩ := getProperty_eq_ok hv
    exact hi x hx v hmem
  exact (Lends.of_still (keeps_pinValue v) hu).bind fun _ _ hu' hp _ => .pure hu' (hfit.lasts hp.toLasts)

section Expressions

variable {frame : Frame}

variable (c) in
/-- A script may run in the frame: on an instance of the class that is under construction, with a payload that
was there or is finished. -/
structure Entered (w₀ : World) (w : World) (frame : Frame) : Prop extends w₀.Busy w frame.self c where
  payload : w₀.Fit w frame.payload

theorem Entered.passes (h : Entered c w₀ w frame) (hp : w₀.Passes w w') : Entered c w₀ w' frame :=
  ⟨h.toBusy.passes hp, h.payload.lasts hp.toLasts⟩

/-- A label names an instance that was there. -/
theorem lends_labelled (hw₀ : w₀.Resting) (label : String) (hu : w₀.Underway loose w) :
    Lends w₀ loose (labelled label) w fun i _ => w₀.Knows i := by
  refine .bind_same (get_apply w) ?_
  cases hi : w.registry.instances.get? label with
  | none => exact .of_error (bind_of_error (ofOption_none w)) .rfl hu
  | some i =>
    have hknown : w₀.Knows i := by
      rw [hu.registry] at hi
      exact hw₀.labelled (e := (label, i)) (Dict.mem_of_get? hi)
    refine .bind_same (ofOption_some i w) ?_
    exact (Lends.of_still (keeps_pin _) hu).bind fun _ _ hu' _ _ => .pure hu' hknown

mutual

/-- What an expression denotes was there or is finished, unless it may be the running instance. -/
theorem lends_evaluate (hw₀ : w₀.Resting) : ∀ (e : Expr) {w : World}, w₀.Underway loose w → Entered c w₀ w frame →
    Lends w₀ loose (evaluate (some frame) e) w fun v w' => e.selfless = true → w₀.Fit w' v
  | .null, w, hu, _ | .bool _, w, hu, _ | .number _, w, hu, _ | .text _, w, hu, _ => by
    unfold evaluate
    exact .pure hu fun _ j hj => by cases hj
  | .array items, w, hu, hf => by
    unfold evaluate
    refine (lends_evaluateItems hw₀ items hu hf).bind fun vs w' hu' _ hvs => .pure hu' fun hs => ?_
    unfold Expr.selfless at hs
    exact hvs hs
  | .object fields, w, hu, hf => by
    unfold evaluate
    refine (lends_evaluateFields hw₀ fields hu hf).bind fun vs w' hu' _ hvs => .pure hu' fun hs j hj => ?_
    unfold Expr.selfless at hs
    obtain ⟨e, he, hj⟩ := mem_instancesOfFields.1 hj
    exact hvs hs j (mem_instancesOfFields.2 ⟨e, Dict.mem_of_mem_ofList he, hj⟩)
  | .labelled label, w, hu, _ => by
    unfold evaluate
    refine (lends_labelled hw₀ label hu).bind fun i w' hu' _ hi => .pure hu' fun _ j hj => ?_
    rw [List.mem_singleton.1 hj]
    exact Or.inl hi
  | .collectionOf label property, w, hu, _ => by
    unfold evaluate
    refine (lends_labelled hw₀ label hu).bind fun i w' hu' _ hi => ?_
    exact (lends_pinnedProperty hu' property fun x hx v hv =>
      hu'.toRetains.fit_stored hw₀.toClosed hi hx hv).imp fun v hv _ => hv
  | .heldCollection label, w, hu, _ => by
    unfold evaluate
    refine .bind_same (get_apply w) (.bind_read (keeps_ofOption (R := Eq) _ w).symm hu fun k _ => ?_)
    exact (Lends.of_still (keeps_pin _) hu).bind fun _ _ hu' _ _ => .pure hu' fun _ j hj => by cases hj
  | .payload, w, hu, hf => by
    unfold evaluate
    exact .bind_same (ofOption_some frame w) (.pure hu fun _ => hf.payload)
  | .payloadText, w, hu, hf => by
    unfold evaluate
    exact .bind_same (ofOption_some frame w) (.pure hu fun _ j hj => by cases hj)
  | .self, w, hu, _ => by
    unfold evaluate
    refine .bind_read (keeps_running (R := Eq) _ w).symm hu fun i _ => .pure hu fun hs => ?_
    unfold Expr.selfless at hs
    cases hs
  | .property name, w, hu, hf => by
    unfold evaluate
    refine .bind_same (a := frame.self) rfl ?_
    exact (lends_pinnedProperty hu name fun x hx v hv =>
      hu.fit_stored hw₀ hf.toBusy hx hv).imp fun v hv _ => hv

theorem lends_evaluateItems (hw₀ : w₀.Resting) : ∀ (es : List Expr) {w : World}, w₀.Underway loose w → Entered c w₀ w frame →
    Lends w₀ loose (evaluateItems (some frame) es) w fun vs w' =>
      Expr.selflessItems es = true → ∀ j ∈ Value.instancesOfItems vs, w₀.Whole w' j
  | [], w, hu, _ => by
    unfold evaluateItems
    exact .pure hu fun _ j hj => by cases hj
  | e :: es, w, hu, hf => by
    unfold evaluateItems
    refine (lends_evaluate hw₀ e hu hf).bind fun v w₁ hu₁ hp₁ hv => ?_
    refine (lends_evaluateItems hw₀ es hu₁ (hf.passes hp₁)).bind fun vs w₂ hu₂ hp₂ hvs => .pure hu₂ fun hs j hj => ?_
    unfold Expr.selflessItems at hs
    obtain ⟨hs, hrest⟩ := Bool.and_eq_true_iff.1 hs
    rcases List.mem_append.1 hj with hj | hj
    · exact (hv hs j hj).lasts hp₂.toLasts
    · exact hvs hrest j hj

theorem lends_evaluateFields (hw₀ : w₀.Resting) : ∀ (es : List (String × Expr)) {w : World}, w₀.Underway loose w →
    Entered c w₀ w frame →
    Lends w₀ loose (evaluateFields (some frame) es) w fun vs w' =>
      Expr.selflessFields es = true → ∀ j ∈ Value.instancesOfFields vs, w₀.Whole w' j
  | [], w, hu, _ => by
    unfold evaluateFields
    exact .pure hu fun _ j hj => by cases hj
  | (k, e) :: es, w, hu, hf => by
    unfold evaluateFields
    refine (lends_evaluate hw₀ e hu hf).bind fun v w₁ hu₁ hp₁ hv => ?_
    refine (lends_evaluateFields hw₀ es hu₁ (hf.passes hp₁)).bind fun vs w₂ hu₂ hp₂ hvs => .pure hu₂ fun hs j hj => ?_
    unfold Expr.selflessFields at hs
    obtain ⟨hs, hrest⟩ := Bool.and_eq_true_iff.1 hs
    rcases List.mem_append.1 hj with hj | hj
    · exact (hv hs j hj).lasts hp₂.toLasts
    · exact hvs hrest j hj

end

end Expressions

/-! ## Editing collections -/

section Edits

variable {cb : Callbacks} {able : ClassId → Prop} (hw₀ : w₀.Resting) (hcb : cb.Lending w₀ able)
  (hu : w₀.Underway tight w) (hT : w₀.Busy w T c) (hk : w.Owns able T k)

include hw₀ hcb hu hT hk

theorem lends_spliceOwn (start count : Nat) {vs : List Value} (hvs : ∀ v ∈ vs, w₀.Fit w v) :
    Lends w₀ tight (splice cb k start count vs) w fun removed w' => ∀ i ∈ removed, w₀.Whole w' i := by
  obtain ⟨x, hx, howner, hable⟩ := hk
  exact lends_splice hw₀ hcb hu hT hx howner hable start count hvs

theorem lends_push {v : Value} (hv : w₀.Fit w v) : Lends w₀ tight (push cb k v) w fun _ _ => True := by
  refine .bind_same (ask_apply _ w) ?_
  refine (lends_spliceOwn hw₀ hcb hu hT hk _ 0 fun u hu' => ?_).bind fun _ w' hu' _ _ =>
    .of_ok (ask_apply _ w') .rfl hu' trivial
  rw [List.mem_singleton.1 hu']
  exact hv

theorem lends_unshift {v : Value} (hv : w₀.Fit w v) : Lends w₀ tight (unshift cb k v) w fun _ _ => True := by
  refine (lends_spliceOwn hw₀ hcb hu hT hk 0 0 fun u hu' => ?_).bind fun _ w' hu' _ _ =>
    .of_ok (ask_apply _ w') .rfl hu' trivial
  rw [List.mem_singleton.1 hu']
  exact hv

theorem lends_spliceNone (start count : Nat) :
    Lends w₀ tight (splice cb k start count []) w fun removed w' => ∀ i ∈ removed, w₀.Whole w' i :=
  lends_spliceOwn hw₀ hcb hu hT hk start count fun v hv => by cases hv

theorem lends_pop : Lends w₀ tight (pop cb k) w fun _ _ => True := by
  refine .bind_same (ask_apply _ w) ?_
  split
  · exact .pure hu trivial
  · exact (lends_spliceNone hw₀ hcb hu hT hk _ 1).bind fun _ w' hu' _ _ => .pure hu' trivial

theorem lends_shift : Lends w₀ tight (shift cb k) w fun _ _ => True := by
  refine .bind_same (ask_apply _ w) ?_
  split
  · exact .pure hu trivial
  · exact (lends_spliceNone hw₀ hcb hu hT hk 0 1).bind fun _ w' hu' _ _ => .pure hu' trivial

theorem lends_insertItem (position : Nat) {v : Value} (hv : w₀.Fit w v) :
    Lends w₀ tight (insertItem cb k position v) w fun _ _ => True := by
  refine .bind_same (ask_apply _ w) ?_
  dsimp only
  split
  · exact .of_error (bind_of_error (fail_apply _ w)) .rfl hu
  · refine (lends_spliceOwn hw₀ hcb hu hT hk position 0 fun u hu' => ?_).bind fun _ w' hu' _ _ => .pure hu' trivial
    rw [List.mem_singleton.1 hu']
    exact hv

theorem lends_removeItem (position : Nat) :
    Lends w₀ tight (removeItem cb k position) w fun i w' => w₀.Whole w' i := by
  refine .bind_same (ask_apply _ w) ?_
  dsimp only
  split
  · exact .of_error (bind_of_error (fail_apply _ w)) .rfl hu
  · refine (lends_spliceNone hw₀ hcb hu hT hk position 1).bind fun removed w' hu' _ hremoved => ?_
    split
    · next i hi => exact .pure hu' (hremoved i (List.mem_of_getLast? hi))
    · exact .fail _ hu'

theorem lends_moveItem (source target : Nat) :
    Lends w₀ tight (moveItem cb k source target) w fun _ _ => True := by
  refine .bind_same (ask_apply _ w) ?_
  dsimp only
  split
  · exact .of_error (bind_of_error (fail_apply _ w)) .rfl hu
  · split
    · refine (lends_removeItem hw₀ hcb hu hT hk source).bind fun i w₁ hu₁ hp₁ hi => ?_
      refine (lends_spliceOwn hw₀ hcb hu₁ (hT.passes hp₁) (hk.lasts hp₁.toLasts) target 0 fun v hv j hj => ?_).bind
        fun _ w₂ hu₂ _ _ => .pure hu₂ trivial
      rw [List.mem_singleton.1 hv] at hj
      rw [List.mem_singleton.1 hj]
      exact hi
    · exact .pure hu trivial

end Edits

/-! ## Reading -/

section Reading

variable {R : World → World → Prop} [IsNoting R] {cb : Callbacks} {frame : Option Frame}

theorem keeps_found_none (i : Option InstanceId) : Keeps R (found none i) := by
  cases i with
  | none => exact keeps_pure _
  | some i => exact (keeps_pure ()).bind fun _ => (keeps_ask _).bind fun _ => keeps_pure _

theorem keeps_foundAll_nil (is : List InstanceId) : Keeps R (foundAll [] is) :=
  (keeps_pure ()).bind fun _ => (Keeps.mapM (fun _ => keeps_ask _) is).bind fun _ => keeps_pure _

theorem keeps_onInstance_reads (i : InstanceId) {op : InstanceOp} (h : op.reads = true) :
    Keeps R (onInstance cb frame i op) := by
  cases op with
  | get name label =>
    cases label with
    | none =>
      refine (keeps_getProperty i name).bind fun v => Keeps.bind ?_ fun _ => keeps_ask _
      exact Keeps.forM_option (fun _ => keeps_pure _) _
    | some label => cases h
  | attr name => exact (keeps_getAttribute i name).bind fun _ => keeps_ask _
  | attrs =>
    refine Keeps.bind ?_ fun _ => keeps_ask _
    exact (keeps_theClassOf i).bind fun _ => (keeps_theInstance i).bind fun _ => keeps_pure _
  | values => exact (keeps_theInstance i).bind fun _ => keeps_ask _
  | toObject => exact keeps_ask _
  | toJson => exact keeps_ask _
  | html => exact keeps_ask _
  | text => exact (keeps_theRoot i).bind fun _ => keeps_ask _
  | classOf => exact (keeps_theClassOf i).bind fun _ => keeps_ask _
  | same other => exact (keeps_target frame _).bind fun _ => keeps_pure _
  | debug => exact (keeps_theClassOf i).bind fun _ => (keeps_theInstance i).bind fun _ => keeps_ask _
  | state => exact (keeps_theRoot i).bind fun _ => keeps_ask _
  | exposed key =>
    refine (keeps_theInstance i).bind fun x => ?_
    split
    · exact keeps_pure _
    · exact keeps_ask _
  | _ => cases h

theorem keeps_onCollection_reads (k : CollectionId) {op : CollectionOp} (h : op.reads = true) :
    Keeps R (onCollection cb frame k op) := by
  cases op with
  | get position label =>
    cases label with
    | none => exact keeps_get.bind fun _ => keeps_found_none _
    | some label => cases h
  | items => exact keeps_get.bind fun _ => (Keeps.mapM (fun _ => keeps_ask _) _).bind fun _ => keeps_pure _
  | indexOf item => exact (keeps_target frame _).bind fun _ => keeps_ask _
  | info => exact (keeps_theCollection k).bind fun _ => keeps_ask _
  | debug => exact keeps_ask _
  | toArray start stop => exact keeps_ask _
  | toJson start stop indentation =>
    exact keeps_get.bind fun _ => (keeps_ofExcept _).bind fun _ => keeps_pure _
  | _ => cases h

end Reading

end Run

/-! ## Scripts -/

/-- Scripts that write only the running instance lend, on an instance of a sparing class under construction. -/
def Callbacks.LendingScripts (cb : Callbacks) (w₀ : World) (able : ClassId → Prop) : Prop :=
  ∀ (frame : Frame) (script : Host.Script) (methods : List String) (c : Class) (w : World),
    c.Sparing able methods → Host.ownScript methods script = true →
    (∀ s ∈ frame.chain, Host.ownScript methods s = true) → w₀.Underway World.tight w →
    Run.Entered c w₀ w frame → Run.Lends w₀ World.tight (cb.script frame script) w fun _ _ => True

namespace Run

open World Host

section Scripts

variable {cb : Callbacks} {able : ClassId → Prop} {methods : List String} {frame : Frame} (hw₀ : w₀.Resting)
  (hcb : cb.Lending w₀ able) (hscripts : cb.LendingScripts w₀ able) (hc : c.Sparing able methods)

theorem target_own {name : Option String} (h : isOwn name = true) (w : World) :
    target (some frame) name w = (.ok frame.self, w) := by
  cases name with
  | none => rfl
  | some label =>
    unfold target
    dsimp only
    rw [if_pos (beq_iff_eq.1 h)]
    rfl

/-- The last constructor of a chain is run on an instance under construction. -/
theorem lends_runConstructors (hscripts : cb.LendingScripts w₀ able) (hc : c.Sparing able methods)
    {chain : List Script} (hchain : ∀ s ∈ chain, ownScript methods s = true) (hu : w₀.Underway tight w)
    (hT : w₀.Busy w T c) : Lends w₀ tight (runConstructors cb T chain) w fun _ _ => True := by
  unfold runConstructors
  split
  · exact .pure hu trivial
  · next script hlast =>
    have hscript := hchain script (List.mem_of_getLast? hlast)
    have hrest (s : Script) (hs : s ∈ chain.dropLast) : ownScript methods s = true :=
      hchain s (List.dropLast_subset chain hs)
    refine (hscripts { self := T, chain := chain.dropLast } script methods c w hc hscript hrest hu
      ⟨hT, fun j hj => ?_⟩).bind fun _ _ hu' _ _ => .pure hu' trivial
    cases hj

/-- A collection in a property of an instance under construction is one of its own. -/
theorem lends_collectionAt (hc : c.Sparing able methods) (hu : w₀.Underway tight w) (hf : Entered c w₀ w frame)
    {source : CollectionRef} (h : source.isOwn = true) :
    Lends w₀ tight (collectionAt (some frame) source) w fun k w' => w'.Owns able frame.self k := by
  cases source with
  | held label => cases h
  | property owner name =>
    refine .bind_same (target_own h w) ?_
    refine .bind_read (keeps_getProperty (R := Eq) _ name w).symm hu fun v hv => ?_
    obtain ⟨x, hx, hmem⟩ := getProperty_eq_ok hv
    unfold theColl
    refine .bind_read (keeps_ofOption (R := Eq) _ w).symm hu fun k hk => ?_
    have hown : w.Owns able frame.self k := by
      have hcoll : v = .coll k := by
        cases v <;> cases (ofOption_eq_ok hk).1
        rfl
      subst hcoll
      obtain ⟨y, view, hy, -, hformed⟩ := hu.exists_record hf.toWorking hf.cls
      obtain rfl := Option.some.inj (hx.symm.trans hy)
      obtain ⟨n, hn⟩ := List.mem_iff_getElem?.1 hmem
      obtain ⟨p, site, hp, -, hfits⟩ := hformed.exists_fits hn
      generalize hkind : p.kind = kind at hfits
      cases hfits with
      | primitive hprim => cases hprim
      | sequence hz howner helement =>
        refine ⟨_, hz, howner, fun ref href => hc.makes p (List.mem_of_getElem? hp) ref.id ?_⟩
        rw [hkind, ← helement, href]
        rfl
    exact (Lends.of_still (keeps_pin _) hu).bind fun _ _ hu' hp _ => .pure hu' (hown.lasts hp.toLasts)

include hw₀ hcb

theorem lends_onCollection (hu : w₀.Underway tight w) (hf : Entered c w₀ w frame) (hk : w.Owns able frame.self k)
    {op : CollectionOp} (h : op.own = true) :
    Lends w₀ tight (onCollection cb (some frame) k op) w fun _ _ => True := by
  have hT := hf.toBusy
  have hfound {m : Run (Option InstanceId)} (hm : Lends w₀ tight m w fun _ _ => True) :
      Lends w₀ tight (m >>= found none) w fun _ _ => True :=
    hm.bind fun i _ hu' _ _ => .of_still (keeps_found_none i) hu'
  have hfoundAll {w' : World} {m : Run (List InstanceId)} {Q : List InstanceId → World → Prop}
      (hm : Lends w₀ tight m w' Q) : Lends w₀ tight (m >>= foundAll []) w' fun _ _ => True :=
    hm.bind fun is _ hu' _ _ => .of_still (keeps_foundAll_nil is) hu'
  have hlist {w' : World} {vs : List Value} (hvs : ∀ j ∈ Value.instancesOfItems vs, w₀.Whole w' j) (v : Value)
      (hv : v ∈ vs) : w₀.Fit w' v := fun j hj => hvs j (Value.instances_subset_items hv hj)
  cases op with
  | push e =>
    refine (lends_evaluate hw₀ e hu hf).bind fun v w₁ hu₁ hp₁ hv => ?_
    exact (lends_push hw₀ hcb hu₁ (hT.passes hp₁) (hk.lasts hp₁.toLasts) (hv h)).bind
      fun _ _ hu' _ _ => .pure hu' trivial
  | unshift e =>
    refine (lends_evaluate hw₀ e hu hf).bind fun v w₁ hu₁ hp₁ hv => ?_
    exact (lends_unshift hw₀ hcb hu₁ (hT.passes hp₁) (hk.lasts hp₁.toLasts) (hv h)).bind
      fun _ _ hu' _ _ => .pure hu' trivial
  | insert position e =>
    refine (lends_evaluate hw₀ e hu hf).bind fun v w₁ hu₁ hp₁ hv => ?_
    exact (lends_insertItem hw₀ hcb hu₁ (hT.passes hp₁) (hk.lasts hp₁.toLasts) position (hv h)).bind
      fun _ _ hu' _ _ => .pure hu' trivial
  | pop label =>
    cases label with
    | none => exact hfound (lends_pop hw₀ hcb hu hT hk)
    | some label => cases h
  | shift label =>
    cases label with
    | none => exact hfound (lends_shift hw₀ hcb hu hT hk)
    | some label => cases h
  | remove position label =>
    cases label with
    | none =>
      exact (lends_removeItem hw₀ hcb hu hT hk position).bind
        fun i _ hu' _ _ => .of_still (keeps_found_none (some i)) hu'
    | some label => cases h
  | move source target =>
    exact (lends_moveItem hw₀ hcb hu hT hk source target).bind fun _ _ hu' _ _ => .pure hu' trivial
  | splice start count es labels =>
    cases labels with
    | nil =>
      refine (lends_evaluateItems hw₀ es hu hf).bind fun vs w₁ hu₁ hp₁ hvs => hfoundAll
        (lends_spliceOwn hw₀ hcb hu₁ (hT.passes hp₁) (hk.lasts hp₁.toLasts) start count (hlist (hvs h)))
    | cons label labels => cases h
  | replaceAll es labels =>
    cases labels with
    | nil =>
      refine (lends_evaluateItems hw₀ es hu hf).bind fun vs w₁ hu₁ hp₁ hvs => hfoundAll (.bind_same (ask_apply _ w₁)
        (lends_spliceOwn hw₀ hcb hu₁ (hT.passes hp₁) (hk.lasts hp₁.toLasts) 0 _ (hlist (hvs h))))
    | cons label labels => cases h
  | _ => cases h

include hscripts hc

theorem lends_onInstance (hu : w₀.Underway tight w) (hf : Entered c w₀ w frame) {op : InstanceOp}
    (h : op.own methods = true) :
    Lends w₀ tight (onInstance cb (some frame) frame.self op) w fun _ _ => True := by
  cases op with
  | set name e =>
    refine (lends_evaluate hw₀ e hu hf).bind fun v w₁ hu₁ hp₁ hv => ?_
    exact (lends_setProperty hw₀ hcb hc.makes hu₁ (hf.toBusy.passes hp₁) name (hv h)).bind
      fun _ _ hu' _ _ => .pure hu' trivial
  | setAttr name e =>
    refine (lends_evaluate hw₀ e hu hf).bind fun v w₁ hu₁ hp₁ _ => ?_
    exact (Lends.of_still (still_setAttribute hf.new name v) hu₁).bind fun _ _ hu' _ _ => .pure hu' trivial
  | setAttrs entries =>
    refine (lends_evaluateFields hw₀ entries hu hf).bind fun vs w₁ hu₁ hp₁ _ => ?_
    exact (Lends.of_still (still_setAttributes hf.new _) hu₁).bind fun _ _ hu' _ _ => .pure hu' trivial
  | assign e =>
    refine (lends_evaluate hw₀ e hu hf).bind fun v w₁ hu₁ hp₁ hv => ?_
    exact (lends_assign hw₀ hcb hc.makes hu₁ (hf.toBusy.passes hp₁) (hv h)).bind
      fun _ _ hu' _ _ => .pure hu' trivial
  | call name data =>
    obtain ⟨hname, hdata⟩ := Bool.and_eq_true_iff.1 h
    refine (lends_evaluate hw₀ data hu hf).bind fun v w₁ hu₁ hp₁ hv => ?_
    have hf₁ := hf.passes hp₁
    refine Lends.bind (Q := fun _ _ => True) ?_ fun v _ hu' _ _ => .of_ok (ask_apply _ _) .rfl hu' trivial
    obtain ⟨x, view, hx, -, hformed⟩ := hu₁.exists_record hf₁.toWorking hf₁.cls
    refine .bind_same (theClassOf_of hx hformed.cls) ?_
    split
    · exact .fail _ hu₁
    · next script hscript =>
      have hown := hc.methods name (List.contains_iff_mem.1 hname) script hscript
      exact (hscripts { self := frame.self, node := none, payload := v } script methods c w₁ hc hown
        (fun s hs => by cases hs) hu₁ ⟨hf₁.toBusy, hv hdata⟩).bind fun _ _ hu' _ _ => .pure hu' trivial
  | _ => cases h

/-- A command that writes only the running instance lends. -/
theorem lends_perform (hu : w₀.Underway tight w) (hf : Entered c w₀ w frame) {cmd : Command}
    (h : cmd.own methods = true) : Lends w₀ tight (perform cb (some frame) cmd) w fun _ _ => True := by
  cases cmd with
  | instanceOp name op =>
    rcases Bool.or_eq_true_iff.1 h with hreads | hown
    · exact .of_still ((keeps_target _ _).bind fun i => keeps_onInstance_reads i hreads) hu
    · obtain ⟨hname, hop⟩ := Bool.and_eq_true_iff.1 hown
      exact .bind_same (target_own hname w) (lends_onInstance hw₀ hcb hscripts hc hu hf hop)
  | collectionOp source op =>
    rcases Bool.or_eq_true_iff.1 h with hreads | hown
    · exact .of_still ((keeps_collectionAt _ _).bind fun k => keeps_onCollection_reads k hreads) hu
    · obtain ⟨hsource, hop⟩ := Bool.and_eq_true_iff.1 hown
      refine (lends_collectionAt hc hu hf hsource).bind fun k w₁ hu₁ hp₁ hk => ?_
      exact lends_onCollection hw₀ hcb hu₁ (hf.passes hp₁) hk hop
  | _ => cases h

end Scripts

variable {cb : Callbacks} {able : ClassId → Prop} {methods : List String} {frame : Frame}

mutual

theorem lends_runAction (hw₀ : w₀.Resting) (hcb : cb.Lending w₀ able) (hscripts : cb.LendingScripts w₀ able)
    (hc : c.Sparing able methods)
    (hchain : ∀ s ∈ frame.chain, ownScript methods s = true) :
    ∀ (a : Action) {w : World}, a.own methods = true → w₀.Underway tight w → Entered c w₀ w frame →
      Lends w₀ tight (runAction cb frame a) w fun _ _ => True
  | .log text, w, _, hu, _ => by
    unfold runAction
    exact (Lends.of_still (keeps_note _) hu).bind fun _ _ hu' _ _ => .pure hu' trivial
  | .give e, w, _, hu, hf => by
    unfold runAction
    exact (lends_evaluate hw₀ e hu hf).bind fun _ _ hu' _ _ => .pure hu' trivial
  | .fail e, w, _, hu, _ => by
    unfold runAction
    exact .fail e hu
  | .branch left right yes no, w, h, hu, hf => by
    unfold runAction
    unfold Action.own at h
    obtain ⟨hyes, hno⟩ := Bool.and_eq_true_iff.1 h
    refine (lends_evaluate hw₀ left hu hf).bind fun a w₁ hu₁ hp₁ _ => ?_
    have hf₁ := hf.passes hp₁
    refine (lends_evaluate hw₀ right hu₁ hf₁).bind fun b w₂ hu₂ hp₂ _ => ?_
    split
    · exact lends_runScript hw₀ hcb hscripts hc hchain yes hyes hu₂ (hf₁.passes hp₂)
    · exact lends_runScript hw₀ hcb hscripts hc hchain no hno hu₂ (hf₁.passes hp₂)
  | .callSuper, w, _, hu, hf => by
    unfold runAction
    refine (Lends.of_still (keeps_note _) hu).bind fun _ w₁ hu₁ hp₁ _ => ?_
    exact (lends_runConstructors hscripts hc hchain hu₁ (hf.toBusy.passes hp₁)).bind
      fun _ _ hu' _ _ => .pure hu' trivial
  | .prevent, w, _, hu, _ => by
    unfold runAction
    exact .pure hu trivial
  | .emit name data, w, h, _, _ => by
    unfold Action.own at h
    cases h
  | .command cmd, w, h, hu, hf => by
    unfold runAction
    unfold Action.own at h
    exact (lends_perform hw₀ hcb hscripts hc hu hf h).bind fun _ _ hu' _ _ => .pure hu' trivial

theorem lends_runScript (hw₀ : w₀.Resting) (hcb : cb.Lending w₀ able) (hscripts : cb.LendingScripts w₀ able)
    (hc : c.Sparing able methods)
    (hchain : ∀ s ∈ frame.chain, ownScript methods s = true) :
    ∀ (script : List Action) {w : World}, ownScript methods script = true → w₀.Underway tight w →
      Entered c w₀ w frame → Lends w₀ tight (runScript cb frame script) w fun _ _ => True
  | [], w, _, hu, _ => by
    unfold runScript
    exact .pure hu trivial
  | a :: rest, w, h, hu, hf => by
    unfold runScript
    unfold ownScript at h
    obtain ⟨ha, hrest⟩ := Bool.and_eq_true_iff.1 h
    have haction := lends_runAction hw₀ hcb hscripts hc hchain a ha hu hf
    refine (Lends.keeping hw₀ haction hu.pins fun _ _ _ _ _ => trivial).bind fun o w₁ hu₁ hp₁ _ => ?_
    split
    · exact .pure hu₁ trivial
    · exact (lends_runScript hw₀ hcb hscripts hc hchain rest hrest hu₁ (hf.passes hp₁)).bind fun _ _ hu' _ _ => .pure hu' trivial

end

end Run

end ReactiveView
