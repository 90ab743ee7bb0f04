import ReactiveView.Proofs.Closed.Worlds
import ReactiveView.Proofs.Ownership.Construct
import ReactiveView.Proofs.Steps.Construction

/-!
# Runs that keep worlds regular

Operations on instances leave a regular world regular, whatever they are given: an instance is recorded in a
place or stored only after its root has been found. So most runs keep the relation `World.Regrows`. Where code
in progress keeps hold of something, or a script gets to know it, that has to be there: such runs are judged
together with what they are given and what they give (`Run.Stays`).
-/

set_option autoImplicit false

namespace ReactiveView

open World

/-- What a script gets to know through its frame is there. -/
structure World.KnowsFrame (w : World) (frame : Frame) : Prop where
  self : w.Knows frame.self
  payload : w.KnowsValue frame.payload

theorem World.KnowsFrame.larger {w w' : World} {frame : Frame} (h : w.KnowsFrame frame) (hl : w.Larger w') :
    w'.KnowsFrame frame :=
  ⟨h.self.larger hl, h.payload.larger hl⟩

/-- A value without instances refers to nothing that is missing. -/
theorem World.knowsValue_of_instances {w : World} {v : Value} (hv : v.instances = []) : w.KnowsValue v := by
  intro j hj
  rw [hv] at hj
  cases hj

namespace Run

variable {α β : Type} {w w' : World} {m : Run α} {Q : α → World → Prop} {i : InstanceId} {k : CollectionId}

/-- The run leads from a regular world to a regular one in which nothing is missing, and what it gives is as
stated. -/
def Stays (m : Run α) (w : World) (Q : α → World → Prop) : Prop :=
  w.Regular → (m w).2.Regular ∧ w.Larger (m w).2 ∧ ∀ a, (m w).1 = .ok a → Q a (m w).2

namespace Stays

theorem of_keeps (h : Keeps Regrows m) : Stays m w fun _ _ => True := fun hw =>
  ⟨(h w hw).1, (h w hw).2, fun _ _ => trivial⟩

/-- What holds of every world is kept. -/
theorem keeps (h : ∀ w, Stays m w Q) : Keeps Regrows m := fun w hw => ⟨(h w hw).1, (h w hw).2.1⟩

theorem imp {Q' : α → World → Prop} (h : Stays m w Q) (hQ : ∀ a w', Q a w' → Q' a w') : Stays m w Q' := fun hw =>
  ⟨(h hw).1, (h hw).2.1, fun a ha => hQ a _ ((h hw).2.2 a ha)⟩

/-- A run that only reads. -/
theorem read (h : Keeps Eq m) (hQ : w.Regular → ∀ a, m w = (.ok a, w) → Q a w) : Stays m w Q := by
  intro hw
  have hsame : (m w).2 = w := (h w).symm
  rw [hsame]
  exact ⟨hw, .rfl, fun a ha => hQ hw a (Prod.ext ha hsame)⟩

theorem pure {a : α} (ha : Q a w) : Stays (Pure.pure a : Run α) w Q :=
  read (keeps_pure a) fun _ b hb => by
    obtain rfl := Except.ok.inj (Prod.mk.inj hb).1
    exact ha

theorem fail (e : Error) : Stays (Run.fail e : Run α) w Q :=
  read (keeps_fail e) fun _ _ ha => by cases ha

/-- Nothing comes after a failure. -/
theorem fail_bind {f : α → Run β} {R : β → World → Prop} (e : Error) : Stays ((Run.fail e : Run α) >>= f) w R :=
  fun hw => ⟨hw, .rfl, fun _ hb => by cases hb⟩

theorem throw (e : Halt) : Stays (MonadExcept.throw e : Run α) w Q :=
  read (keeps_throw e) fun _ _ ha => by cases ha

theorem update {f : World → World} (hf : w.Regrows (f w)) {Q : Unit → World → Prop}
    (hQ : w.Larger (f w) → Q () (f w)) : Stays (Run.update f) w Q := fun hw =>
  ⟨(hf hw).1, (hf hw).2, fun _ _ => hQ (hf hw).2⟩

theorem bind {f : α → Run β} {R : β → World → Prop} (hm : Stays m w Q)
    (hf : ∀ a w', w.Larger w' → Q a w' → Stays (f a) w' R) : Stays (m >>= f) w R := by
  intro hw
  obtain ⟨hw₁, hl₁, hQ⟩ := hm hw
  rcases hrun : m w with ⟨e | a, w₁⟩
  · rw [hrun] at hw₁ hl₁
    rw [bind_of_error hrun]
    exact ⟨hw₁, hl₁, fun _ hb => by cases hb⟩
  · rw [hrun] at hw₁ hl₁ hQ
    obtain ⟨hw₂, hl₂, hR⟩ := hf a w₁ hl₁ (hQ a rfl) hw₁
    rw [bind_of_ok hrun]
    exact ⟨hw₂, hl₁.trans hl₂, hR⟩

theorem map {R : β → World → Prop} (hm : Stays m w Q) (g : α → β) (hR : ∀ a w', Q a w' → R (g a) w') :
    Stays (g <$> m) w R := by
  rw [← bind_pure_comp]
  exact hm.bind fun a _ _ ha => .pure (hR a _ ha)

theorem bind_same {f : α → Run β} {R : β → World → Prop} {a : α} (hrun : m w = (.ok a, w))
    (hf : Stays (f a) w R) : Stays (m >>= f) w R := by
  intro hw
  rw [bind_of_ok hrun]
  exact hf hw

theorem of_regular (h : w.Regular → Stays m w Q) : Stays m w Q := fun hw => h hw hw

/-- What comes after a run of which nothing needs to be known. -/
theorem after {f : α → Run β} {R : β → World → Prop} (hm : Keeps Regrows m)
    (hf : ∀ a w', w.Larger w' → Stays (f a) w' R) : Stays (m >>= f) w R :=
  (of_keeps hm).bind fun a w' hl _ => hf a w' hl

theorem bind_read {f : α → Run β} {R : β → World → Prop} (h : Keeps Eq m)
    (hf : ∀ a, m w = (.ok a, w) → Stays (f a) w R) : Stays (m >>= f) w R := by
  have hm : Stays m w fun a w' => w' = w ∧ m w = (.ok a, w) := read h fun _ a ha => ⟨rfl, ha⟩
  refine hm.bind fun a w' _ ⟨heq, ha⟩ => ?_
  subst heq
  exact hf a ha

theorem forM {f : β → Run Unit} {as : List β} (hf : ∀ a ∈ as, ∀ w', w.Larger w' → Stays (f a) w' fun _ _ => True) :
    Stays (as.forM f) w fun _ _ => True := by
  induction as generalizing w with
  | nil => exact .pure trivial
  | cons a as ih =>
    rw [forM_cons]
    refine (hf a List.mem_cons_self w .rfl).bind fun _ w' hl _ => ih fun b hb w'' hl' => ?_
    exact hf b (List.mem_cons_of_mem _ hb) w'' (hl.trans hl')

/-- Letting go at the end of a scope. -/
theorem keeping {keep : α → List Held} {R : α → World → Prop} (hm : Stays m w Q)
    (hkeep : ∀ a w', Q a w' → ∀ j, Held.inst j ∈ keep a → w'.Knows j)
    (hR : ∀ a w' w'', Q a w' → w'.Larger w'' → R a w'') : Stays (Run.keeping keep m) w R := by
  intro hw
  obtain ⟨hw₁, hl₁, hQ⟩ := hm hw
  have hpins : (m w).2.Regrows { (m w).2 with pins := keptBy keep (m w).1 ++ w.pins } := by
    refine regrows_pins fun _ j hj => ?_
    rcases List.mem_append.1 hj with hkept | hold
    · cases hres : (m w).1 with
      | error e =>
        rw [hres] at hkept
        cases hkept
      | ok a =>
        rw [hres] at hkept
        exact hkeep a _ (hQ a hres) j hkept
    · exact (hw.pinned hold).larger hl₁
  obtain ⟨hw₂, hl₂⟩ := IsTrans.trans _ _ _ hpins (upkeep_settle (R := Regrows) _) hw₁
  rw [keeping_apply]
  exact ⟨hw₂, hl₁.trans hl₂, fun a ha => hR a _ _ (hQ a ha) hl₂⟩

end Stays

/-- In a scope that keeps hold of nothing. -/
theorem Stays.inScope (hm : Stays m w fun _ _ => True) : Stays (Run.inScope m) w fun _ _ => True :=
  hm.keeping (fun _ _ _ _ hj => by cases hj) fun _ _ _ _ _ => trivial

theorem Keeps.inScope_regrows (h : Keeps Regrows m) : Keeps Regrows (Run.inScope m) :=
  Stays.keeps fun _ => (Stays.of_keeps h).inScope

/-- An edit of the trees by which no node is lost. -/
theorem regrows_edit {g : Forest → Except Error Unit × Forest} (hg : ∀ f, Forest.Widens f (g f).2) :
    Keeps Regrows (edit g) := fun w => by
  rw [edit_apply]
  exact IsTrans.trans _ _ _ (regrows_mapForest (hg w.forest)) (keeps_ofExcept _ _)

/-! ## Notes and pins -/

theorem regrows_note (f : World → LogEntry) : Keeps Regrows (note f) := fun _ =>
  regrows_of_same rfl rfl rfl rfl .rfl fun _ _ hj => Or.inl hj

/-- Something that is there, or is no instance, is kept hold of. -/
theorem stays_pin {h : Held} (hknown : ∀ j, h = .inst j → w.Knows j) : Stays (pin h) w fun _ _ => True := by
  have hpins : w.Regrows { w with pins := h :: w.pins } := by
    refine regrows_pins fun hw j hj => ?_
    rcases List.mem_cons.1 hj with heq | hold
    · exact hknown j heq.symm
    · exact hw.pinned hold
  exact fun hw => ⟨(hpins hw).1, (hpins hw).2, fun _ _ => trivial⟩

theorem mem_ofValue {v : Value} {j : InstanceId} (h : Held.inst j ∈ Held.ofValue v) : j ∈ v.instances := by
  rcases List.mem_append.1 h with hinst | hcoll
  · obtain ⟨l, hl, hlj⟩ := List.mem_map.1 hinst
    exact Held.inst.inj hlj ▸ hl
  · obtain ⟨c, -, hcj⟩ := List.mem_map.1 hcoll
    cases hcj

theorem stays_pinValue {v : Value} (hv : w.KnowsValue v) : Stays (pinValue v) w fun _ _ => True := by
  have hpins : w.Regrows { w with pins := Held.ofValue v ++ w.pins } := by
    refine regrows_pins fun hw j hj => ?_
    exact (List.mem_append.1 hj).elim (fun hnew => hv j (mem_ofValue hnew)) fun hold => hw.pinned hold
  exact fun hw => ⟨(hpins hw).1, (hpins hw).2, fun _ _ => trivial⟩

/-- Letting go of one thing. -/
theorem regrows_unpin (h : Held) : Keeps Regrows (unpin h) := fun _ =>
  IsTrans.trans _ _ _ (regrows_pins fun hw _ hj => hw.pinned (List.mem_of_mem_erase hj)) (upkeep_settle (R := Regrows) _)

/-! ## Evaluating expressions -/

/-- The value of a property is one that the instance stores. -/
theorem getProperty_eq_ok {name : String} {v : Value} (h : getProperty i name w = (.ok v, w')) :
    ∃ x, w.inst? i = some x ∧ v ∈ x.values := by
  obtain ⟨n, w₁, hn, hrest⟩ := bind_eq_ok_iff.1 h
  obtain ⟨-, rfl⟩ := propertyIndex_eq_ok hn
  obtain ⟨x, w₂, hx, hv⟩ := bind_eq_ok_iff.1 hrest
  obtain ⟨hx, rfl⟩ := theInstance_eq_ok hx
  exact ⟨x, hx, List.mem_of_getElem? (ofOption_eq_ok hv).1⟩

theorem stays_theInstance (i : InstanceId) : Stays (theInstance i) w fun _ w' => w'.Knows i :=
  .read (keeps_theInstance i) fun _ _ hx => knows_of_inst? (theInstance_eq_ok hx).1

theorem stays_getProperty (i : InstanceId) (name : String) :
    Stays (getProperty i name) w fun v w' => w'.KnowsValue v := by
  refine .read (keeps_getProperty i name) fun hw v hv => ?_
  obtain ⟨x, hx, hmem⟩ := getProperty_eq_ok hv
  exact hw.stored hx hmem

theorem stays_labelled (label : String) : Stays (labelled label) w fun i w' => w'.Knows i := by
  refine .bind_same (get_apply w) (.bind_read (keeps_ofOption _) fun i hi => .of_regular fun hw => ?_)
  have hknown : w.Knows i := hw.labelled (Dict.mem_of_get? (ofOption_eq_ok hi).1)
  exact (stays_pin fun j hj => Held.inst.inj hj ▸ hknown).bind fun _ _ hl _ => .pure (hknown.larger hl)

theorem stays_pinnedProperty (i : InstanceId) (name : String) :
    Stays (do
      let v ← getProperty i name
      pinValue v
      return v) w fun v w' => w'.KnowsValue v :=
  (stays_getProperty i name).bind fun _ _ _ hv => (stays_pinValue hv).bind fun _ _ hl _ => .pure (hv.larger hl)

theorem stays_running {frame : Option Frame} (hframe : ∀ f ∈ frame, w.KnowsFrame f) :
    Stays (running frame) w fun i w' => w'.Knows i :=
  .bind_read (keeps_ofOption _) fun f hf => .pure (hframe f (ofOption_eq_ok hf).1).self

/-- The values in an array. -/
theorem mem_instancesOfItems {vs : List Value} {i : InstanceId} :
    i ∈ Value.instancesOfItems vs ↔ ∃ v ∈ vs, i ∈ v.instances := by
  induction vs with
  | nil => simp [Value.instancesOfItems]
  | cons v vs ih => simp [Value.instancesOfItems, ih]

mutual

/-- What an expression refers to is there. -/
theorem stays_evaluate {frame : Option Frame} : ∀ (e : Host.Expr) {w : World}, (∀ f ∈ frame, w.KnowsFrame f) →
    Stays (evaluate frame e) w fun v w' => w'.KnowsValue v
  | .null, w, _ | .bool _, w, _ | .number _, w, _ | .text _, w, _ => by
    unfold evaluate
    exact .pure (knowsValue_of_instances rfl)
  | .array items, w, hframe => by
    unfold evaluate
    refine (stays_evaluateItems items hframe).bind fun vs w' _ hvs => .pure fun j hj => ?_
    obtain ⟨v, hv, hj⟩ := mem_instancesOfItems.1 hj
    exact hvs v hv j hj
  | .object fields, w, hframe => by
    unfold evaluate
    refine (stays_evaluateFields fields hframe).bind fun vs w' _ hvs => .pure fun j hj => ?_
    obtain ⟨e, he, hj⟩ := mem_instancesOfFields.1 hj
    exact hvs e (Dict.mem_of_mem_ofList he) j hj
  | .labelled label, w, _ => by
    unfold evaluate
    refine (stays_labelled label).bind fun i w' _ hi => .pure fun j hj => ?_
    exact List.mem_singleton.1 hj ▸ hi
  | .collectionOf label property, w, _ => by
    unfold evaluate
    exact (stays_labelled label).bind fun i _ _ _ => stays_pinnedProperty i property
  | .heldCollection label, w, _ => by
    unfold evaluate
    refine .after keeps_get fun _ w' _ => .after (keeps_ofOption _) fun k w'' _ => ?_
    refine (stays_pin fun j hj => by cases hj).bind fun _ _ _ _ => .pure (knowsValue_of_instances rfl)
  | .payload, w, hframe => by
    unfold evaluate
    exact .bind_read (keeps_ofOption _) fun f hf => .pure (hframe f (ofOption_eq_ok hf).1).payload
  | .payloadText, w, _ => by
    unfold evaluate
    exact .after (keeps_ofOption _) fun _ _ _ => .pure (knowsValue_of_instances rfl)
  | .self, w, hframe => by
    unfold evaluate
    refine (stays_running hframe).bind fun i w' _ hi => .pure fun j hj => ?_
    exact List.mem_singleton.1 hj ▸ hi
  | .property name, w, _ => by
    unfold evaluate
    exact .after (keeps_running _) fun i _ _ => stays_pinnedProperty i name

theorem stays_evaluateItems {frame : Option Frame} : ∀ (es : List Host.Expr) {w : World},
    (∀ f ∈ frame, w.KnowsFrame f) → Stays (evaluateItems frame es) w fun vs w' => ∀ v ∈ vs, w'.KnowsValue v
  | [], w, _ => by
    unfold evaluateItems
    exact .pure fun v hv => by cases hv
  | e :: es, w, hframe => by
    unfold evaluateItems
    refine (stays_evaluate e hframe).bind fun v w₁ hl₁ hv => ?_
    refine (stays_evaluateItems es fun f hf => (hframe f hf).larger hl₁).bind fun vs w₂ hl₂ hvs => .pure ?_
    exact List.forall_mem_cons.2 ⟨hv.larger hl₂, hvs⟩

theorem stays_evaluateFields {frame : Option Frame} : ∀ (es : List (String × Host.Expr)) {w : World},
    (∀ f ∈ frame, w.KnowsFrame f) → Stays (evaluateFields frame es) w fun vs w' => ∀ e ∈ vs, w'.KnowsValue e.2
  | [], w, _ => by
    unfold evaluateFields
    exact .pure fun v hv => by cases hv
  | (k, e) :: es, w, hframe => by
    unfold evaluateFields
    refine (stays_evaluate e hframe).bind fun v w₁ hl₁ hv => ?_
    refine (stays_evaluateFields es fun f hf => (hframe f hf).larger hl₁).bind fun vs w₂ hl₂ hvs => .pure ?_
    exact List.forall_mem_cons.2 ⟨hv.larger hl₂, hvs⟩

end

theorem stays_evaluateOption {frame : Option Frame} (hframe : ∀ f ∈ frame, w.KnowsFrame f) (e : Option Host.Expr) :
    Stays (evaluateOption frame e) w fun v w' => ∀ u ∈ v, w'.KnowsValue u := by
  cases e with
  | none => exact .pure fun u hu => by cases hu
  | some e => exact (stays_evaluate e hframe).map some fun v w' hv u hu => Option.some.inj hu ▸ hv

end Run

/-- What is called back leaves regular worlds regular, if it is told of nothing that is missing. -/
structure Callbacks.Careful (cb : Callbacks) : Prop where
  construct : ∀ (id : ClassId) (init : Option Value) (w : World),
    Run.Stays (cb.construct id init) w fun i w' => w'.Knows i
  script : ∀ (frame : Frame) (script : Host.Script) (w : World), w.KnowsFrame frame →
    Run.Stays (cb.script frame script) w fun o w' => ∀ v ∈ o.returned, w'.KnowsValue v
  dispatch : ∀ (i : InstanceId) (name : String) (data : Value) (w : World), w.KnowsValue data →
    Run.Stays (cb.dispatch i name data) w fun _ _ => True

end ReactiveView
