import ReactiveView.Proofs.Bubbling.Trail
import ReactiveView.Proofs.Closed.Acts

/-!
# Quiet scripts

A script is *quiet* in a world when it returns there, however deeply it may call, and leaves nothing behind but
entries of the log and what its result keeps alive (`World.Returns`). While the methods of all classes and all
listeners are quiet (`World.Hushed`), whatever calls nothing else runs quietly as well: it gives one result in
all worlds that differ in the log and in what is kept hold of in addition (`World.Notes`, `Run.Quietly`). This needs
a world in which nothing is in use that nothing holds, since scopes end by letting go.
-/

set_option autoImplicit false

namespace ReactiveView

/-- The record without its listeners. -/
def Instance.deaf (x : Instance) : Instance := { x with dispatchListeners := [], mutationListeners := [] }

namespace World

variable {w w' w'' : World}

/-! ## Worlds with other listeners -/

/-- The same world, with other listeners, another log, and more that is kept hold of. -/
structure Resembles (w w' : World) : Prop where
  screen : w'.screen = w.screen
  classes : w'.classes = w.classes
  collections : w'.collections = w.collections
  spaces : w'.spaces = w.spaces
  registry : w'.registry = w.registry
  pins : w.pins ⊆ w'.pins
  inst : ∀ i, (w'.inst? i).map Instance.deaf = (w.inst? i).map Instance.deaf

namespace Resembles

variable (h : w.Resembles w')

include h

/-- What does not look at the listeners of an instance is the same. -/
theorem map_inst {β : Type} {g : Instance → β} (hg : ∀ x, g x.deaf = g x) (i : InstanceId) :
    (w'.inst? i).map g = (w.inst? i).map g := by
  have hg : g = g ∘ Instance.deaf := funext fun x => (hg x).symm
  rw [hg, ← Option.map_map, ← Option.map_map, h.inst i]

theorem exists_inst {i : InstanceId} {x : Instance} (hx : w.inst? i = some x) :
    ∃ x', w'.inst? i = some x' ∧ x'.deaf = x.deaf := by
  have hi := h.inst i
  rw [hx] at hi
  exact Option.map_eq_some_iff.1 hi

theorem isAlive (i : InstanceId) : w'.isAlive i = w.isAlive i := isAlive_congr (h.map_inst (fun _ => rfl) i)

theorem attachment? (i : InstanceId) : w'.attachment? i = w.attachment? i :=
  attachment?_congr (h.map_inst (fun _ => rfl) i)

theorem class? (id : ClassId) : w'.class? id = w.class? id := by
  unfold World.class?
  rw [h.classes]

theorem coll? (k : CollectionId) : w'.coll? k = w.coll? k := by
  unfold World.coll?
  rw [h.collections]

theorem forest : w'.forest = w.forest := congrArg Screen.forest h.screen

/-- Whoever was in use is, and stores and holds what it did. -/
theorem mem_liveInstances {x : Instance} (hx : x ∈ w.liveInstances) :
    ∃ x' ∈ w'.liveInstances, x'.values = x.values ∧ x'.nodesHeld = x.nodesHeld := by
  obtain ⟨i, hx, halive⟩ := mem_liveInstances_iff.1 hx
  obtain ⟨x', hx', hdeaf⟩ := h.exists_inst hx
  have hlive : x'.deaf.alive = x.deaf.alive := by rw [hdeaf]
  have hvalues : x'.deaf.values = x.deaf.values := by rw [hdeaf]
  have hnodes : x'.deaf.nodesHeld = x.deaf.nodesHeld := by rw [hdeaf]
  exact ⟨x', mem_liveInstances_iff.2 ⟨i, hx', hlive.trans halive⟩, hvalues, hnodes⟩

theorem heldInstances : w.heldInstances ⊆ w'.heldInstances := by
  intro i hi
  unfold World.heldInstances liveCollections liveSpaces at hi ⊢
  rw [h.registry, h.collections, h.spaces]
  simp only [List.mem_append] at hi ⊢
  refine hi.imp_left (Or.imp_left (Or.imp (Or.imp_left fun hi => ?_) fun hi => ?_))
  · exact List.filterMap_subset _ h.pins hi
  · obtain ⟨x, hx, hmem⟩ := List.mem_flatMap.1 hi
    obtain ⟨x', hx', hvalues, -⟩ := h.mem_liveInstances hx
    exact List.mem_flatMap.2 ⟨x', hx', hvalues ▸ hmem⟩

theorem heldNodes : w.heldNodes ⊆ w'.heldNodes := by
  intro n hn
  unfold World.heldNodes liveCollections liveSpaces at hn ⊢
  rw [h.collections, h.spaces]
  simp only [List.mem_append] at hn ⊢
  refine hn.imp_left (Or.imp_left (Or.imp (fun hn => ?_) fun hn => ?_))
  · exact List.filterMap_subset _ h.pins hn
  · obtain ⟨x, hx, hmem⟩ := List.mem_flatMap.1 hn
    obtain ⟨x', hx', -, hnodes⟩ := h.mem_liveInstances hx
    exact List.mem_flatMap.2 ⟨x', hx', hnodes ▸ hmem⟩

theorem idleInstances_subset : w'.idleInstances ⊆ w.idleInstances := by
  intro i hi
  obtain ⟨-, htest⟩ := List.mem_filter.1 hi
  rw [Bool.and_eq_true, Bool.not_eq_true', List.contains_eq_mem, decide_eq_false_iff_not, h.isAlive] at htest
  refine List.mem_filter.2 ⟨List.mem_map.2 ⟨i.index, List.mem_range.2 (lt_size_of_isAlive htest.1), rfl⟩, ?_⟩
  rw [Bool.and_eq_true, Bool.not_eq_true', List.contains_eq_mem, decide_eq_false_iff_not]
  exact ⟨htest.1, fun hheld => htest.2 (h.heldInstances hheld)⟩

/-- Where there is nothing to let go of, there still is not. -/
theorem settle (hstill : w.settle = w) : w'.settle = w' := by
  obtain ⟨hspaces, his, hcs, hnodes⟩ := settle_eq_iff.1 hstill
  have hlinks : w.forest.SameLinks w'.forest := h.forest ▸ .rfl
  have hholds : w.HoldsOn w' := holdsOn_of_same h.collections h.spaces h.registry h.pins
    (fun i hi => (h.isAlive i).trans hi) h.heldNodes hlinks
  refine settle_eq_iff.2 ⟨?_, ?_, ?_, ?_⟩
  · exact List.subset_nil.1 (hspaces ▸ hholds.idleSpaces_subset)
  · exact List.subset_nil.1 (his ▸ h.idleInstances_subset)
  · exact List.subset_nil.1 (hcs ▸ hholds.idleCollections_subset)
  · exact List.subset_nil.1 (hnodes ▸ hholds.unheld_subset)

end Resembles

/-- Somebody listens. -/
theorem resembles_listen (w : World) (i : InstanceId) (kind : EventClass) (name : String) (l : Listener) :
    w.Resembles (Run.listen i kind name l w).2 := by
  refine ⟨rfl, rfl, rfl, rfl, rfl, List.Subset.refl _, fun j => map_inst?_modifyInstance _ (fun x => ?_) w i j⟩
  cases kind <;> rfl

/-! ## Worlds that differ in the log -/

/-- The same world, with more in the log and more that is kept hold of. -/
def Notes (w w' : World) : Prop :=
  ∃ entries held, w' = { w with log := w.log ++ entries, pins := held ++ w.pins }

namespace Notes

theorem rfl : w.Notes w := ⟨[], [], by rw [List.append_nil, List.nil_append]⟩

theorem trans (h : w.Notes w') (h' : w'.Notes w'') : w.Notes w'' := by
  obtain ⟨entries, held, rfl⟩ := h
  obtain ⟨entries', held', rfl⟩ := h'
  exact ⟨entries ++ entries', held' ++ held, by rw [List.append_assoc, List.append_assoc]⟩

/-- An entry is added to the log. -/
theorem note (entries : List LogEntry) : w.Notes { w with log := w.log ++ entries } :=
  ⟨entries, [], by rw [List.nil_append]⟩

/-- Something is kept hold of. -/
theorem hold (held : List Held) : w.Notes { w with pins := held ++ w.pins } := ⟨[], held, by rw [List.append_nil]⟩

/-- What was kept hold of in addition is let go. -/
theorem unhold (h : w.Notes w') : w.Notes { w' with pins := w.pins } := by
  obtain ⟨entries, held, rfl⟩ := h
  exact note entries

variable (h : w.Notes w')

include h

theorem inst? (i : InstanceId) : w'.inst? i = w.inst? i := by
  obtain ⟨entries, held, rfl⟩ := h
  exact .refl _

theorem class? (id : ClassId) : w'.class? id = w.class? id := by
  obtain ⟨entries, held, rfl⟩ := h
  exact .refl _

theorem attachment? (i : InstanceId) : w'.attachment? i = w.attachment? i := by
  obtain ⟨entries, held, rfl⟩ := h
  exact .refl _

theorem isAlive (i : InstanceId) : w'.isAlive i = w.isAlive i := by
  obtain ⟨entries, held, rfl⟩ := h
  exact .refl _

theorem pins : w.pins ⊆ w'.pins := by
  obtain ⟨entries, held, rfl⟩ := h
  exact List.subset_append_right _ _

theorem resembles : w.Resembles w' := by
  have hpins := h.pins
  obtain ⟨entries, held, rfl⟩ := h
  exact ⟨.refl _, .refl _, .refl _, .refl _, .refl _, hpins, fun _ => .refl _⟩

end Notes

/-! ## Scripts that return -/

/-- With calls nested at least so deeply the script ends with the outcome, and leaves nothing behind but entries of
the log and what the outcome keeps alive. -/
def Returns (w : World) (bound : Nat) (frame : Frame) (script : Host.Script) (o : Outcome) : Prop :=
  ∀ w', w.Notes w' → ∃ entries, ∀ depth, bound ≤ depth → Run.runScript (.ofDepth depth) frame script w' =
    (.ok o, { w' with log := w'.log ++ entries, pins := o.held ++ w'.pins })

theorem Returns.unique {bound : Nat} {frame : Frame} {script : Host.Script} {o o' : Outcome}
    (h : w.Returns bound frame script o) (h' : w.Returns bound frame script o') : o = o' := by
  obtain ⟨entries, hrun⟩ := h w .rfl
  obtain ⟨entries', hrun'⟩ := h' w .rfl
  exact Except.ok.inj (Prod.mk.inj ((hrun bound (Nat.le_refl _)).symm.trans (hrun' bound (Nat.le_refl _)))).1

/-- The script of a listener returns, and prevents the event. -/
def Stops (w : World) (bound : Nat) (i : InstanceId) (data : Value) (l : Listener) : Prop :=
  ∃ o, w.Returns bound { self := i, payload := data } l.script o ∧ o.prevented = true

/-- The methods of instances in use return, and so do the listeners of dispatched events, given some payload. -/
structure Hushed (w : World) (bound : Nat) (data : Value) : Prop where
  method : ∀ i c name script node, w.isAlive i = true → w.classOf? i = some c →
    c.descriptor.methods.get? name = some script →
    ∃ o, w.Returns bound { self := i, node := node, payload := data } script o
  listener : ∀ i x event, w.isAlive i = true → w.inst? i = some x →
    ∀ l ∈ (x.dispatchListeners.get? event).getD [], ∃ o, w.Returns bound { self := i, payload := data } l.script o

end World

/-! ## Scripts that note and answer -/

/-- The action notes something, stops an event, or answers with something that is no object. -/
def Host.Action.isRemark : Host.Action → Bool
  | .log _ | .prevent | .give .null | .give (.bool _) | .give (.text _) => true
  | _ => false

namespace Run

open World

variable {w : World}

theorem runAction_remark {a : Host.Action} (ha : a.isRemark = true) (frame : Frame) : ∃ o : Outcome, o.held = [] ∧
    ∀ w, ∃ entries, ∀ cb, runAction cb frame a w = (.ok o, { w with log := w.log ++ entries }) := by
  -- without an entry the world stays as it is
  have hstays {o : Outcome} (h : o.held = []) (hrun : ∀ cb, runAction cb frame a = pure o) :
      ∃ o : Outcome, o.held = [] ∧ ∀ w, ∃ entries, ∀ cb,
        runAction cb frame a w = (.ok o, { w with log := w.log ++ entries }) := by
    refine ⟨o, h, fun w => ⟨[], fun cb => ?_⟩⟩
    rw [hrun, List.append_nil]
    rfl
  unfold Host.Action.isRemark at ha
  split at ha
  · next text =>
    refine ⟨{}, rfl, fun w => ⟨[.note text (w.labelOf frame.self) (w.shown frame.payload) (frame.node.bind w.tagOf)],
      fun cb => ?_⟩⟩
    unfold runAction
    rfl
  · exact hstays (o := { prevented := true }) rfl fun cb => by unfold runAction; rfl
  · exact hstays (o := { returned := some .null }) rfl fun cb => by unfold runAction evaluate; rfl
  · next b => exact hstays (o := { returned := some (.bool b) }) rfl fun cb => by unfold runAction evaluate; rfl
  · next s => exact hstays (o := { returned := some (.text s) }) rfl fun cb => by unfold runAction evaluate; rfl
  · cases ha

/-- Where there is nothing to let go of, a script that notes and answers returns. -/
theorem returns_of_remarks (hstill : w.settle = w) (frame : Frame) {script : Host.Script}
    (h : script.all Host.Action.isRemark = true) : ∃ o, o.held = [] ∧ w.Returns 0 frame script o := by
  induction script with
  | nil =>
    refine ⟨{}, rfl, fun w' _ => ⟨[], fun depth _ => ?_⟩⟩
    rw [runScript_nil, List.append_nil]
    rfl
  | cons a rest ih =>
    obtain ⟨ha, hrest⟩ := Bool.and_eq_true_iff.1 h
    obtain ⟨o, hheld, haction⟩ := runAction_remark ha frame
    obtain ⟨o', hheld', hreturns⟩ := ih hrest
    -- behind the action there is nothing to let go of either
    have hkept (w' : World) (hw' : w.Notes w') : ∃ entries, ∀ cb, keeping Outcome.held (runAction cb frame a) w' =
        (.ok o, { w' with log := w'.log ++ entries }) := by
      obtain ⟨entries, hrun⟩ := haction w'
      refine ⟨entries, fun cb => ?_⟩
      have hsettle := (hw'.trans (Notes.note entries)).resembles.settle hstill
      unfold keeping
      simp only [hrun cb, keptBy, hheld, List.nil_append]
      exact Prod.ext rfl hsettle
    cases hreturned : o.returned with
    | some v =>
      refine ⟨o, hheld, fun w' hw' => ?_⟩
      obtain ⟨entries, hrun⟩ := hkept w' hw'
      refine ⟨entries, fun depth _ => ?_⟩
      unfold runScript
      rw [bind_of_ok (hrun _), hreturned, hheld]
      rfl
    | none =>
      refine ⟨Outcome.andThen o o', hheld', fun w' hw' => ?_⟩
      obtain ⟨entries, hrun⟩ := hkept w' hw'
      obtain ⟨entries', hrun'⟩ := hreturns _ (hw'.trans (Notes.note entries))
      refine ⟨entries ++ entries', fun depth hdepth => ?_⟩
      unfold runScript
      rw [bind_of_ok (hrun _), hreturned]
      dsimp only
      rw [bind_of_ok (hrun' depth hdepth), List.append_assoc]
      rfl

/-- Methods and listeners that note and answer are quiet. -/
theorem hushed_of_remarks (hstill : w.settle = w) (data : Value)
    (hmethods : (w.classes.toList.all fun c => c.descriptor.methods.all fun e => e.2.all Host.Action.isRemark) = true)
    (hlisteners : (w.instances.toList.all fun x => x.dispatchListeners.all fun e => e.2.all fun l =>
      l.script.all Host.Action.isRemark) = true) : w.Hushed 0 data where
  method i c name script node _ hc hscript := by
    obtain ⟨x, -, hc⟩ := Option.bind_eq_some_iff.1 hc
    have hmem : c ∈ w.classes.toList := Array.mem_toList_iff.2 (Array.mem_of_getElem? hc)
    have hremarks := List.all_eq_true.1 (List.all_eq_true.1 hmethods c hmem) _ (Dict.mem_of_get? hscript)
    obtain ⟨o, -, hreturns⟩ := returns_of_remarks hstill { self := i, node := node, payload := data } hremarks
    exact ⟨o, hreturns⟩
  listener i x event _ hx l hl := by
    have hmem : x ∈ w.instances.toList := Array.mem_toList_iff.2 (Array.mem_of_getElem? hx)
    cases hget : x.dispatchListeners.get? event with
    | none =>
      rw [hget] at hl
      cases hl
    | some ls =>
      rw [hget] at hl
      have hall := List.all_eq_true.1 (List.all_eq_true.1 hlisteners x hmem) _ (Dict.mem_of_get? hget)
      have hremarks := List.all_eq_true.1 hall l hl
      obtain ⟨o, -, hreturns⟩ := returns_of_remarks hstill { self := i, payload := data } hremarks
      exact ⟨o, hreturns⟩

variable {α β : Type} {bound : Nat} {a : α} {b : β}

/-! ## Quiet runs -/

/-- With calls nested at least so deeply the runs give the same result in all worlds that differ in the log and in
what is kept hold of in addition, and nothing else changes. -/
def Quietly (w : World) (bound : Nat) (m : Nat → Run α) (a : α) : Prop :=
  ∀ w', w.Notes w' → ∃ w'', w'.Notes w'' ∧ ∀ depth, bound ≤ depth → m depth w' = (.ok a, w'')

namespace Quietly

variable {m : Nat → Run α}

/-- A look-up. -/
theorem read (h : ∀ w', w.Notes w' → ∀ depth, m depth w' = (.ok a, w')) : Quietly w bound m a := fun w' hw' =>
  ⟨w', .rfl, fun depth _ => h w' hw' depth⟩

theorem pure (a : α) : Quietly w bound (fun _ => Pure.pure a) a := .read fun _ _ _ => rfl

theorem bind {f : Nat → α → Run β} (hm : Quietly w bound m a) (hf : Quietly w bound (fun depth => f depth a) b) :
    Quietly w bound (fun depth => m depth >>= f depth) b := by
  intro w₁ hw₁
  obtain ⟨w₂, hw₂, hm⟩ := hm w₁ hw₁
  obtain ⟨w₃, hw₃, hf⟩ := hf w₂ (hw₁.trans hw₂)
  exact ⟨w₃, hw₂.trans hw₃, fun depth hdepth => (bind_of_ok (hm depth hdepth)).trans (hf depth hdepth)⟩

/-- What follows a look-up. -/
theorem bind_read {f : Nat → α → Run β} (hm : ∀ w', w.Notes w' → ∀ depth, m depth w' = (.ok a, w'))
    (hf : Quietly w bound (fun depth => f depth a) b) : Quietly w bound (fun depth => m depth >>= f depth) b :=
  .bind (.read hm) hf

/-- What follows a look at the world, and looks only at what is the same in all these worlds. -/
theorem bind_get {f : Nat → World → Run β} (hf : ∀ w', w.Notes w' → ∀ depth, f depth w' = f depth w)
    (h : Quietly w bound (fun depth => f depth w) b) : Quietly w bound (fun depth => get >>= f depth) b := by
  intro w₁ hw₁
  obtain ⟨w₂, hw₂, hrun⟩ := h w₁ hw₁
  refine ⟨w₂, hw₂, fun depth hdepth => (bind_of_ok (get_apply w₁)).trans ?_⟩
  rw [hf w₁ hw₁]
  exact hrun depth hdepth

theorem mono {bound' : Nat} (h : Quietly w bound m a) (hle : bound ≤ bound') : Quietly w bound' m a := by
  intro w' hw'
  obtain ⟨w'', hw'', hrun⟩ := h w' hw'
  exact ⟨w'', hw'', fun depth hdepth => hrun depth (Nat.le_trans hle hdepth)⟩

/-- What is run one level further down. -/
theorem below (h : Quietly w bound (fun depth => m (depth + 1)) a) : Quietly w (bound + 1) m a := by
  intro w' hw'
  obtain ⟨w'', hw'', hrun⟩ := h w' hw'
  refine ⟨w'', hw'', fun depth hdepth => ?_⟩
  obtain ⟨depth, rfl⟩ : ∃ d, depth = d + 1 := ⟨depth - 1, by omega⟩
  exact hrun depth (Nat.le_of_succ_le_succ hdepth)

theorem pin (h : Held) : Quietly w bound (fun _ => Run.pin h) () := fun _ _ =>
  ⟨_, .hold [h], fun _ _ => rfl⟩

theorem note (f : World → LogEntry) : Quietly w bound (fun _ => Run.note f) () := fun w' _ =>
  ⟨_, .note [f w'], fun _ _ => rfl⟩

/-- A scope lets go of what it has kept alive, and of nothing else. -/
theorem inScope (hstill : w.settle = w) (hm : Quietly w bound m a) :
    Quietly w bound (fun depth => Run.inScope (m depth)) a := by
  intro w₁ hw₁
  obtain ⟨w₂, hw₂, hrun⟩ := hm w₁ hw₁
  refine ⟨_, hw₂.unhold, fun depth hdepth => ?_⟩
  refine (inScope_apply (m depth) w₁).trans ?_
  rw [hrun depth hdepth, (hw₁.trans hw₂.unhold).resembles.settle hstill]

theorem script {frame : Frame} {script : Host.Script} {o : Outcome} (h : w.Returns bound frame script o) :
    Quietly w bound (fun depth => (Callbacks.ofDepth (depth + 1)).script frame script) o := by
  intro w' hw'
  obtain ⟨entries, hrun⟩ := h w' hw'
  exact ⟨_, (Notes.note entries).trans (.hold o.held), hrun⟩

end Quietly

/-! ## Methods and listeners -/

variable {data : Value} {i : InstanceId}

theorem quietly_callMethod (hhushed : w.Hushed bound data) {c : Class} {name : String} (node : Option NodeId)
    (hi : w.isAlive i = true) (hc : w.classOf? i = some c) (hname : c.descriptor.methods.contains name = true) :
    ∃ answer, Quietly w bound (fun depth => callMethod (.ofDepth (depth + 1)) i name node data) answer := by
  obtain ⟨script, hscript⟩ := Option.isSome_iff_exists.1 hname
  obtain ⟨o, ho⟩ := hhushed.method i c name script node hi hc hscript
  refine ⟨o.returned.getD .null, .bind_read (a := c) (fun w' hw' depth => ?_) ?_⟩
  · obtain ⟨x, hx, hcls⟩ := Option.bind_eq_some_iff.1 hc
    exact theClassOf_of ((hw'.inst? i).trans hx) ((hw'.class? _).trans hcls)
  · rw [hscript]
    exact (Quietly.script ho).bind (.pure _)

/-- The listeners are told, and it is known whether one of them stops the event. -/
theorem quietly_tellDispatch {event : String} {ls : List Listener}
    (hls : ∀ l ∈ ls, ∃ o, w.Returns bound { self := i, payload := data } l.script o) (prevented : Bool) :
    ∃ stopped, Quietly w bound (fun depth => tellDispatch (.ofDepth (depth + 1)) i event data prevented ls) stopped ∧
      (stopped = true ↔ prevented = true ∨ ∃ l ∈ ls, w.Stops bound i data l) := by
  induction ls generalizing prevented with
  | nil => exact ⟨prevented, .pure _, by simp⟩
  | cons l rest ih =>
    obtain ⟨o, ho⟩ := hls l List.mem_cons_self
    obtain ⟨stopped, hrun, hiff⟩ := ih (fun l hl => hls l (List.mem_cons_of_mem _ hl)) (prevented || o.prevented)
    refine ⟨stopped, (Quietly.note _).bind ((Quietly.script ho).bind hrun), ?_⟩
    have hstops : w.Stops bound i data l ↔ o.prevented = true := by
      refine ⟨?_, fun h => ⟨o, ho, h⟩⟩
      rintro ⟨o', ho', hprevented⟩
      rw [ho.unique ho']
      exact hprevented
    rw [hiff, Bool.or_eq_true, or_assoc, ← hstops]
    simp only [List.mem_cons, exists_eq_or_imp]

end Run

end ReactiveView
