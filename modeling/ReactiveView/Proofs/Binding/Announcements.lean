import ReactiveView.Proofs.Class.Cycles
import ReactiveView.Proofs.Interrupted.Listeners

/-!
# What a write announces

A write of a primitive property tells the listeners of the instance that the property has changed, and then
of each bound property that it recomputes. Where the listeners only record (`Listener.Records`) the write ends
well, and what is heard of it is a list that the class and the values before the write decide
(`World.announced_of_reaches`): first the written property, then the bound properties that read it through one or
more bindings, each once and after those of them that it reads, with the values that `Class.writtenUpTo` gives.

`Run.Tells` says which changes a run tells, and that it changes no other instance. The steps are
`Run.tells_writePrimitive` and `Run.tells_writeBinding`; `Run.tells_forM_writeBinding` is the run along the bound
properties.
-/

set_option autoImplicit false

namespace ReactiveView

variable {w w' w'' w₀ : World} {i : InstanceId} {x y : Instance} {c : Class}

/-! ## Listeners that only record -/

/-- Whether an entry of the log says that a property has been written. -/
def LogEntry.isMutation : LogEntry → Bool
  | .mutation .. => true
  | _ => false

namespace World

/-- The written properties that the log tells of, in order. -/
def heard (w : World) : List LogEntry := w.log.filter LogEntry.isMutation

/-- From one world to another instances go by the same labels, and no written property has been heard of. -/
structure HearsNothing (w w' : World) : Prop where
  registry : w'.registry = w.registry
  heard : w'.heard = w.heard

instance : IsLettingGo HearsNothing where
  refl _ := ⟨rfl, rfl⟩
  trans _ _ _ h h' := ⟨h'.registry.trans h.registry, h'.heard.trans h.heard⟩
  unlink _ _ := ⟨rfl, rfl⟩
  sweep _ _ := ⟨rfl, rfl⟩
  free _ _ := ⟨rfl, rfl⟩
  retire _ _ := ⟨rfl, rfl⟩
  retireColl _ _ := ⟨rfl, rfl⟩
  retireSpace _ _ := ⟨rfl, rfl⟩
  clear _ _ := ⟨rfl, rfl⟩

end World

/-- A listener that only records. Its script ends well, changes what no instance holds and no label, and writes
no property. -/
structure Listener.Records (cb : Callbacks) (i : InstanceId) (l : Listener) : Prop where
  ends : ∀ new w, ∃ o w', cb.script { self := i, payload := new } l.script w = (.ok o, w')
  alone : ∀ new j, Run.Keeps (World.LeavesAlone j) (cb.script { self := i, payload := new } l.script)
  silent : ∀ new, Run.Keeps World.HearsNothing (cb.script { self := i, payload := new } l.script)

theorem Listener.Records.leavesAlone {cb : Callbacks} {l : Listener} (h : l.Records cb i) : l.LeavesAlone cb i :=
  fun new => h.alone new i

/-- Whether an action leaves a note in the log. -/
def Host.Action.isNote : Host.Action → Bool
  | .log _ => true
  | _ => false

namespace Run

variable {cb : Callbacks} {frame : Frame}

theorem silent_runScript_notes (script : Host.Script) (h : script.all Host.Action.isNote = true) :
    Keeps World.HearsNothing (runScript cb frame script) := by
  induction script with
  | nil =>
    unfold runScript
    exact keeps_pure _
  | cons a rest ih =>
    obtain ⟨ha, hrest⟩ := Bool.and_eq_true_iff.1 h
    have hnote : Keeps World.HearsNothing (runAction cb frame a) := by
      cases a with
      | log text =>
        unfold runAction
        refine Keeps.bind (fun w => ⟨rfl, ?_⟩) fun _ => keeps_pure _
        exact (List.filter_append ..).trans (List.append_nil _)
      | _ => cases ha
    unfold runScript
    refine (hnote.keeping (fun w ps => ⟨rfl, rfl⟩) World.upkeep_settle).bind fun o => ?_
    split
    · exact keeps_pure _
    · exact (ih hrest).bind fun _ => keeps_pure _

theorem runScript_notes (script : Host.Script) (h : script.all Host.Action.isNote = true) (w : World) :
    ∃ o w', runScript cb frame script w = (.ok o, w') := by
  induction script generalizing w with
  | nil => exact ⟨{}, w, by unfold runScript; rfl⟩
  | cons a rest ih =>
    obtain ⟨ha, hrest⟩ := Bool.and_eq_true_iff.1 h
    have hnote : ∃ w₁, keeping Outcome.held (runAction cb frame a) w = (.ok {}, w₁) := by
      cases a with
      | log text =>
        unfold runAction
        exact ⟨_, rfl⟩
      | _ => cases ha
    obtain ⟨w₁, hw₁⟩ := hnote
    obtain ⟨o, w₂, hw₂⟩ := ih hrest w₁
    refine ⟨Outcome.andThen {} o, w₂, ?_⟩
    unfold runScript
    rw [bind_of_ok hw₁]
    dsimp only
    rw [bind_of_ok hw₂]
    rfl

end Run

theorem Host.reads_of_notes (script : Host.Script) (h : script.all Host.Action.isNote = true) :
    Host.readScript script = true := by
  induction script with
  | nil => rfl
  | cons a rest ih =>
    obtain ⟨ha, hrest⟩ := Bool.and_eq_true_iff.1 h
    unfold readScript
    refine Bool.and_eq_true_iff.2 ⟨?_, ih hrest⟩
    cases a with
    | log text => rfl
    | _ => cases ha

/-- A listener that leaves nothing but notes only records. -/
theorem Listener.records_of_notes {l : Listener} (h : l.script.all Host.Action.isNote = true) (depth : Nat)
    (i : InstanceId) : l.Records (Callbacks.ofDepth (depth + 1)) i where
  ends _ w := Run.runScript_notes l.script h w
  alone _ _ := Run.keeps_runScript_reads l.script (Host.reads_of_notes l.script h)
  silent _ := Run.silent_runScript_notes l.script h

/-! ## Changes -/

/-- A property with its value before and after a write. -/
structure Change where
  property : String
  old : Value
  new : Value

/-- What is told can be shown without a world. -/
structure Change.Primitive (a : Change) : Prop where
  old : a.old.isPrimitive = true
  new : a.new.isPrimitive = true

namespace Class

variable {vals : List Value} {name m : String} {v : Value}

/-- A property whose value goes over from some values to others. -/
def change (c : Class) (vals vals' : List Value) (m : String) : Change :=
  ⟨m, (c.valueIn vals m).getD .null, (c.valueIn vals' m).getD .null⟩

/-- The properties that a write changes, in the order in which they are written. -/
def changes (c : Class) (vals : List Value) (name : String) (v : Value) : List Change :=
  (name :: c.affected name).map (c.change vals (c.written vals name v))

/-- Recomputing properties one after the other changes each of them once, so that what is told of one is its value
before and after all of them. -/
theorem change_foldl_recomputed {ms : List String} (hm : m ∉ ms) {vals vals' : List Value} :
    c.change vals (ms.foldl c.recomputed vals') m = c.change vals vals' m := by
  unfold change
  rw [valueIn_foldl_recomputed_of_not_mem hm]

theorem change_recomputed_of_ne (hne : m ≠ name) {vals vals' : List Value} :
    c.change (c.recomputed vals name) vals' m = c.change vals vals' m := by
  unfold change
  rw [valueIn_recomputed_of_ne hne]

theorem change_put_of_ne (hne : m ≠ name) {vals vals' : List Value} :
    c.change (c.put vals name v) vals' m = c.change vals vals' m := by
  unfold change
  rw [valueIn_put_of_ne hne]

/-- A property has a primitive value. -/
def HoldsPrimitive (c : Class) (vals : List Value) (m : String) : Prop :=
  ∃ v, c.valueIn vals m = some v ∧ v.isPrimitive = true

theorem HoldsPrimitive.put (h : c.HoldsPrimitive vals m) (hv : v.isPrimitive = true) :
    c.HoldsPrimitive (c.put vals name v) m := by
  by_cases hne : m = name
  · subst hne
    obtain ⟨u, hu, -⟩ := h
    exact ⟨v, valueIn_put_self (by rw [hu]; rfl), hv⟩
  · unfold HoldsPrimitive
    rw [valueIn_put_of_ne hne]
    exact h

theorem HoldsPrimitive.recomputed (h : c.HoldsPrimitive vals m) : c.HoldsPrimitive (c.recomputed vals name) m := by
  unfold Class.recomputed
  split
  · exact h.put rfl
  · exact h

theorem HoldsPrimitive.foldl_recomputed (h : c.HoldsPrimitive vals m) (ms : List String) :
    c.HoldsPrimitive (ms.foldl c.recomputed vals) m := by
  induction ms generalizing vals with
  | nil => exact h
  | cons n ms ih => exact ih h.recomputed

theorem HoldsPrimitive.change {vals' : List Value} (h : c.HoldsPrimitive vals m) (h' : c.HoldsPrimitive vals' m) :
    (c.change vals vals' m).Primitive := by
  obtain ⟨v, hv, hprim⟩ := h
  obtain ⟨v', hv', hprim'⟩ := h'
  unfold Class.change
  rw [hv, hv']
  exact ⟨hprim, hprim'⟩

end Class

namespace World

/-- The entries by which listeners of an instance hear of a change. -/
def reports (w : World) (i : InstanceId) (ls : List Listener) (a : Change) : List LogEntry :=
  ls.map fun l => .mutation l.tag (w.labelOf i) a.property (w.shown a.old) (w.shown a.new)

/-- Primitive values look the same in every world. -/
theorem shown_of_isPrimitive {v : Value} (h : v.isPrimitive = true) (w w' : World) : w'.shown v = w.shown v := by
  cases v <;> first | rfl | cases h

/-- The label of an instance depends on the labels and its class. -/
theorem Contains.labelOf (h : w.Contains i c x) :
    w.labelOf i = labelAmong w.registry.instances i c.name := by
  obtain ⟨y, hy, hxy⟩ := h.inst
  unfold World.labelOf className classOf?
  rw [hy, Option.bind_some, hxy.classId, h.cls]

theorem Contains.reports_congr (h : w.Contains i c x) (h' : w'.Contains i c y) (hr : w'.registry = w.registry)
    {a : Change} (ha : a.Primitive) (ls : List Listener) : w'.reports i ls a = w.reports i ls a := by
  unfold reports
  rw [h.labelOf, h'.labelOf, hr, shown_of_isPrimitive ha.old w w', shown_of_isPrimitive ha.new w w']

/-- Changes are told in the same words in the middle of a write as before it. -/
theorem Contains.flatMap_reports (h : w.Contains i c x) (h' : w'.Contains i c y) (hr : w'.registry = w.registry)
    (ls : List Listener) (ms : List String) (g g' : String → Change) (hg : ∀ m ∈ ms, g' m = g m)
    (hprim : ∀ m ∈ ms, (g m).Primitive) :
    (ms.map g').flatMap (w'.reports i ls) = (ms.map g).flatMap (w.reports i ls) := by
  rw [List.flatMap_map, List.flatMap_map]
  refine List.flatMap_congr fun m hm => ?_
  rw [hg m hm, h.reports_congr h' hr (hprim m hm)]

end World

/-! ## The steps of a write -/

namespace Run

open World

variable {cb : Callbacks} {name : String} {n : Nat} {v : Value} {view : View} {es es' : List LogEntry}

/-- A run ends well, changes no label and no instance but one, and is heard of by these entries. -/
structure Tells (i : InstanceId) (es : List LogEntry) (r : Run Unit) (w : World) : Prop where
  ends : (r w).1 = .ok ()
  alone : ∀ j, j ≠ i → w.LeavesAlone j (r w).2
  registry : (r w).2.registry = w.registry
  heard : (r w).2.heard = w.heard ++ es

theorem tells_pure (w : World) : Tells i [] (pure ()) w :=
  ⟨rfl, fun _ _ => .rfl, rfl, (List.append_nil _).symm⟩

theorem Tells.run {r : Run Unit} (h : Tells i es r w) : r w = (.ok (), (r w).2) := Prod.ext h.ends rfl

theorem Tells.congr {m r : Run Unit} (h : Tells i es m w) (heq : r w = m w) : Tells i es r w := by
  refine ⟨?_, fun j hj => ?_, ?_, ?_⟩ <;> rw [heq]
  · exact h.ends
  · exact h.alone j hj
  · exact h.registry
  · exact h.heard

theorem Tells.seq {m r : Run Unit} (hm : Tells i es m w) (hr : Tells i es' r (m w).2) :
    Tells i (es ++ es') (m >>= fun _ => r) w := by
  have hrun : (m >>= fun _ => r) w = r (m w).2 := bind_of_ok hm.run
  refine ⟨?_, fun j hj => ?_, ?_, ?_⟩ <;> rw [hrun]
  · exact hr.ends
  · exact (hm.alone j hj).trans (hr.alone j hj)
  · exact hr.registry.trans hm.registry
  · rw [hr.heard, hm.heard, List.append_assoc]

theorem tells_of_ok {α : Type} {a : α} {m : Run α} {r : α → Run Unit} (hm : m w = (.ok a, w))
    (h : Tells i es (r a) w) : Tells i es (m >>= r) w := by
  have hrun : (m >>= r) w = r a w := bind_of_ok hm
  exact ⟨by rw [hrun]; exact h.ends, fun j hj => by rw [hrun]; exact h.alone j hj, by rw [hrun]; exact h.registry,
    by rw [hrun]; exact h.heard⟩

/-- A change of the screen or of the instance itself is not heard of. -/
theorem tells_update {f : World → World} (halone : ∀ j, j ≠ i → w.LeavesAlone j (f w))
    (hr : (f w).registry = w.registry) (hlog : (f w).log = w.log) : Tells i [] (update f) w :=
  ⟨rfl, halone, hr, (congrArg (List.filter LogEntry.isMutation) hlog).trans (List.append_nil _).symm⟩

section Listeners

variable (hrec : ∀ l ∈ x.valueListeners, l.Records cb i)

include hrec

/-- A listener that only records is told of one change. -/
theorem tells_tellMutation {l : Listener} (hl : l ∈ x.valueListeners) (a : Change) (w : World) :
    Tells i (w.reports i [l] a) (tellMutation cb i a.property a.old a.new l) w := by
  have hnoted : ({ w with log := w.log ++ w.reports i [l] a } : World).heard = w.heard ++ w.reports i [l] a :=
    List.filter_append ..
  have halone (j : InstanceId) : w.LeavesAlone j { w with log := w.log ++ w.reports i [l] a } := .of_same rfl rfl
  obtain ⟨o, w₁, hscript⟩ := (hrec l hl).ends a.new { w with log := w.log ++ w.reports i [l] a }
  have hsilent := (hrec l hl).silent a.new { w with log := w.log ++ w.reports i [l] a }
  have hothers (j : InstanceId) := (hrec l hl).alone a.new j { w with log := w.log ++ w.reports i [l] a }
  rw [hscript] at hsilent hothers
  have hrun : tellMutation cb i a.property a.old a.new l w = (.ok (), w₁) :=
    (bind_of_ok (update_apply _ w)).trans (bind_of_ok hscript)
  refine ⟨?_, fun j _ => ?_, ?_, ?_⟩ <;> rw [hrun]
  · exact (halone j).trans (hothers j)
  · exact hsilent.registry
  · exact hsilent.heard.trans hnoted

/-- All listeners are told of a change, one after the other. -/
theorem tells_announce (hx : w.Contains i c x) {a : Change} (ha : a.Primitive) :
    Tells i (w.reports i x.valueListeners a) (announce cb i a.property a.old a.new) w := by
  have hquiet (l : Listener) (hl : l ∈ x.valueListeners) := (hrec l hl).leavesAlone
  have hloop (ls : List Listener) (hls : ls ⊆ x.valueListeners) :
      ∀ {w}, w.Contains i c x →
        Tells i (w.reports i ls a) (ls.forM (tellMutation cb i a.property a.old a.new)) w := by
    induction ls with
    | nil => exact fun {w} _ => tells_pure w
    | cons l ls ih =>
      obtain ⟨hl, hls⟩ := List.cons_subset.1 hls
      intro w hw
      have hfirst := tells_tellMutation hrec hl a w
      have hnext := (writes_tellMutation hquiet hl a.property a.old a.new hw).contains
      have hrest := ih hls hnext
      rw [hw.reports_congr hnext hfirst.registry ha] at hrest
      rw [forM_cons]
      exact hfirst.seq hrest
  obtain ⟨y, hy, hxy⟩ := hx.inst
  have hlisteners : (y.mutationListeners.get? EventClass.propertyChange).getD [] = x.valueListeners := by
    unfold Instance.valueListeners
    rw [hxy.mutationListeners]
  refine tells_of_ok (theInstance_of hy) ?_
  dsimp only
  rw [hlisteners]
  exact hloop _ (List.Subset.refl _) hx

/-- A stored value is told together with the one that it replaces. -/
theorem tells_writePrimitive (hx : w.Contains i c x) (hview : x.view = some view)
    (hlen : x.values.length = c.descriptor.properties.length)
    (hn : c.descriptor.propertyIndex? name = some n)
    (ha : (c.change x.values (c.put x.values name v) name).Primitive) :
    Tells i (w.reports i x.valueListeners (c.change x.values (c.put x.values name v) name))
      (writePrimitive cb i n name v) w := by
  have hput : c.put x.values name v = x.values.set n v := by
    unfold Class.put
    rw [hn]
  obtain ⟨p, hp, -⟩ := Descriptor.propertyIndex?_some hn
  have hlt : n < x.values.length := hlen ▸ (List.getElem?_eq_some_iff.1 hp).1
  have hbefore : c.valueIn x.values name = some x.values[n] := by
    unfold Class.valueIn
    rw [hn, Option.bind_some, List.getElem?_eq_getElem hlt]
  have hchange : c.change x.values (c.put x.values name v) name = ⟨name, x.values[n], v⟩ := by
    unfold Class.change
    rw [Class.valueIn_put_self (by rw [hbefore]; rfl), hbefore]
    rfl
  -- after rendering, whether or not there is a place to render in
  have hrest {w : World} (hx : w.Contains i c x) :
      Tells i (w.reports i x.valueListeners (c.change x.values (c.put x.values name v) name)) (do
        let old ← ofOption (← theInstance i).values[n]?
        update fun w => w.storeValue i n v
        announce cb i name old v : Run Unit) w := by
    obtain ⟨y, hy, hxy⟩ := hx.inst
    have hold : y.values[n]? = some x.values[n] := by rw [hxy.values, List.getElem?_eq_getElem hlt]
    refine tells_of_ok (theInstance_of hy) ?_
    rw [hold]
    refine tells_of_ok (ofOption_some _ _) ?_
    have hstore : Tells i [] (update fun w => w.storeValue i n v) w :=
      tells_update (fun j hj => ⟨fun _ _ h => h, fun z hz =>
        ⟨z, (inst?_modifyInstance_of_ne _ _ (Ne.symm hj)).trans hz, .rfl⟩⟩) rfl rfl
    have hstored := hx.storeValue n v
    rw [← hput] at hstored
    have htold := tells_announce (x := { x with values := c.put x.values name v }) hrec hstored ha
    rw [hx.reports_congr hstored rfl ha] at htold
    rw [hchange] at htold ⊢
    exact hstore.seq htold
  obtain ⟨y, hy, hxy⟩ := hx.inst
  refine tells_of_ok hx.theClassOf (tells_of_ok (theView_of hy (hxy.view.trans hview)) ?_)
  split
  · next places _ =>
    have hrender : Tells i [] (update fun w => w.renderIn c places (.property name) v.outputText) w :=
      tells_update (fun j _ => .of_same rfl rfl) rfl rfl
    have hrendered : (w.renderIn c places (.property name) v.outputText).Contains i c x := hx.congr rfl rfl
    have hnext := hrest hrendered
    rw [hx.reports_congr hrendered rfl ha] at hnext
    exact hrender.seq hnext
  · exact hrest hx

/-- A bound property is told with its recomputed value. -/
theorem tells_writeBinding (hx : w.Contains i c x) (hview : x.view = some view)
    (hlen : x.values.length = c.descriptor.properties.length) {f : Format} (hf : c.bindingOf? name = some f)
    (ha : (c.change x.values (c.recomputed x.values name) name).Primitive) :
    Tells i (w.reports i x.valueListeners (c.change x.values (c.recomputed x.values name) name))
      (writeBinding cb i name) w := by
  obtain ⟨p, hp, -⟩ := Option.bind_eq_some_iff.1 hf
  obtain ⟨hpm, rfl⟩ := Descriptor.property?_some hp
  obtain ⟨n, hn, -⟩ := Option.bind_eq_some_iff.1
    (Option.isSome_iff_exists.1 (Class.isSome_valueIn hlen hpm)).choose_spec
  have hrec' : c.recomputed x.values p.name = c.put x.values p.name (.text (f.render (c.textIn x.values))) := by
    unfold Class.recomputed
    rw [hf]
  rw [hrec'] at ha ⊢
  have hwrite := tells_writePrimitive hrec hx hview hlen hn ha
  refine tells_of_ok (hx.propertyIndex hn) (tells_of_ok hx.theClassOf ?_)
  unfold Class.bindingOf? at hf
  rw [hf]
  dsimp only
  refine tells_of_ok (ask_apply _ w) ?_
  rw [hx.textOfSource]
  exact hwrite

/-! ## The run -/

/-- Bound properties are told one after the other, each with its value before and after all of them. -/
theorem tells_forM_writeBinding (hc : c.Valid) {names : List String} (hnames : ∀ m ∈ names, m ∈ c.graph.order)
    (hnd : names.Nodup) (hx : w.Contains i c x) (hview : x.view = some view)
    (hlen : x.values.length = c.descriptor.properties.length)
    (hprim : ∀ m ∈ names, c.HoldsPrimitive x.values m) :
    Tells i ((names.map (c.change x.values (names.foldl c.recomputed x.values))).flatMap
      (w.reports i x.valueListeners)) (names.forM (writeBinding cb i)) w := by
  induction names generalizing w x with
  | nil => exact tells_pure w
  | cons m ms ih =>
    obtain ⟨hm, hnd⟩ := List.nodup_cons.1 hnd
    obtain ⟨f, hf⟩ := hc.bindingOf?_of_mem_order (hnames m List.mem_cons_self)
    have hself := hprim m List.mem_cons_self
    have hfirst := tells_writeBinding hrec hx hview hlen hf (hself.change hself.recomputed)
    have hnext := (writes_writeBinding (fun l hl => (hrec l hl).leavesAlone) hx hview hlen hf).contains
    have hlen' : (c.recomputed x.values m).length = c.descriptor.properties.length := by
      rw [Class.length_recomputed, hlen]
    have hrest := ih (x := { x with values := c.recomputed x.values m }) hrec
      (fun k hk => hnames k (List.mem_cons_of_mem _ hk)) hnd hnext hview hlen'
      fun k hk => (hprim k (List.mem_cons_of_mem _ hk)).recomputed
    -- told in the terms of the world and the values before the first of them
    have hshift := hx.flatMap_reports hnext hfirst.registry x.valueListeners ms
      (c.change x.values (ms.foldl c.recomputed (c.recomputed x.values m)))
      (c.change (c.recomputed x.values m) (ms.foldl c.recomputed (c.recomputed x.values m)))
      (fun k hk => Class.change_recomputed_of_ne (ne_of_mem_of_not_mem hk hm))
      fun k hk =>
        have hprimitive := hprim k (List.mem_cons_of_mem _ hk)
        hprimitive.change (hprimitive.recomputed.foldl_recomputed ms)
    have hboth := hfirst.seq (hshift ▸ hrest)
    rw [forM_cons, List.map_cons, List.flatMap_cons, List.foldl_cons, Class.change_foldl_recomputed hm]
    exact hboth

omit hrec in
/-- A write of a primitive property that passes the check writes the value, and then the bound properties that
depend on it. -/
theorem setProperty_of_check (hx : w.Contains i c x) {p : PropertyDescriptor} {types : Option (List PrimitiveType)}
    (hn : c.descriptor.propertyIndex? p.name = some n) (hp : c.descriptor.properties[n]? = some p)
    (hkind : p.kind = .primitive types) (hv : checkPrimitive p.name types v = .ok ()) {w₁ : World} {x₁ : Instance}
    (hwrite : writePrimitive cb i n p.name v w = (.ok (), w₁)) (hx₁ : w₁.Contains i c x₁) :
    setProperty cb i p.name v w = (c.affected p.name).forM (writeBinding cb i) w₁ := by
  unfold setProperty
  rw [bind_of_ok (hx.propertyIndex hn), bind_of_ok hx.theClassOf, hp, bind_of_ok (ofOption_some _ _), hkind]
  dsimp only
  unfold setPrimitive
  rw [hv, bind_of_ok (ofExcept_ok _ _), bind_of_ok hwrite]
  unfold propagate
  rw [bind_of_ok hx₁.theClassOf]

/-- A write of a primitive property that passes the check tells all that it changes. -/
theorem tells_setProperty (hc : c.Valid) (hx : w.Contains i c x) (hview : x.view = some view)
    (hlen : x.values.length = c.descriptor.properties.length) {p : PropertyDescriptor}
    {types : Option (List PrimitiveType)} (hp : c.descriptor.properties[n]? = some p)
    (hkind : p.kind = .primitive types) (hv : checkPrimitive p.name types v = .ok ())
    (hprim : ∀ m ∈ p.name :: c.affected p.name, c.HoldsPrimitive x.values m) :
    Tells i ((c.changes x.values p.name v).flatMap (w.reports i x.valueListeners)) (setProperty cb i p.name v) w ∧
      (setProperty cb i p.name v w).2.Contains i c { x with values := c.written x.values p.name v } := by
  have hn := hc.descriptor.propertyIndex?_name hp
  have hquiet (l : Listener) (hl : l ∈ x.valueListeners) := (hrec l hl).leavesAlone
  have hself : p.name ∉ c.affected p.name := Graph.not_mem_downstream_self hc.topological p.name
  have hvprim := ((checkPrimitive_eq_ok_iff p.name types v).1 hv).1
  have hbefore := hprim p.name List.mem_cons_self
  have hfirst := tells_writePrimitive hrec hx hview hlen hn (hbefore.change (hbefore.put hvprim))
  have hstored := (writes_writePrimitive hquiet hx hview hlen hn v).contains
  have hlen' : (c.put x.values p.name v).length = c.descriptor.properties.length := by
    rw [Class.length_put, hlen]
  have horder (m : String) (hm : m ∈ c.affected p.name) : m ∈ c.graph.order :=
    Graph.mem_order_of_mem_downstream _ _ _ _ hm
  have hrest := tells_forM_writeBinding (x := { x with values := c.put x.values p.name v }) hrec hc horder
    (hc.nodup_affected p.name) hstored hview hlen' fun m hm => (hprim m (List.mem_cons_of_mem _ hm)).put hvprim
  -- told in the terms of the world and the values before the write
  have hshift := hx.flatMap_reports hstored hfirst.registry x.valueListeners (c.affected p.name)
    (c.change x.values (c.written x.values p.name v))
    (c.change (c.put x.values p.name v) (c.written x.values p.name v))
    (fun m hm => Class.change_put_of_ne (ne_of_mem_of_not_mem hm hself))
    fun m hm =>
      have hprimitive := hprim m (List.mem_cons_of_mem _ hm)
      hprimitive.change ((hprimitive.put hvprim).foldl_recomputed _)
  have hrun := setProperty_of_check hx hn hp hkind hv hfirst.run hstored
  constructor
  · have hboth := hfirst.seq (hshift ▸ hrest)
    have hhead : c.change x.values (c.put x.values p.name v) p.name =
        c.change x.values (c.written x.values p.name v) p.name := (Class.change_foldl_recomputed hself).symm
    rw [hhead] at hboth
    unfold Class.changes
    rw [List.map_cons, List.flatMap_cons]
    have hseq : (writePrimitive cb i n p.name v >>= fun _ => (c.affected p.name).forM (writeBinding cb i)) w = _ :=
      bind_of_ok hfirst.run
    exact hboth.congr (hrun.trans hseq.symm)
  · rw [hrun]
    exact contains_forM_writeBinding (x := { x with values := c.put x.values p.name v }) hquiet hc horder hstored
      hview hlen' hrest.run

end Listeners

end Run

/-! ## What follows from a write -/

namespace Class

namespace Valid

variable {vals : List Value} {name m r : String} {v : Value} (hc : c.Valid)

include hc

/-- Reading through the graph of a class is reading through the bindings of its properties. -/
theorem through_iff : Graph.Through c.descriptor.properties m r ↔ Graph.Feeds c.readsOf c.graph.order r m := by
  constructor
  · intro h
    obtain ⟨p, hp, rfl, hr⟩ := h.exists_bound
    obtain ⟨hp, hbound⟩ := List.mem_filter.1 hp
    refine ⟨(hc.mem_order p.name).2 ⟨p, hp, hbound, rfl⟩, ?_⟩
    unfold Class.readsOf
    rw [hc.descriptor.property?_name hp]
    exact hr
  · rintro ⟨hm, hr⟩
    obtain ⟨p, hp, -, rfl⟩ := (hc.mem_order m).1 hm
    unfold Class.readsOf at hr
    rw [hc.descriptor.property?_name hp] at hr
    exact ⟨p, hp, rfl, hr⟩

/-- A write reaches the bound properties that read the written one through one or more bindings. -/
theorem mem_affected_iff :
    m ∈ c.affected name ↔ Relation.TransGen (Graph.Through c.descriptor.properties) m name := by
  have hswap : Graph.Through c.descriptor.properties =
      Function.swap (Graph.Feeds c.readsOf c.graph.order) :=
    funext fun _ => funext fun _ => propext hc.through_iff
  rw [hswap, Relation.transGen_swap]
  exact Graph.mem_downstream_iff_transGen hc.topological name m

/-- A write reaches a property after everything that it reaches and that the property reads. -/
theorem mem_before_of_through {pre post : List String} (hsplit : c.affected name = pre ++ m :: post)
    (hr : r ∈ c.affected name) (h : Graph.Through c.descriptor.properties m r) : r ∈ pre := by
  obtain ⟨hm, hreads⟩ := hc.through_iff.1 h
  have hpw := hc.pairwise_affected name
  rw [hsplit] at hpw hr
  rcases List.mem_append.1 hr with hr | hr
  · exact hr
  · rcases List.mem_cons.1 hr with rfl | hr
    · exact absurd hreads (hc.not_mem_readsOf_self hm)
    · exact absurd hreads ((List.pairwise_cons.1 (List.pairwise_append.1 hpw).2.1).1 r hr)

/-- What a write leaves in a property that it reaches is its format rendered with the values that are there when
its turn comes. -/
theorem valueIn_written_of_getElem? {k : Nat} (hlen : vals.length = c.descriptor.properties.length)
    (hk : (c.affected name)[k]? = some m) : ∃ f, c.bindingOf? m = some f ∧
      c.valueIn (c.written vals name v) m = some (.text (f.render (c.textIn (c.writtenUpTo vals name v k)))) := by
  obtain ⟨f, hf⟩ := hc.bindingOf?_of_mem_order
    (Graph.mem_order_of_mem_downstream _ _ _ _ (List.mem_of_getElem? hk))
  obtain ⟨p, hp, -⟩ := Option.bind_eq_some_iff.1 hf
  obtain ⟨hpm, rfl⟩ := Descriptor.property?_some hp
  obtain ⟨hlt, hat⟩ := List.getElem?_eq_some_iff.1 hk
  have hsplit : c.affected name = (c.affected name).take k ++ p.name :: (c.affected name).drop (k + 1) := by
    conv_lhs => rw [← List.take_append_drop k (c.affected name)]
    rw [List.drop_eq_getElem_cons hlt, hat]
  have hafter : p.name ∉ (c.affected name).drop (k + 1) := by
    have hnd := hc.nodup_affected name
    rw [hsplit] at hnd
    exact (List.nodup_cons.1 (List.nodup_append.1 hnd).2.1).1
  have hwritten : c.written vals name v =
      ((c.affected name).drop (k + 1)).foldl c.recomputed (c.recomputed (c.writtenUpTo vals name v k) p.name) := by
    unfold written writtenUpTo
    conv_lhs => rw [hsplit]
    rw [List.foldl_append, List.foldl_cons]
  refine ⟨f, hf, ?_⟩
  rw [hwritten, valueIn_foldl_recomputed_of_not_mem hafter]
  unfold recomputed
  rw [hf]
  refine valueIn_put_self (isSome_valueIn ?_ hpm)
  unfold writtenUpTo
  rw [length_foldl_recomputed, length_put, hlen]

end Valid

end Class

namespace World

/-- A primitive property of an instance has a primitive value. -/
theorem Fills.holdsPrimitive (h : w.Fills i c x) (hc : c.Valid) {p : PropertyDescriptor}
    (hp : p ∈ c.descriptor.properties) (hprim : p.kind.isPrimitive = true) : c.HoldsPrimitive x.values p.name := by
  obtain ⟨n, hn⟩ := List.getElem?_of_mem hp
  obtain ⟨v, hv, hsuits⟩ := getElem?_of_forall₂ h.values hn
  refine ⟨v, ?_, ?_⟩
  · unfold Class.valueIn
    rw [hc.descriptor.propertyIndex?_name hn, Option.bind_some, hv]
  · cases hsuits with
    | primitive _ hv => exact hv
    | empty hk | child hk _ | sequence hk _ _ _ _ =>
      rw [hk] at hprim
      cases hprim

/-- A write of a property has been carried out and announced. -/
structure Announced (w w' : World) (i : InstanceId) (x y : Instance) (c : Class) (name : String) (v : Value) :
    Prop where
  found : w'.inst? i = some y
  contents : Instance.SameContents { x with values := c.written x.values name v } y
  /-- The listeners hear of the written property and the bound ones that it reaches, in this order, and of no
  other. -/
  heard : w'.heard = w.heard ++ (c.changes x.values name v).flatMap (w.reports i x.valueListeners)
  once : (name :: c.affected name).Nodup
  reached : ∀ m, m ∈ c.affected name ↔ Relation.TransGen (Graph.Through c.descriptor.properties) m name
  ordered : ∀ pre m post, c.affected name = pre ++ m :: post →
    ∀ r ∈ c.affected name, Graph.Through c.descriptor.properties m r → r ∈ pre
  written : (∃ old, c.valueIn x.values name = some old) ∧ c.valueIn y.values name = some v
  recomputed : ∀ (k : Nat) m, (c.affected name)[k]? = some m → ∃ f, c.bindingOf? m = some f ∧
    c.valueIn y.values m = some (.text (f.render (c.textIn (c.writtenUpTo x.values name v k))))
  rest : ∀ m, m ≠ name → m ∉ c.affected name → c.valueIn y.values m = c.valueIn x.values m
  alone : ∀ j, j ≠ i → w.LeavesAlone j w'

/-- Whatever has been done after a fresh start: an accepted value is written to a primitive property of an instance
whose listeners only record. The write ends well; it announces the property and then each bound property that reads
it through one or more bindings, once and after what it reads, with its format rendered with the values then
stored; and nothing else is announced or changed. -/
theorem announced_of_reaches (h₀ : w₀.Unused) (hreach : w₀.Reaches w) {cb : Callbacks} {n : Nat}
    {p : PropertyDescriptor} {types : Option (List PrimitiveType)} {v : Value} (hx : w.inst? i = some x)
    (hc : w.class? x.classId = some c) (hp : c.descriptor.properties[n]? = some p) (hkind : p.kind = .primitive types)
    (hv : checkPrimitive p.name types v = .ok ()) (hrec : ∀ l ∈ x.valueListeners, l.Records cb i) :
    ∃ w' y, Run.setProperty cb i p.name v w = (.ok (), w') ∧ w.Announced w' i x y c p.name v := by
  have hw := hreach.sound h₀.sound
  have hvalid := hw.compiled.valid hc
  obtain ⟨c₁, hc₁, hfills⟩ := hw.inst i x hx
  obtain rfl := Option.some.inj (hc.symm.trans hc₁)
  have hlen := hfills.values.length_eq.symm
  have hpm := List.mem_of_getElem? hp
  have hself := Class.isSome_valueIn hlen hpm
  obtain ⟨g, home, hpresents⟩ := Steps.presents (hreach.steps h₀.sound) h₀.sound h₀.presents
  obtain ⟨_, view, hconsistent⟩ := hpresents.viewConsistent hx
  have hprim : ∀ m ∈ p.name :: c.affected p.name, c.HoldsPrimitive x.values m := by
    intro m hm
    rcases List.mem_cons.1 hm with rfl | hm
    · exact hfills.holdsPrimitive hvalid hpm (by rw [hkind]; rfl)
    · obtain ⟨q, hq, hbound, rfl⟩ := hvalid.bound_of_mem_affected hm
      exact hfills.holdsPrimitive hvalid hq (hvalid.descriptor.bound_primitive q hq hbound)
  obtain ⟨htells, -, y, hy, hxy⟩ := Run.tells_setProperty hrec hvalid (contains_of_inst? hx hc)
    hconsistent.hasView hlen hp hkind hv hprim
  refine ⟨(Run.setProperty cb i p.name v w).2, y, Prod.ext htells.ends rfl, ?_⟩
  have hvalues : y.values = c.written x.values p.name v := hxy.values
  refine
    { found := hy
      contents := hxy
      heard := htells.heard
      once := List.nodup_cons.2 ⟨Graph.not_mem_downstream_self hvalid.topological p.name,
        hvalid.nodup_affected p.name⟩
      reached := fun m => hvalid.mem_affected_iff
      ordered := fun pre m post hsplit r hr h => hvalid.mem_before_of_through hsplit hr h
      written := ⟨Option.isSome_iff_exists.1 hself, ?_⟩
      recomputed := fun k m hk => ?_
      rest := fun m hne hm => ?_
      alone := htells.alone }
  all_goals rw [hvalues]
  · exact hvalid.valueIn_written_self hself
  · exact hvalid.valueIn_written_of_getElem? hlen hk
  · exact Class.Valid.valueIn_written_of_not_mem hne hm

/-! ### A label whose changes are recorded -/

end World

/-- A listener that leaves a note. -/
def recorder : Listener := ⟨"recorder", [.log "told"]⟩

/-- A label with the word `old` whose changes are recorded. -/
def recorded : World :=
  let w := (Run.constructInstance (Callbacks.ofDepth 2) ⟨0⟩ (some (.object [("word", .text "old")])) labelWorld).2
  ((Operation.listen ⟨0⟩ .mutation "PropertyValueChange" recorder).run (Callbacks.ofDepth 2) w).2

/-- The property that an entry of the log tells of, and the texts that it shows. -/
def LogEntry.texts : LogEntry → Option (String × String × String)
  | .mutation _ _ property (.text old) (.text new) => some (property, old, new)
  | _ => none

namespace World

theorem reaches_recorded : labelWorld.Reaches recorded := by
  have hmake : labelWorld.Does (Run.constructInstance (Callbacks.ofDepth 2) ⟨0⟩
      (some (.object [("word", .text "old")])) labelWorld).2 :=
    ⟨2, .construct ⟨0⟩ (some (.object [("word", .text "old")])), (Run.discard_apply _ _).symm⟩
  exact (Relation.ReflTransGen.single hmake).tail ⟨2, .listen ⟨0⟩ .mutation "PropertyValueChange" recorder, rfl⟩

/-- The label comes with a word, which is primitive and takes any text, and one listener. -/
theorem exists_recorded : ∃ x c p types, recorded.inst? ⟨0⟩ = some x ∧ recorded.class? x.classId = some c ∧
    c.descriptor.properties[0]? = some p ∧ p.name = "word" ∧ p.kind = .primitive types ∧
    checkPrimitive p.name types (.text "new") = .ok () ∧
    ∀ l ∈ x.valueListeners, l.script.all Host.Action.isNote = true := by
  have hinst : (recorded.inst? ⟨0⟩).any (fun x => x.valueListeners.all fun l =>
      l.script.all Host.Action.isNote) = true := by decide +kernel
  obtain ⟨x, hx, hnotes⟩ := (Option.any_eq_true _ _).1 hinst
  have hclass : ((recorded.inst? ⟨0⟩).bind fun x => (recorded.class? x.classId).bind fun c =>
      c.descriptor.properties[0]?.map fun p => (p.name, p.kind.isPrimitive &&
        (checkPrimitive p.name p.kind.types? (.text "new")).toBool)) = some ("word", true) := by decide +kernel
  rw [hx, Option.bind_some] at hclass
  obtain ⟨c, hc, hclass⟩ := Option.bind_eq_some_iff.1 hclass
  obtain ⟨p, hp, hword⟩ := Option.map_eq_some_iff.1 hclass
  obtain ⟨hname, haccepts⟩ := Prod.mk.inj hword
  cases hkind : p.kind with
  | primitive types =>
    rw [hkind] at haccepts
    obtain ⟨-, hchecks⟩ := Bool.and_eq_true_iff.1 haccepts
    cases hcheck : checkPrimitive p.name types (.text "new") with
    | error e =>
      change (checkPrimitive p.name types (.text "new")).toBool = true at hchecks
      rw [hcheck] at hchecks
      cases hchecks
    | ok u => exact ⟨x, c, p, types, hx, hc, hp, hname, hkind, hcheck, List.all_eq_true.1 hnotes⟩
  | _ =>
    rw [hkind] at haccepts
    cases haccepts

/-- The new word is told first, then the shout that reads it, and then the echo that reads the shout. -/
theorem announced_of_reaches_label : ∃ x c w' y, recorded.inst? ⟨0⟩ = some x ∧
    Run.setProperty (Callbacks.ofDepth 2) ⟨0⟩ "word" (.text "new") recorded = (.ok (), w') ∧
    recorded.Announced w' ⟨0⟩ x y c "word" (.text "new") ∧ recorded.heard.length = 0 ∧
    w'.heard.map LogEntry.texts = [some ("word", "old", "new"), some ("shout", "old!", "new!"),
      some ("echo", "(old!)", "(new!)")] := by
  obtain ⟨x, c, p, types, hx, hc, hp, hname, hkind, hcheck, hnotes⟩ := exists_recorded
  have hrec (l : Listener) (hl : l ∈ x.valueListeners) : l.Records (Callbacks.ofDepth 2) ⟨0⟩ :=
    Listener.records_of_notes (hnotes l hl) 1 ⟨0⟩
  obtain ⟨w', y, hrun, hannounced⟩ :=
    announced_of_reaches unused_labelWorld reaches_recorded hx hc hp hkind hcheck hrec
  rw [hname] at hrun hannounced
  have hheard :
      (Run.setProperty (Callbacks.ofDepth 2) ⟨0⟩ "word" (.text "new") recorded).2.heard.map LogEntry.texts =
      [some ("word", "old", "new"), some ("shout", "old!", "new!"), some ("echo", "(old!)", "(new!)")] := by
    decide +kernel
  rw [hrun] at hheard
  exact ⟨x, c, w', y, hx, hrun, hannounced, by decide +kernel, hheard⟩

end World

end ReactiveView
