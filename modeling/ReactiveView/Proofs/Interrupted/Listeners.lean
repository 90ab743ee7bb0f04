import ReactiveView.Proofs.Interrupted.Reading
import ReactiveView.Proofs.View.Consistency

/-!
# Writes that a listener stops

A write of a primitive property renders and stores the value before the listeners are told, and then does the
same with the bound properties downstream, one after the other. A listener may halt. What has been written up
to there stays written, and what would have come next is not recomputed.

Let the listeners themselves leave alone what the instance holds. Then a write that halts has either been
refused by the check, and the world is as it was, or has stored its value and recomputed some first part of the
bound properties that it reaches (`Class.writtenUpTo`), and a listener has halted that was told of the last of
these values (`World.StoppedAfter`). The view shows exactly these values, in the same text nodes and formatted
attributes as before (`World.stoppedAfter_of_reaches`). So nobody takes the write back: the written property
reads the new value, and the bound properties behind the last one hold what they held.

The steps are `Run.writes_writePrimitive` and `Run.writes_writeBinding`; `Run.writes_propagate` is the run.
-/

set_option autoImplicit false

namespace ReactiveView

variable {w w' w'' w₀ : World} {i : InstanceId} {x y : Instance} {c : Class}

/-! ## Values in the middle of a write -/

/-- The values after a write has stored its value and recomputed the first `k` of the bound properties that it
reaches. -/
def Class.writtenUpTo (c : Class) (vals : List Value) (name : String) (v : Value) (k : Nat) : List Value :=
  ((c.affected name).take k).foldl c.recomputed (c.put vals name v)

namespace Class

variable {vals : List Value} {name m : String} {v : Value}

/-- Once all have been recomputed the write is complete. -/
theorem writtenUpTo_length (vals : List Value) (name : String) (v : Value) :
    c.writtenUpTo vals name v (c.affected name).length = c.written vals name v := by
  unfold writtenUpTo
  rw [List.take_length]
  rfl

/-- The written value is there from the beginning. -/
theorem Valid.valueIn_writtenUpTo_self (hc : c.Valid) (h : (c.valueIn vals name).isSome = true) (k : Nat) :
    c.valueIn (c.writtenUpTo vals name v k) name = some v := by
  have hself : name ∉ (c.affected name).take k := fun hm =>
    Graph.not_mem_downstream_self hc.topological name (List.mem_of_mem_take hm)
  unfold writtenUpTo
  rw [valueIn_foldl_recomputed_of_not_mem hself, valueIn_put_self h]

/-- What has not been reached yet holds what it held. -/
theorem valueIn_writtenUpTo_of_not_mem {k : Nat} (hne : m ≠ name) (hm : m ∉ (c.affected name).take k) :
    c.valueIn (c.writtenUpTo vals name v k) m = c.valueIn vals m := by
  unfold writtenUpTo
  rw [valueIn_foldl_recomputed_of_not_mem hm, valueIn_put_of_ne hne]

end Class

/-! ## The steps of a write -/

namespace World

/-- An instance of a class holds these contents. -/
structure Contains (w : World) (i : InstanceId) (c : Class) (x : Instance) : Prop where
  cls : w.class? x.classId = some c
  inst : ∃ y, w.inst? i = some y ∧ x.SameContents y

theorem contains_of_inst? (hx : w.inst? i = some x) (hc : w.class? x.classId = some c) : w.Contains i c x :=
  ⟨hc, x, hx, .rfl⟩

namespace Contains

variable (h : w.Contains i c x)

include h

theorem congr (hc : w'.classes = w.classes) (hi : w'.instances = w.instances) : w'.Contains i c x := by
  obtain ⟨hcls, y, hy, hxy⟩ := h
  refine ⟨?_, y, ?_, hxy⟩
  · unfold class? at hcls ⊢
    rw [hc, hcls]
  · unfold inst? at hy ⊢
    rw [hi, hy]

theorem leavesAlone (hl : w.LeavesAlone i w') : w'.Contains i c x := by
  obtain ⟨y, hy, hxy⟩ := h.inst
  obtain ⟨z, hz, hyz⟩ := hl.inst y hy
  exact ⟨hl.cls _ c h.cls, z, hz, hxy.trans hyz⟩

theorem storeValue (n : Nat) (v : Value) :
    (w.storeValue i n v).Contains i c { x with values := x.values.set n v } := by
  obtain ⟨y, hy, hxy⟩ := h.inst
  refine ⟨h.cls, { y with values := y.values.set n v }, ?_, ⟨hxy.classId, hxy.view, ?_, hxy.mutationListeners⟩,
    hxy.attrValues⟩
  · unfold World.storeValue
    rw [inst?_modifyInstance_self, hy, Option.map_some]
  · dsimp only
    rw [hxy.values]

theorem theClassOf : Run.theClassOf i w = (.ok c, w) := by
  obtain ⟨y, hy, hxy⟩ := h.inst
  exact Run.theClassOf_of hy (by rw [hxy.classId, h.cls])

theorem propertyIndex {name : String} {n : Nat} (hn : c.descriptor.propertyIndex? name = some n) :
    Run.propertyIndex i name w = (.ok n, w) := by
  unfold Run.propertyIndex
  rw [Run.bind_of_ok h.theClassOf, hn]
  rfl

/-- The text of a source is that of the contents. -/
theorem textOfSource : w.textOfSource i = c.textIn x.values := by
  obtain ⟨y, hy, hxy⟩ := h.inst
  have hclass : w.classOf? i = some c := by
    unfold classOf?
    rw [hy, Option.bind_some, hxy.classId, h.cls]
  funext source
  unfold World.textOfSource Class.textIn Class.valueIn
  rw [hy, hclass]
  exact hxy.values ▸ rfl

end Contains

/-- A listener of an instance that was told of a value has halted. -/
def Halted (cb : Callbacks) (i : InstanceId) (x : Instance) (new : Value) (e : Halt) (w' : World) : Prop :=
  ∃ l ∈ x.valueListeners, ∃ w, cb.script { self := i, payload := new } l.script w = (.error e, w')

end World

namespace Run

open World

variable {cb : Callbacks} {name : String} {n : Nat} {v : Value} {view : View}

/-- A run takes an instance from some contents to others, whether it ends well or halts; it halts only when a
listener does that has been told of a value. -/
structure Writes (cb : Callbacks) (i : InstanceId) (c : Class) (x y : Instance) (v : Value) (r : Run Unit)
    (w : World) : Prop where
  contains : (r w).2.Contains i c y
  halted : ∀ e, (r w).1 = .error e → Halted cb i x v e (r w).2

theorem writes_of_update {f : World → World} {r : Run Unit} (h : Writes cb i c x y v r (f w)) :
    Writes cb i c x y v (update f >>= fun _ => r) w := by
  have hrun : (update f >>= fun _ => r) w = r (f w) := bind_of_ok (update_apply f w)
  exact ⟨by rw [hrun]; exact h.contains, by rw [hrun]; exact h.halted⟩

theorem writes_of_ok {α : Type} {a : α} {m : Run α} {r : α → Run Unit} (hm : m w = (.ok a, w))
    (h : Writes cb i c x y v (r a) w) : Writes cb i c x y v (m >>= r) w := by
  have hrun : (m >>= r) w = r a w := bind_of_ok hm
  exact ⟨by rw [hrun]; exact h.contains, by rw [hrun]; exact h.halted⟩

/-- A part that leaves the contents alone is followed by another one. -/
theorem Writes.seq {m r : Run Unit} (hm : Writes cb i c x x v m w)
    (hr : ∀ w', w'.Contains i c x → Writes cb i c x x v r w') : Writes cb i c x x v (m >>= fun _ => r) w := by
  have hcontains := hm.contains
  have hhalted := hm.halted
  rcases hrun : m w with ⟨e | u, w'⟩
  all_goals rw [hrun] at hcontains hhalted
  · refine ⟨?_, fun e' he' => ?_⟩
    · rw [bind_of_error hrun]
      exact hcontains
    · rw [bind_of_error hrun] at he' ⊢
      exact hhalted e' he'
  · have hrest := hr w' hcontains
    exact ⟨by rw [bind_of_ok hrun]; exact hrest.contains, by rw [bind_of_ok hrun]; exact hrest.halted⟩

section Listeners

variable (hquiet : ∀ l ∈ x.valueListeners, l.LeavesAlone cb i)

include hquiet

/-- Telling a listener leaves the contents alone: the note is written first, and then the script runs. -/
theorem writes_tellMutation {l : Listener} (hl : l ∈ x.valueListeners) (name : String) (old new : Value)
    (hx : w.Contains i c x) : Writes cb i c x x new (tellMutation cb i name old new l) w := by
  refine writes_of_update ?_
  have hnoted : ({ w with log := w.log ++ [.mutation l.tag (w.labelOf i) name (w.shown old) (w.shown new)] } :
      World).Contains i c x := hx.congr rfl rfl
  generalize ({ w with log := w.log ++ [.mutation l.tag (w.labelOf i) name (w.shown old) (w.shown new)] } :
    World) = w₁ at hnoted
  have hcontains := hnoted.leavesAlone (hquiet l hl new w₁)
  rcases hscript : cb.script { self := i, payload := new } l.script w₁ with ⟨e | o, w₂⟩
  all_goals rw [hscript] at hcontains
  · refine ⟨?_, fun e' he' => ?_⟩
    · rw [bind_of_error hscript]
      exact hcontains
    · rw [bind_of_error hscript] at he' ⊢
      obtain rfl := Except.error.inj he'
      exact ⟨l, hl, w₁, hscript⟩
  · refine ⟨?_, fun e' he' => ?_⟩
    · rw [bind_of_ok hscript]
      exact hcontains
    · rw [bind_of_ok hscript] at he'
      cases he'

/-- Telling all listeners leaves the contents alone, and halts when one of them halts. -/
theorem writes_announce (name : String) (old new : Value) (hx : w.Contains i c x) :
    Writes cb i c x x new (announce cb i name old new) w := by
  have hloop (ls : List Listener) (hls : ls ⊆ x.valueListeners) :
      ∀ {w}, w.Contains i c x → Writes cb i c x x new (ls.forM (tellMutation cb i name old new)) w := by
    induction ls with
    | nil => exact fun hw => ⟨hw, fun e he => by cases he⟩
    | cons l ls ih =>
      obtain ⟨hl, hls⟩ := List.cons_subset.1 hls
      intro w hw
      rw [forM_cons]
      exact (writes_tellMutation hquiet hl name old new hw).seq fun w' hw' => ih hls hw'
  obtain ⟨y, hy, hxy⟩ := hx.inst
  have hlisteners : (y.mutationListeners.get? EventClass.propertyChange).getD [] = x.valueListeners := by
    unfold Instance.valueListeners
    rw [hxy.mutationListeners]
  refine writes_of_ok (theInstance_of hy) ?_
  dsimp only
  rw [hlisteners]
  exact hloop _ (List.Subset.refl _) hx

/-- A value is stored whether or not a listener halts. -/
theorem writes_writePrimitive (hx : w.Contains i c x) (hview : x.view = some view)
    (hlen : x.values.length = c.descriptor.properties.length)
    (hn : c.descriptor.propertyIndex? name = some n) (v : Value) :
    Writes cb i c x { x with values := c.put x.values name v } v (writePrimitive cb i n name v) w := by
  have hput : c.put x.values name v = x.values.set n v := by
    unfold Class.put
    rw [hn]
  obtain ⟨p, hp, -⟩ := Descriptor.propertyIndex?_some hn
  have hlt : n < x.values.length := hlen ▸ (List.getElem?_eq_some_iff.1 hp).1
  -- after rendering, whether or not there is a place to render in
  have hrest {w : World} (hx : w.Contains i c x) :
      Writes cb i c x { x with values := c.put x.values name v } v (do
        let old ← ofOption (← theInstance i).values[n]?
        update fun w => w.storeValue i n v
        announce cb i name old v : Run Unit) w := by
    obtain ⟨y, hy, hxy⟩ := hx.inst
    have hold : y.values[n]? = some x.values[n] := by rw [hxy.values, List.getElem?_eq_getElem hlt]
    refine writes_of_ok (theInstance_of hy) ?_
    rw [hold]
    refine writes_of_ok (ofOption_some _ _) (writes_of_update ?_)
    have hstored := hx.storeValue n v
    rw [← hput] at hstored
    have htold := writes_announce (x := { x with values := c.put x.values name v }) hquiet name x.values[n] v hstored
    exact ⟨htold.contains, htold.halted⟩
  obtain ⟨y, hy, hxy⟩ := hx.inst
  refine writes_of_ok hx.theClassOf (writes_of_ok (theView_of hy (hxy.view.trans hview)) ?_)
  split
  · exact writes_of_update (hrest (hx.congr rfl rfl))
  · exact hrest hx

/-- A bound property is recomputed whether or not a listener halts. -/
theorem writes_writeBinding (hx : w.Contains i c x) (hview : x.view = some view)
    (hlen : x.values.length = c.descriptor.properties.length) {f : Format} (hf : c.bindingOf? name = some f) :
    Writes cb i c x { x with values := c.recomputed x.values name } (.text (f.render (c.textIn x.values)))
      (writeBinding cb i name) w := by
  obtain ⟨p, hp, -⟩ := Option.bind_eq_some_iff.1 hf
  obtain ⟨hpm, rfl⟩ := Descriptor.property?_some hp
  obtain ⟨n, hn, -⟩ := Option.bind_eq_some_iff.1
    (Option.isSome_iff_exists.1 (Class.isSome_valueIn hlen hpm)).choose_spec
  have hrec : c.recomputed x.values p.name = c.put x.values p.name (.text (f.render (c.textIn x.values))) := by
    unfold Class.recomputed
    rw [hf]
  have hwrite := writes_writePrimitive hquiet hx hview hlen hn (.text (f.render (c.textIn x.values)))
  rw [← hrec] at hwrite
  refine writes_of_ok (hx.propertyIndex hn) (writes_of_ok hx.theClassOf ?_)
  unfold Class.bindingOf? at hf
  rw [hf]
  dsimp only
  refine writes_of_ok (ask_apply _ w) ?_
  rw [hx.textOfSource]
  exact hwrite

/-! ## The run -/

/-- Bound properties that have been recomputed, one after the other. -/
theorem contains_forM_writeBinding (hc : c.Valid) {names : List String} (hnames : ∀ m ∈ names, m ∈ c.graph.order)
    (hx : w.Contains i c x) (hview : x.view = some view) (hlen : x.values.length = c.descriptor.properties.length)
    (hok : names.forM (writeBinding cb i) w = (.ok (), w')) :
    w'.Contains i c { x with values := names.foldl c.recomputed x.values } := by
  induction names generalizing w x with
  | nil =>
    cases hok
    exact hx
  | cons m ms ih =>
    obtain ⟨f, hf⟩ := hc.bindingOf?_of_mem_order (hnames m List.mem_cons_self)
    have hstep := (writes_writeBinding hquiet hx hview hlen hf).contains
    rw [forM_cons] at hok
    obtain ⟨u, w₁, hm, hrest⟩ := bind_eq_ok_iff.1 hok
    rw [hm] at hstep
    have hlen' : (c.recomputed x.values m).length = c.descriptor.properties.length := by
      rw [Class.length_recomputed, hlen]
    exact ih (x := { x with values := c.recomputed x.values m }) hquiet
      (fun k hk => hnames k (List.mem_cons_of_mem _ hk)) hstep hview hlen' hrest

/-- When recomputing halts, it halts behind the value of one of the bound properties, and a listener has. -/
theorem writes_propagate (hc : c.Valid) (hx : w.Contains i c x) (hview : x.view = some view)
    (hlen : x.values.length = c.descriptor.properties.length) {e : Halt}
    (herror : propagate cb i name w = (.error e, w')) :
    ∃ k m new, (c.affected name)[k]? = some m ∧
      w'.Contains i c { x with values := ((c.affected name).take (k + 1)).foldl c.recomputed x.values } ∧
      c.valueIn (((c.affected name).take (k + 1)).foldl c.recomputed x.values) m = some new ∧
      Halted cb i x new e w' := by
  unfold propagate at herror
  rw [bind_of_ok hx.theClassOf] at herror
  obtain ⟨done, m, rest, w₁, hsplit, hdone, hm⟩ := forM_eq_error_iff.1 herror
  have horder (k : String) (hk : k ∈ c.affected name) : k ∈ c.graph.order :=
    Graph.mem_order_of_mem_downstream _ _ _ _ hk
  rw [hsplit] at horder
  have hbefore := contains_forM_writeBinding hquiet hc (fun k hk => horder k (List.mem_append_left _ hk)) hx hview
    hlen hdone
  obtain ⟨f, hf⟩ := hc.bindingOf?_of_mem_order (horder m (List.mem_append_right _ List.mem_cons_self))
  have hlen₁ : (done.foldl c.recomputed x.values).length = c.descriptor.properties.length := by
    rw [Class.length_foldl_recomputed, hlen]
  have hwrites := writes_writeBinding (x := { x with values := done.foldl c.recomputed x.values }) hquiet hbefore
    hview hlen₁ hf
  have hcontains := hwrites.contains
  have hhalted := hwrites.halted e (by rw [hm])
  rw [hm] at hcontains hhalted
  have hat : (c.affected name)[done.length]? = some m := by
    rw [hsplit, List.getElem?_append_right (Nat.le_refl _), Nat.sub_self]
    rfl
  have htake : (c.affected name).take (done.length + 1) = done ++ [m] := by
    rw [hsplit, List.take_append, List.take_of_length_le (Nat.le_succ _), Nat.add_sub_cancel_left]
    rfl
  have hvalue : c.valueIn (c.recomputed (done.foldl c.recomputed x.values) m) m =
      some (.text (f.render (c.textIn (done.foldl c.recomputed x.values)))) := by
    obtain ⟨p, hp, -⟩ := Option.bind_eq_some_iff.1 hf
    obtain ⟨hpm, rfl⟩ := Descriptor.property?_some hp
    unfold Class.recomputed
    rw [hf]
    exact Class.valueIn_put_self (Class.isSome_valueIn hlen₁ hpm)
  refine ⟨done.length, m, _, hat, ?_, ?_, hhalted⟩
  · rw [htake, List.foldl_append]
    exact hcontains
  · rw [htake, List.foldl_append]
    exact hvalue

end Listeners

end Run

/-! ## What a failed write leaves -/

namespace World

/-- A write of a property has stored its value and recomputed the first `k` bound properties that it reaches;
then a listener has halted that was told of the last of these values. Nothing else of the instance has
changed. -/
structure StoppedAfter (w' : World) (cb : Callbacks) (i : InstanceId) (x : Instance) (c : Class) (name : String)
    (v : Value) (k : Nat) (e : Halt) (y : Instance) : Prop where
  found : w'.inst? i = some y
  contents : Instance.SameContents { x with values := c.writtenUpTo x.values name v k } y
  told : ∃ m new, (name :: c.affected name)[k]? = some m ∧ c.valueIn y.values m = some new ∧
    Halted cb i x new e w'

/-- The written property holds the new value, and what has not been reached holds what it held. -/
theorem StoppedAfter.valueIn {cb : Callbacks} {name : String} {v : Value} {k : Nat} {e : Halt}
    (h : w'.StoppedAfter cb i x c name v k e y) (hc : c.Valid) (hname : (c.valueIn x.values name).isSome = true) :
    c.valueIn y.values name = some v ∧
      ∀ m, m ≠ name → m ∉ (c.affected name).take k → c.valueIn y.values m = c.valueIn x.values m := by
  rw [h.contents.values]
  exact ⟨hc.valueIn_writtenUpTo_self hname k, fun m hne hm => Class.valueIn_writtenUpTo_of_not_mem hne hm⟩

section Failure

variable {cb : Callbacks} {p : PropertyDescriptor} {n : Nat} {types : Option (List PrimitiveType)} {v : Value}
  {e : Halt} {view : View}

/-- A primitive write that halts has been refused by the check or stopped by a listener. -/
theorem Contains.stoppedAfter_of_error (hquiet : ∀ l ∈ x.valueListeners, l.LeavesAlone cb i)
    (hx : w.Contains i c x) (hc : c.Valid) (hview : x.view = some view)
    (hlen : x.values.length = c.descriptor.properties.length) (hp : c.descriptor.properties[n]? = some p)
    (hkind : p.kind = .primitive types) (hfail : Run.setProperty cb i p.name v w = (.error e, w')) :
    (∃ err, checkPrimitive p.name types v = .error err ∧ e = .failed err ∧ w' = w) ∨
      ∃ k y, w'.StoppedAfter cb i x c p.name v k e y := by
  have hn := hc.descriptor.propertyIndex?_name hp
  have hself : (c.valueIn x.values p.name).isSome = true := Class.isSome_valueIn hlen (List.mem_of_getElem? hp)
  unfold Run.setProperty at hfail
  rw [Run.bind_of_ok (hx.propertyIndex hn), Run.bind_of_ok hx.theClassOf, hp, Run.bind_of_ok (Run.ofOption_some _ _),
    hkind] at hfail
  dsimp only at hfail
  cases hcheck : checkPrimitive p.name types v with
  | error err =>
    rw [Run.setPrimitive_of_error cb hcheck] at hfail
    cases hfail
    exact Or.inl ⟨err, rfl, rfl, rfl⟩
  | ok u =>
    right
    unfold Run.setPrimitive at hfail
    rw [hcheck, Run.bind_of_ok (Run.ofExcept_ok _ _)] at hfail
    have hfirst := Run.writes_writePrimitive hquiet hx hview hlen hn v
    rcases hwrite : Run.writePrimitive cb i n p.name v w with ⟨e' | u, w₁⟩
    · -- a listener of the written property itself
      rw [Run.bind_of_error hwrite] at hfail
      obtain ⟨he, rfl⟩ := Prod.mk.inj hfail
      obtain rfl := Except.error.inj he
      have hhalted := hfirst.halted e' (by rw [hwrite])
      obtain ⟨-, y, hy, hxy⟩ := hfirst.contains
      rw [hwrite] at hy hhalted
      refine ⟨0, y, hy, hxy, p.name, v, rfl, ?_, hhalted⟩
      rw [hxy.values]
      exact Class.valueIn_put_self hself
    · -- a listener of a bound property
      rw [Run.bind_of_ok hwrite] at hfail
      have hstored := hfirst.contains
      rw [hwrite] at hstored
      have hlen' : (c.put x.values p.name v).length = c.descriptor.properties.length := by
        rw [Class.length_put, hlen]
      obtain ⟨k, m, new, hm, ⟨-, y, hy, hxy⟩, hnew, hhalted⟩ := Run.writes_propagate
        (x := { x with values := c.put x.values p.name v }) hquiet hc hstored hview hlen' hfail
      refine ⟨k + 1, y, hy, hxy, m, new, hm, ?_, hhalted⟩
      rw [hxy.values]
      exact hnew

end Failure

/-! ## Worlds that are reached -/

/-- What is presented goes on to be presented in the same places, whatever is made besides. -/
theorem Steps.presents_same (hsteps : w.Steps w') (hw : w.Sound) {g : InstanceId → Wiring}
    {home : BindingId → QueueId} (h : w.Presents g home) :
    ∃ g' home', w'.Presents g' home' ∧ ∀ i x, w.inst? i = some x → g' i = g i := by
  induction hsteps with
  | refl => exact ⟨g, home, h, fun _ _ _ => rfl⟩
  | tail hsteps hstep ih =>
    obtain ⟨g', home', h', hsame⟩ := ih
    have hmid := Steps.sound hsteps hw
    rcases hstep.presents hmid h' with hkept | ⟨id, d, j, hd, hcreate⟩
    · exact ⟨g', home', hkept, hsame⟩
    · -- the wiring of the new instance is added
      obtain ⟨-, _, _, _, hjoins⟩ := createInstance_joins hcreate
      obtain ⟨attrs, hself⟩ := hjoins.self
      obtain ⟨view, new, hview, hbuilds⟩ := exists_builds_createInstance (hmid.compiled.parsed hd) hcreate hself
      refine ⟨_, _, h'.create hd hcreate hself hview hbuilds, fun i x hx => ?_⟩
      obtain ⟨x', hx', -⟩ := (Steps.grows hsteps).inst i x hx
      have hne : i ≠ j := by
        rintro rfl
        rw [hjoins.fresh] at hx'
        cases hx'
      rw [Function.update_of_ne hne]
      exact hsame i x hx

/-- An instance that is there before and behind some changes, with the same class and view, is shown in the same
places. -/
theorem Steps.viewConsistent_both (hsteps : w.Steps w') (hw : w.Sound) {g : InstanceId → Wiring}
    {home : BindingId → QueueId} (hpresents : w.Presents g home) (hx : w.inst? i = some x) (hy : w'.inst? i = some y)
    (hclass : y.classId = x.classId) (hview : y.view = x.view) :
    ∃ c view, w.ViewConsistent i x c view (g i) ∧ w'.ViewConsistent i y c view (g i) := by
  obtain ⟨c, view, hconsistent⟩ := hpresents.viewConsistent hx
  obtain ⟨g', home', hpresents', hsame⟩ := hsteps.presents_same hw hpresents
  obtain ⟨c', view', hconsistent'⟩ := hpresents'.viewConsistent hy
  obtain rfl : view' = view :=
    Option.some.inj (hconsistent'.hasView.symm.trans (hview.trans hconsistent.hasView))
  obtain rfl : c' = c := by
    have hcls := hsteps.grows.cls _ c hconsistent.ofClass
    rw [← hclass] at hcls
    exact Option.some.inj (hconsistent'.ofClass.symm.trans hcls)
  rw [hsame i x hx] at hconsistent'
  exact ⟨c', view', hconsistent, hconsistent'⟩

/-- Whatever has been done after a fresh start: a write of a primitive property that halts, while the listeners
write nothing themselves, has been refused by the check and has changed nothing, or has been stopped by a
listener. Then the value is stored, some first part of the bound properties downstream is recomputed, the rest
holds what it held, and the view shows these values where it showed the values from before. -/
theorem stoppedAfter_of_reaches (h₀ : w₀.Unused) (hreach : w₀.Reaches w) {depth n : Nat} {p : PropertyDescriptor}
    {types : Option (List PrimitiveType)} {v : Value} {e : Halt} (hx : w.inst? i = some x)
    (hc : w.class? x.classId = some c) (hp : c.descriptor.properties[n]? = some p)
    (hkind : p.kind = .primitive types)
    (hquiet : ∀ l ∈ x.valueListeners, l.LeavesAlone (Callbacks.ofDepth depth) i)
    (hfail : Run.setProperty (Callbacks.ofDepth depth) i p.name v w = (.error e, w')) :
    (∃ err, checkPrimitive p.name types v = .error err ∧ e = .failed err ∧ w' = w) ∨
      ∃ k y view g, w'.StoppedAfter (Callbacks.ofDepth depth) i x c p.name v k e y ∧
        c.valueIn y.values p.name = some v ∧
        (∀ m, m ≠ p.name → m ∉ (c.affected p.name).take k → c.valueIn y.values m = c.valueIn x.values m) ∧
        w.ViewConsistent i x c view g ∧ w'.ViewConsistent i y c view g := by
  have hw := hreach.sound h₀.sound
  have hvalid := hw.compiled.valid hc
  obtain ⟨c₁, hc₁, hfills⟩ := hw.inst i x hx
  obtain rfl := Option.some.inj (hc.symm.trans hc₁)
  have hlen := hfills.values.length_eq.symm
  obtain ⟨g, home, hpresents⟩ := Steps.presents (hreach.steps h₀.sound) h₀.sound h₀.presents
  obtain ⟨_, view, hconsistent⟩ := hpresents.viewConsistent hx
  refine ((contains_of_inst? hx hc).stoppedAfter_of_error hquiet hvalid hconsistent.hasView hlen hp hkind hfail).imp_right ?_
  rintro ⟨k, y, hstopped⟩
  have hsteps : w.Steps w' := by
    have hrun := Run.proceeds_setProperty (Callbacks.steadyBy_ofDepth (S := Step) depth) i p.name v w hw
    rw [hfail] at hrun
    exact hrun
  obtain ⟨c', view', hbefore, hbehind⟩ := hsteps.viewConsistent_both hw hpresents hx hstopped.found
    hstopped.contents.classId hstopped.contents.view
  obtain rfl := Option.some.inj (hc.symm.trans hbefore.ofClass)
  obtain ⟨hself, hrest⟩ := hstopped.valueIn hvalid (Class.isSome_valueIn hlen (List.mem_of_getElem? hp))
  exact ⟨k, y, view', g i, hstopped, hself, hrest, hbefore, hbehind⟩

/-! ### A label that refuses a word half way -/

end World

/-- The template of a class with a word, a bound property that reads it, and another one that reads that. -/
def labelTemplate : Markup :=
  let declaration (attrs : List Attr) : Markup := .element (.html "ooml-property") attrs false []
  .element (.html "template") [⟨.plain "ooml-class", "Label"⟩] false
    [declaration [⟨.plain "name", "word"⟩],
      declaration [⟨.plain "name", "shout"⟩, ⟨.plain "binding", "\x7b\x7b this.word \x7d\x7d!"⟩],
      declaration [⟨.plain "name", "echo"⟩, ⟨.plain "binding", "(\x7b\x7b this.shout \x7d\x7d)"⟩],
      .element (.html "p") [⟨.plain "class", "\x7b\x7b this.shout \x7d\x7d \x7b\x7b this.echo \x7d\x7d"⟩] false
        [.text "\x7b\x7b this.word \x7d\x7d"]]

/-- A world that knows that class and has a queue for what it writes. -/
def labelWorld : World :=
  match Class.Shelf.add {} true [] labelTemplate with
  | .ok (_, s) => { screen := (({} : Screen).addQueue 16).2, classes := s.classes }
  | .error _ => {}

/-- A listener that refuses one shout, after it has left a note. -/
def refusal : Listener :=
  ⟨"refusal", [.log "told", .branch .payload (.text "new!") [.fail (.raised .typeKind "no")] []]⟩

/-- A label with the word `old` and the listener. -/
def labelled : World :=
  let w := (Run.constructInstance (Callbacks.ofDepth 2) ⟨0⟩ (some (.object [("word", .text "old")])) labelWorld).2
  ((Operation.listen ⟨0⟩ .mutation "PropertyValueChange" refusal).run (Callbacks.ofDepth 2) w).2

/-- The word `new` is written; the listener refuses the shout that follows from it. -/
def refused : Except Halt Unit × World :=
  Run.setProperty (Callbacks.ofDepth 2) ⟨0⟩ "word" (.text "new") labelled

namespace World

theorem unused_labelWorld : labelWorld.Unused where
  compiled := by
    unfold labelWorld
    split
    · next h => exact Class.Shelf.compiled_add .empty h
    · exact .empty
  instances := by
    unfold labelWorld
    split <;> rfl
  collections := by
    unfold labelWorld
    split <;> rfl
  bindings := by
    unfold labelWorld
    split <;> rfl
  idle q bs hbs := by
    have hnone : ({} : Screen).waiting? q = none := by
      unfold Screen.waiting? Screen.queue?
      simp [Table.get?]
    unfold labelWorld at hbs
    split at hbs
    · exact (Screen.extends_addQueue {} 16).1.empty q bs hbs hnone
    · rw [hnone] at hbs
      cases hbs
  classQueue id c hc := by
    have hall : (labelWorld.classes.entries.all fun c => c.queue == ⟨0⟩) = true := by decide +kernel
    have hqueue : c.queue = ⟨0⟩ := by
      have hmem : c ∈ labelWorld.classes.entries := Array.mem_of_getElem? hc
      simpa using Array.all_eq_true_iff_forall_mem.1 hall c hmem
    rw [hqueue]
    decide +kernel
  spaceQueue n ns hns := by
    unfold labelWorld at hns
    split at hns <;> simp [space?, Table.get?] at hns

theorem reaches_labelled : labelWorld.Reaches labelled := by
  have hmake : labelWorld.Does (Run.constructInstance (Callbacks.ofDepth 2) ⟨0⟩
      (some (.object [("word", .text "old")])) labelWorld).2 :=
    ⟨2, .construct ⟨0⟩ (some (.object [("word", .text "old")])), (Run.discard_apply _ _).symm⟩
  exact (Relation.ReflTransGen.single hmake).tail ⟨2, .listen ⟨0⟩ .mutation "PropertyValueChange" refusal, rfl⟩

/-- The label before the write: the word comes first and is primitive, and the listener only reads. -/
theorem exists_labelled : ∃ x c p types, labelled.inst? ⟨0⟩ = some x ∧ labelled.class? x.classId = some c ∧
    c.descriptor.properties[0]? = some p ∧ p.name = "word" ∧ p.kind = .primitive types ∧
    (∀ l ∈ x.valueListeners, Host.readScript l.script = true) ∧
    x.values.map Value.outputText = ["old", "old!", "(old!)"] := by
  have hinst : (labelled.inst? ⟨0⟩).any (fun x => (x.valueListeners.all fun l => Host.readScript l.script) &&
      x.values.map Value.outputText == ["old", "old!", "(old!)"]) = true := by decide +kernel
  obtain ⟨x, hx, hspec⟩ := (Option.any_eq_true _ _).1 hinst
  obtain ⟨hreads, hvalues⟩ := Bool.and_eq_true_iff.1 hspec
  have hclass : ((labelled.inst? ⟨0⟩).bind fun x => (labelled.class? x.classId).bind fun c =>
      c.descriptor.properties[0]?.map fun p => (p.name, p.kind.isPrimitive)) = some ("word", true) := by
    decide +kernel
  rw [hx, Option.bind_some] at hclass
  obtain ⟨c, hc, hclass⟩ := Option.bind_eq_some_iff.1 hclass
  obtain ⟨p, hp, hword⟩ := Option.map_eq_some_iff.1 hclass
  obtain ⟨hname, hprimitive⟩ := Prod.mk.inj hword
  obtain ⟨types, hkind⟩ : ∃ types, p.kind = .primitive types := by
    cases hk : p.kind with
    | primitive types => exact ⟨types, rfl⟩
    | _ =>
      rw [hk] at hprimitive
      cases hprimitive
  exact ⟨x, c, p, types, hx, hc, hp, hname, hkind, List.all_eq_true.1 hreads, eq_of_beq hvalues⟩

/-- The word and the shout are new after the failure, and the echo is old. -/
theorem stoppedAfter_of_reaches_label : ∃ x c k y view g e, labelled.inst? ⟨0⟩ = some x ∧
    x.values.map Value.outputText = ["old", "old!", "(old!)"] ∧ refused.1 = .error e ∧
    refused.2.StoppedAfter (Callbacks.ofDepth 2) ⟨0⟩ x c "word" (.text "new") k e y ∧
    y.values.map Value.outputText = ["new", "new!", "(old!)"] ∧
    labelled.ViewConsistent ⟨0⟩ x c view g ∧ refused.2.ViewConsistent ⟨0⟩ y c view g := by
  obtain ⟨x, c, p, types, hx, hc, hp, hname, hkind, hreads, hvalues⟩ := exists_labelled
  have hafter : (refused.2.inst? ⟨0⟩).map (fun y => y.values.map Value.outputText) =
      some ["new", "new!", "(old!)"] := by decide +kernel
  have herror : refused.1.toOption.isNone = true := by decide +kernel
  obtain ⟨e, he⟩ : ∃ e, refused.1 = .error e := by
    cases hr : refused.1 with
    | error e => exact ⟨e, rfl⟩
    | ok u =>
      rw [hr] at herror
      cases herror
  have hrun : Run.setProperty (Callbacks.ofDepth 2) ⟨0⟩ p.name (.text "new") labelled = (.error e, refused.2) := by
    rw [hname]
    exact Prod.ext he rfl
  have hquiet : ∀ l ∈ x.valueListeners, l.LeavesAlone (Callbacks.ofDepth 2) ⟨0⟩ := fun l hl =>
    Listener.leavesAlone_of_reads (hreads l hl) 2 ⟨0⟩
  rcases stoppedAfter_of_reaches unused_labelWorld reaches_labelled hx hc hp hkind hquiet hrun with
    ⟨err, -, -, hsame⟩ | ⟨k, y, view, g, hstopped, -, -, hbefore, hshown⟩
  · rw [hsame, hx, Option.map_some, hvalues] at hafter
    exact absurd hafter (by decide)
  · rw [hname] at hstopped
    rw [hstopped.found] at hafter
    exact ⟨x, c, k, y, view, g, e, hx, hvalues, he, hstopped, Option.some.inj hafter, hbefore, hshown⟩

end World

end ReactiveView
