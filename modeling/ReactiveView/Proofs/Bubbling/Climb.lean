import ReactiveView.Proofs.Bubbling.Quiet

/-!
# An event climbs and stops

Where scripts are quiet an event climbs from an instance to the owner of the sink that it is attached under, as
far as that is in use (`World.Climbs`), and on from there if the handler dispatches again. Each dispatch goes through
the listeners of the instance, and then to the handler that its sink keeps for the event (`World.Hears`). As long as
nobody on its way can climb to where it has started, there are fewer and fewer instances above, so that the climb ends
(`World.exists_trail`).
-/

set_option autoImplicit false

namespace ReactiveView

open Relation

namespace World

variable {w : World} {i P : InstanceId} {bound : Nat} {data : Value}

/-- What is dispatched on an instance may be delivered to another one. -/
def Climbs (w : World) (i P : InstanceId) : Prop :=
  ∃ a, w.attachment? i = some a ∧ a.sink.owner = P ∧ w.isAlive P = true

/-- The sink that takes an event which climbs out of an instance, with the handler for the event. -/
def taker? (w : World) (i : InstanceId) (event : String) : Option (Sink × Handler) :=
  (w.attachment? i).bind fun a =>
    if w.isAlive a.sink.owner then (a.sink.handlers.get? event).map fun handler => (a.sink, handler) else none

/-- A dispatch has been heard by the listeners of the instance, and gone to the handler that takes the event unless
one of them has stopped it. -/
structure Hears (w : World) (bound : Nat) (data : Value) (leg : Leg) : Prop where
  prevented : leg.prevented = true ↔ ∃ x, w.inst? leg.self = some x ∧
    ∃ l ∈ (x.dispatchListeners.get? (Text.lowercase leg.name)).getD [], w.Stops bound leg.self data l
  taken : leg.prevented = false → leg.taken = w.taker? leg.self (Text.lowercase leg.name)

/-! ## How far an event can climb -/

open Classical in
/-- The instances that what is dispatched on an instance may climb to. -/
noncomputable def above (w : World) (i : InstanceId) : Finset Nat :=
  (Finset.range w.instances.size).filter fun n => TransGen w.Climbs i ⟨n⟩

theorem mem_above {n : Nat} : n ∈ w.above i ↔ n < w.instances.size ∧ TransGen w.Climbs i ⟨n⟩ := by
  simp only [above, Finset.mem_filter, Finset.mem_range]

theorem card_above_le (w : World) (i : InstanceId) : (w.above i).card ≤ w.instances.size := by
  classical
  exact (Finset.card_filter_le _ _).trans_eq (Finset.card_range _)

/-- With each step there are fewer. -/
theorem card_above_lt (hno : ¬ TransGen w.Climbs P P) (h : w.Climbs i P) : (w.above P).card < (w.above i).card := by
  have hsub : w.above P ⊆ w.above i := fun n hn => by
    rw [mem_above] at hn ⊢
    exact ⟨hn.1, hn.2.head h⟩
  have hlt : P.index < w.instances.size := by
    obtain ⟨-, -, -, halive⟩ := h
    unfold isAlive at halive
    split at halive
    · next x hx => exact index_lt_of_inst? hx
    · cases halive
  refine Finset.card_lt_card ((Finset.ssubset_iff_of_subset hsub).2 ⟨P.index, ?_, fun hmem => ?_⟩)
  · exact mem_above.2 ⟨hlt, .single h⟩
  · exact hno (mem_above.1 hmem).2

end World

namespace Run

open World

variable {w : World} {i P : InstanceId} {bound k : Nat} {data : Value} {G : Leg → Prop}

/-- The steps of a handler run quietly, if dispatches on the instance do. -/
theorem quietly_tracedSteps (hhushed : w.Hushed bound data) (hle : bound ≤ k) (node : Option NodeId) {c : Class}
    (hP : w.isAlive P = true) (hc : w.classOf? P = some c)
    (hdispatch : ∀ event, ∃ out : Leg × Trail, Quietly w k (fun depth => traced depth P event data) out ∧
      ∀ l ∈ out :: out.2.legs, G l.1)
    (steps : List HandlerStep) (hsteps : ∀ m, .call m ∈ steps → c.descriptor.methods.contains m = true) :
    ∃ t : Trail, Quietly w k (fun depth => tracedSteps (.ofDepth (depth + 1)) (traced depth) P node data steps) t ∧
      ∀ l ∈ t.legs, G l.1 := by
  induction steps with
  | nil => exact ⟨.done, .pure _, nofun⟩
  | cons step rest ih =>
    obtain ⟨more, hmore, hgood⟩ := ih fun m hm => hsteps m (List.mem_cons_of_mem _ hm)
    cases step with
    | call name =>
      obtain ⟨answer, hanswer⟩ := quietly_callMethod hhushed node hP hc (hsteps name List.mem_cons_self)
      have hcall := hanswer.mono hle
      cases hstop : stopsHandler answer with
      | true =>
        refine ⟨.call name answer .done, hcall.bind ?_, nofun⟩
        simp only [hstop, if_true]
        exact .pure _
      | false =>
        refine ⟨.call name answer more, hcall.bind ?_, hgood⟩
        simp only [hstop, Bool.false_eq_true, if_false]
        exact hmore.bind (.pure _)
    | dispatch event =>
      obtain ⟨out, hout, hgoodOut⟩ := hdispatch event
      refine ⟨.dispatch out.1 out.2 more, hout.bind (hmore.bind (.pure _)), fun l hl => ?_⟩
      rcases List.mem_cons.1 hl with rfl | hl
      · exact hgoodOut _ List.mem_cons_self
      · rcases List.mem_append.1 hl with hl | hl
        · exact hgoodOut l (List.mem_cons_of_mem _ hl)
        · exact hgood l hl

/-- The handlers around a place run quietly, if dispatches on their owner do. -/
theorem quietly_tracedDeliver (hstill : w.settle = w) (hhushed : w.Hushed bound data) (hle : bound ≤ k) (sink : Sink)
    (event : String)
    (howner : w.isAlive sink.owner = true → ∃ c, w.classOf? sink.owner = some c ∧ ∀ handler,
      sink.handlers.get? event = some handler → ∀ m, .call m ∈ handler.steps → c.descriptor.methods.contains m = true)
    (hdispatch : w.isAlive sink.owner = true → ∀ event, ∃ out : Leg × Trail,
      Quietly w k (fun depth => traced depth sink.owner event data) out ∧ ∀ l ∈ out :: out.2.legs, G l.1) :
    ∃ inner : Trail, Quietly w k (fun depth => tracedDeliver (.ofDepth (depth + 1)) (traced depth) sink event data)
        (if w.isAlive sink.owner then (sink.handlers.get? event).map fun handler => (sink, handler) else none, inner) ∧
      ∀ l ∈ inner.legs, G l.1 := by
  unfold tracedDeliver
  cases hget : sink.handlers.get? event with
  | none =>
    refine ⟨.done, ?_, nofun⟩
    rw [Option.map_none, ite_self]
    exact .pure _
  | some handler =>
    cases halive : w.isAlive sink.owner with
    | false =>
      refine ⟨.done, .bind_get (fun w' hw' depth => by rw [hw'.isAlive]) ?_, nofun⟩
      simp only [halive, Bool.false_eq_true, if_false]
      exact .pure _
    | true =>
      obtain ⟨c, hc, hmethods⟩ := howner halive
      obtain ⟨inner, hinner, hgood⟩ := quietly_tracedSteps hhushed hle (some sink.node) halive hc (hdispatch halive)
        handler.steps (hmethods handler hget)
      refine ⟨inner, .bind_get (fun w' hw' depth => by rw [hw'.isAlive]) ?_, hgood⟩
      simp only [halive, if_true]
      exact (Quietly.inScope hstill ((Quietly.pin _).bind ((Quietly.pin _).bind hinner))).bind (.pure _)

end Run

namespace World

variable {w : World} {bound : Nat} {data : Value}

/-- As long as nobody on its way can climb to where it has started, an event stops, and tells all along who has heard
it. -/
theorem exists_trail (hstill : w.settle = w) (hhushed : w.Hushed bound data)
    (hrecord : ∀ i, w.isAlive i = true → ∃ x c, w.inst? i = some x ∧ w.class? x.classId = some c)
    (hmethods : ∀ i event sink handler, w.taker? i event = some (sink, handler) → ∀ c, w.classOf? sink.owner = some c →
      ∀ m, .call m ∈ handler.steps → c.descriptor.methods.contains m = true)
    {i : InstanceId} (hi : w.isAlive i = true)
    (hno : ∀ j, ReflTransGen w.Climbs i j → ¬ TransGen w.Climbs j j) (name : String) :
    ∃ out : Leg × Trail,
      Run.Quietly w ((w.above i).card + bound) (fun depth => Run.traced (depth + 1) i name data) out ∧
      ∀ l ∈ out :: out.2.legs, w.Hears bound data l.1 ∧ ReflTransGen w.Climbs i l.1.self := by
  induction hn : (w.above i).card using Nat.strong_induction_on generalizing i name with
  | _ n ih =>
    subst hn
    obtain ⟨x, c, hx, hc⟩ := hrecord i hi
    obtain ⟨stopped, htell, hstopped⟩ :=
      Run.quietly_tellDispatch (hhushed.listener i x (Text.lowercase name) hi hx) false
    have hprevented : stopped = true ↔ ∃ x, w.inst? i = some x ∧
        ∃ l ∈ (x.dispatchListeners.get? (Text.lowercase name)).getD [], w.Stops bound i data l := by
      rw [hstopped]
      simp [hx]
    have hlook : ∀ w', w.Notes w' → ∀ depth : Nat, Run.theInstance i w' = (.ok x, w') :=
      fun w' hw' _ => Run.theInstance_of ((hw'.inst? i).trans hx)
    have hle : bound ≤ (w.above i).card + bound := Nat.le_add_left _ _
    cases stopped with
    | true =>
      refine ⟨(⟨i, name, true, none⟩, .done), ?_, fun l hl => ?_⟩
      · exact .bind_read hlook ((htell.mono hle).bind (.pure _))
      · obtain rfl := List.mem_singleton.1 hl
        exact ⟨⟨hprevented, nofun⟩, .refl⟩
    | false =>
      cases hatt : w.attachment? i with
      | none =>
        refine ⟨(⟨i, name, false, none⟩, .done), ?_, fun l hl => ?_⟩
        · refine .bind_read hlook ((htell.mono hle).bind (.bind_get (fun w' hw' depth => ?_) ?_))
          · rw [hw'.attachment?]
          · rw [hatt]
            exact .pure _
        · obtain rfl := List.mem_singleton.1 hl
          refine ⟨⟨hprevented, fun _ => ?_⟩, .refl⟩
          unfold taker?
          rw [hatt]
          rfl
      | some a =>
        have htaker : w.taker? i (Text.lowercase name) = if w.isAlive a.sink.owner then
            (a.sink.handlers.get? (Text.lowercase name)).map fun handler => (a.sink, handler) else none := by
          unfold taker?
          rw [hatt, Option.bind_some]
        -- from the owner of the sink there are fewer to climb to
        have hup (howner : w.isAlive a.sink.owner = true) (event : String) : ∃ out : Leg × Trail,
            Run.Quietly w ((w.above i).card + bound) (fun depth => Run.traced depth a.sink.owner event data) out ∧
            ∀ l ∈ out :: out.2.legs, w.Hears bound data l.1 ∧ ReflTransGen w.Climbs i l.1.self := by
          have hclimbs : w.Climbs i a.sink.owner := ⟨a, hatt, rfl, howner⟩
          have hlt := card_above_lt (hno _ (.single hclimbs)) hclimbs
          obtain ⟨out, hout, hgood⟩ := ih _ hlt howner (fun j hj => hno j (.head hclimbs hj)) event rfl
          exact ⟨out, hout.below.mono (by omega), fun l hl => ⟨(hgood l hl).1, (hgood l hl).2.head hclimbs⟩⟩
        have howner (howner : w.isAlive a.sink.owner = true) : ∃ c, w.classOf? a.sink.owner = some c ∧
            ∀ handler, a.sink.handlers.get? (Text.lowercase name) = some handler →
              ∀ m, .call m ∈ handler.steps → c.descriptor.methods.contains m = true := by
          obtain ⟨y, d, hy, hd⟩ := hrecord _ howner
          have hcls : w.classOf? a.sink.owner = some d := Option.bind_eq_some_iff.2 ⟨y, hy, hd⟩
          refine ⟨d, hcls, fun handler hget => hmethods i (Text.lowercase name) a.sink handler ?_ d hcls⟩
          rw [htaker, howner, hget]
          rfl
        obtain ⟨inner, hinner, hgood⟩ := Run.quietly_tracedDeliver (G := fun leg =>
          w.Hears bound data leg ∧ ReflTransGen w.Climbs i leg.self) hstill hhushed hle a.sink (Text.lowercase name)
          howner hup
        refine ⟨(⟨i, name, false, w.taker? i (Text.lowercase name)⟩, inner), ?_, fun l hl => ?_⟩
        · refine .bind_read hlook ((htell.mono hle).bind (.bind_get (fun w' hw' depth => ?_) ?_))
          · rw [hw'.attachment?]
          · rw [hatt, htaker]
            exact hinner.bind (.pure _)
        · rcases List.mem_cons.1 hl with rfl | hl
          · exact ⟨⟨hprevented, fun _ => rfl⟩, .refl⟩
          · exact hgood l hl

end World

end ReactiveView
