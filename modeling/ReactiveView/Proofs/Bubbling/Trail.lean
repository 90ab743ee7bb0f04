import ReactiveView.Host.Perform
import ReactiveView.Proofs.Run

/-!
# The trail of an event

An event that is dispatched on an instance may reach a handler of the instance that it stands under, whose
steps call methods and dispatch further events. `Run.traced` dispatches an event as `Run.dispatchEvent` does, and
tells what happened on the way: each dispatch (`Leg`), and what the steps of the handler that took it did
(`Trail`). Apart from what it tells it is the same operation (`Run.discard_traced`).

In every run, whatever the scripts do that it calls, an event that a listener has stopped reaches no handler, the
handler is one that the sink keeps for the event, and its steps are taken in order, none of them behind a method
that answered false (`Leg.Sound`, `Run.sound_of_traced`).
-/

set_option autoImplicit false

namespace ReactiveView

/-- One dispatch on the way of an event: on whom, under which name, whether a listener stopped it there, and the
handler that took it, with its sink. -/
structure Leg where
  self : InstanceId
  name : String
  prevented : Bool
  taken : Option (Sink × Handler)

/-- What the steps of a handler did: the answers of the methods that they called, and the dispatches, each with
what the handler that took it did. -/
inductive Trail where
  | done
  | call (method : String) (answer : Value) (rest : Trail)
  | dispatch (leg : Leg) (inner rest : Trail)

namespace Trail

/-- All dispatches, each with what the handler that took it did. -/
def legs : Trail → List (Leg × Trail)
  | done => []
  | call _ _ rest => rest.legs
  | dispatch leg inner rest => (leg, inner) :: (inner.legs ++ rest.legs)

/-- The steps of a handler of an instance have been taken in order, up to the end or up to a method that answered
false. -/
def Follows (i : InstanceId) : List HandlerStep → Trail → Prop
  | [], done => True
  | .call name :: steps, call method answer rest =>
    method = name ∧ if stopsHandler answer then rest = done else Follows i steps rest
  | .dispatch event :: steps, dispatch leg _ rest => leg.self = i ∧ leg.name = event ∧ Follows i steps rest
  | _, _ => False

end Trail

/-- What a dispatch did makes sense, whatever world it happened in. -/
structure Leg.Sound (leg : Leg) (inner : Trail) : Prop where
  prevented : leg.prevented = true → leg.taken = none
  untaken : leg.taken = none → inner = .done
  follows : ∀ sink handler, leg.taken = some (sink, handler) →
    sink.handlers.get? (Text.lowercase leg.name) = some handler ∧ inner.Follows sink.owner handler.steps

namespace Run

/-! ## Telling what happened -/

section Traced

variable (cb : Callbacks) (dispatch : InstanceId → String → Value → Run (Leg × Trail))

/-- Runs the steps of a handler. -/
def tracedSteps (i : InstanceId) (node : Option NodeId) (payload : Value) : List HandlerStep → Run Trail
  | [] => pure .done
  | .call name :: rest => do
    let answer ← callMethod cb i name node payload
    if stopsHandler answer then pure (.call name answer .done)
    else return .call name answer (← tracedSteps i node payload rest)
  | .dispatch event :: rest => do
    let out ← dispatch i event payload
    return .dispatch out.1 out.2 (← tracedSteps i node payload rest)

/-- Delivers an event to the handlers around a place. -/
def tracedDeliver (sink : Sink) (event : String) (data : Value) : Run (Option (Sink × Handler) × Trail) := do
  match sink.handlers.get? event with
  | none => pure (none, .done)
  | some handler =>
    if (← get).isAlive sink.owner then
      let inner ← inScope do
        pin (.inst sink.owner)
        pin (.node sink.node)
        tracedSteps cb dispatch sink.owner (some sink.node) data handler.steps
      return (some (sink, handler), inner)
    else pure (none, .done)

/-- Dispatches an event on an instance, where handlers dispatch further events in a given way. -/
def tracedDispatch (i : InstanceId) (name : String) (data : Value) : Run (Leg × Trail) := do
  let event := Text.lowercase name
  let listeners := ((← theInstance i).dispatchListeners.get? event).getD []
  let prevented ← tellDispatch cb i event data false listeners
  if !prevented then
    match (← get).attachment? i with
    | some a =>
      let out ← tracedDeliver cb dispatch a.sink event data
      return (⟨i, name, prevented, out.1⟩, out.2)
    | none => pure (⟨i, name, prevented, none⟩, .done)
  else pure (⟨i, name, prevented, none⟩, .done)

end Traced

/-- Dispatches an event on an instance, with calls nested at most so deeply. -/
def traced : Nat → InstanceId → String → Value → Run (Leg × Trail)
  | 0 => tracedDispatch .exhausted fun _ _ _ => throw .exhausted
  | depth + 1 => tracedDispatch (.ofDepth (depth + 1)) (traced depth)

/-! ## It is the same operation -/

theorem discard_eq_map {α : Type} (x : Run α) : discard x = (fun _ => ()) <$> x := by
  unfold Functor.discard
  rw [LawfulFunctor.map_const]
  rfl

theorem discard_bind {α β : Type} (x : Run α) (f : α → Run β) :
    discard (x >>= f) = x >>= fun a => discard (f a) := by
  simp only [discard_eq_map, map_bind]

theorem discard_map {α β : Type} (g : α → β) (x : Run α) : discard (g <$> x) = discard x := by
  simp only [discard_eq_map, Functor.map_map]

theorem discard_seq {α β : Type} (x : Run α) (m : Run β) : (discard x >>= fun _ => m) = x >>= fun _ => m := by
  rw [discard_eq_map, bind_map_left]

theorem discard_at {α : Type} (x : Run α) (w : World) : discard x w = ((x w).1.map fun _ => (), (x w).2) := by
  rw [discard_eq_map, ← bind_pure_comp, bind_apply]
  rcases x w with ⟨e | a, w'⟩ <;> rfl

theorem discard_inScope {α : Type} (m : Run α) : discard (inScope m) = inScope (discard m) := by
  funext w
  rw [discard_at, inScope_apply, inScope_apply, discard_at]

section Discard

variable {cb : Callbacks} {dispatch : InstanceId → String → Value → Run (Leg × Trail)}
  (hdispatch : ∀ i name data, discard (dispatch i name data) = cb.dispatch i name data)

include hdispatch

theorem discard_tracedSteps (i : InstanceId) (node : Option NodeId) (payload : Value) (steps : List HandlerStep) :
    discard (tracedSteps cb dispatch i node payload steps) = runSteps cb i node payload steps := by
  induction steps with
  | nil => rfl
  | cons step rest ih =>
    cases step with
    | call name =>
      unfold tracedSteps runSteps
      rw [discard_bind]
      refine bind_congr fun answer => ?_
      split
      · rfl
      · rw [bind_pure_comp, discard_map, ih]
    | dispatch event =>
      unfold tracedSteps runSteps
      rw [← hdispatch, discard_seq, discard_bind]
      refine bind_congr fun out => ?_
      rw [bind_pure_comp, discard_map, ih]

theorem discard_tracedDeliver (sink : Sink) (event : String) (data : Value) :
    discard (tracedDeliver cb dispatch sink event data) = deliver cb sink event data := by
  unfold tracedDeliver deliver
  cases sink.handlers.get? event with
  | none => rfl
  | some handler =>
    dsimp only
    rw [discard_bind]
    refine bind_congr fun w => ?_
    split
    · rw [bind_pure_comp, discard_map, discard_inScope, discard_bind]
      refine congrArg inScope (bind_congr fun _ => ?_)
      rw [discard_bind]
      exact bind_congr fun _ => discard_tracedSteps hdispatch _ _ data handler.steps
    · rfl

theorem discard_tracedDispatch (i : InstanceId) (name : String) (data : Value) :
    discard (tracedDispatch cb dispatch i name data) = dispatchEvent cb i name data := by
  unfold tracedDispatch dispatchEvent
  rw [discard_bind]
  refine bind_congr fun x => ?_
  rw [discard_bind]
  refine bind_congr fun prevented => ?_
  split
  · rw [discard_bind]
    refine bind_congr fun w => ?_
    cases w.attachment? i with
    | none => rfl
    | some a =>
      dsimp only
      rw [bind_pure_comp, discard_map, discard_tracedDeliver hdispatch]
  · rfl

end Discard

/-- Apart from what it tells, the traced dispatch is the dispatch. -/
theorem discard_traced (depth : Nat) (i : InstanceId) (name : String) (data : Value) :
    discard (traced depth i name data) = dispatchEvent (.ofDepth depth) i name data := by
  induction depth generalizing i name data with
  | zero => exact discard_tracedDispatch (fun _ _ _ => rfl) i name data
  | succ depth ih => exact discard_tracedDispatch (fun i name data => ih i name data) i name data

/-! ## What it tells makes sense -/

section Sound

variable {cb : Callbacks} {dispatch : InstanceId → String → Value → Run (Leg × Trail)}

/-- What a dispatch tells: it is one of the instance under the name, and all dispatches on the way make sense. -/
def TellsSoundly (out : Leg × Trail) (i : InstanceId) (name : String) : Prop :=
  out.1.self = i ∧ out.1.name = name ∧ ∀ l ∈ out :: out.2.legs, l.1.Sound l.2

variable (hdispatch : ∀ {i name data w out w'}, dispatch i name data w = (.ok out, w') → TellsSoundly out i name)

include hdispatch

theorem sound_of_tracedSteps {i : InstanceId} {node : Option NodeId} {payload : Value} {steps : List HandlerStep}
    {w w' : World} {t : Trail} (h : tracedSteps cb dispatch i node payload steps w = (.ok t, w')) :
    t.Follows i steps ∧ ∀ l ∈ t.legs, l.1.Sound l.2 := by
  induction steps generalizing w w' t with
  | nil =>
    obtain ⟨heq, -⟩ := Prod.mk.inj h
    obtain rfl := Except.ok.inj heq
    exact ⟨trivial, nofun⟩
  | cons step rest ih =>
    cases step with
    | call name =>
      unfold tracedSteps at h
      obtain ⟨answer, w₁, -, h⟩ := bind_eq_ok_iff.1 h
      split at h
      · next hstop =>
        obtain ⟨heq, -⟩ := Prod.mk.inj h
        obtain rfl := Except.ok.inj heq
        exact ⟨⟨rfl, by rw [if_pos hstop]⟩, nofun⟩
      · next hgo =>
        obtain ⟨more, w₂, hmore, h⟩ := bind_eq_ok_iff.1 h
        obtain ⟨heq, -⟩ := Prod.mk.inj h
        obtain rfl := Except.ok.inj heq
        obtain ⟨hfollows, hlegs⟩ := ih hmore
        exact ⟨⟨rfl, by rwa [if_neg hgo]⟩, hlegs⟩
    | dispatch event =>
      unfold tracedSteps at h
      obtain ⟨out, w₁, hout, h⟩ := bind_eq_ok_iff.1 h
      obtain ⟨more, w₂, hmore, h⟩ := bind_eq_ok_iff.1 h
      obtain ⟨heq, -⟩ := Prod.mk.inj h
      obtain rfl := Except.ok.inj heq
      obtain ⟨hself, hname, hout⟩ := hdispatch hout
      obtain ⟨hfollows, hlegs⟩ := ih hmore
      refine ⟨⟨hself, hname, hfollows⟩, fun l hl => ?_⟩
      rcases List.mem_cons.1 hl with rfl | hl
      · exact hout _ List.mem_cons_self
      · rcases List.mem_append.1 hl with hl | hl
        · exact hout l (List.mem_cons_of_mem _ hl)
        · exact hlegs l hl

theorem sound_of_tracedDeliver {sink : Sink} {event : String} {data : Value} {w w' : World}
    {out : Option (Sink × Handler) × Trail} (h : tracedDeliver cb dispatch sink event data w = (.ok out, w')) :
    (out.1 = none → out.2 = .done) ∧ (∀ sink' handler, out.1 = some (sink', handler) →
      sink'.handlers.get? event = some handler ∧ out.2.Follows sink'.owner handler.steps) ∧
    ∀ l ∈ out.2.legs, l.1.Sound l.2 := by
  unfold tracedDeliver at h
  cases hget : sink.handlers.get? event with
  | none =>
    rw [hget] at h
    obtain ⟨heq, -⟩ := Prod.mk.inj h
    obtain rfl := Except.ok.inj heq
    exact ⟨fun _ => rfl, nofun, nofun⟩
  | some handler =>
    rw [hget] at h
    dsimp only at h
    rw [bind_of_ok (get_apply w)] at h
    split at h
    · obtain ⟨inner, w₁, hinner, h⟩ := bind_eq_ok_iff.1 h
      obtain ⟨heq, -⟩ := Prod.mk.inj h
      obtain rfl := Except.ok.inj heq
      rw [inScope_apply] at hinner
      obtain ⟨_, _, -, hrun⟩ := bind_eq_ok_iff.1 (Prod.ext (Prod.mk.inj hinner).1 rfl)
      obtain ⟨_, _, -, hrun⟩ := bind_eq_ok_iff.1 hrun
      obtain ⟨hfollows, hlegs⟩ := sound_of_tracedSteps hdispatch hrun
      refine ⟨nofun, fun sink' handler' hsome => ?_, hlegs⟩
      obtain ⟨rfl, rfl⟩ := Prod.mk.inj (Option.some.inj hsome)
      exact ⟨hget, hfollows⟩
    · obtain ⟨heq, -⟩ := Prod.mk.inj h
      obtain rfl := Except.ok.inj heq
      exact ⟨fun _ => rfl, nofun, nofun⟩

theorem sound_of_tracedDispatch {i : InstanceId} {name : String} {data : Value} {w w' : World} {out : Leg × Trail}
    (h : tracedDispatch cb dispatch i name data w = (.ok out, w')) : TellsSoundly out i name := by
  -- where the event reaches no handler nothing follows
  have hstays (prevented : Bool) (h : out = (⟨i, name, prevented, none⟩, .done)) : TellsSoundly out i name := by
    subst h
    refine ⟨rfl, rfl, fun l hl => ?_⟩
    obtain rfl := List.mem_singleton.1 hl
    exact ⟨fun _ => rfl, fun _ => rfl, nofun⟩
  unfold tracedDispatch at h
  obtain ⟨x, w₁, -, h⟩ := bind_eq_ok_iff.1 h
  obtain ⟨prevented, w₂, -, h⟩ := bind_eq_ok_iff.1 h
  split at h
  · next hgo =>
    rw [bind_of_ok (get_apply w₂)] at h
    cases hatt : w₂.attachment? i with
    | none =>
      rw [hatt] at h
      exact hstays prevented (Except.ok.inj (Prod.mk.inj h).1).symm
    | some a =>
      rw [hatt] at h
      obtain ⟨got, w₃, hgot, h⟩ := bind_eq_ok_iff.1 h
      obtain rfl := Except.ok.inj (Prod.mk.inj h).1
      obtain ⟨huntaken, htaken, hlegs⟩ := sound_of_tracedDeliver hdispatch hgot
      refine ⟨rfl, rfl, fun l hl => ?_⟩
      rcases List.mem_cons.1 hl with rfl | hl
      · have hprevented : prevented ≠ true := fun h => by rw [h] at hgo; cases hgo
        exact ⟨fun h => absurd h hprevented, huntaken, htaken⟩
      · exact hlegs l hl
  · exact hstays prevented (Except.ok.inj (Prod.mk.inj h).1).symm

end Sound

theorem sound_of_traced {depth : Nat} {i : InstanceId} {name : String} {data : Value} {w w' : World}
    {out : Leg × Trail} (h : traced depth i name data w = (.ok out, w')) : TellsSoundly out i name := by
  induction depth generalizing i name data w out w' with
  | zero => exact sound_of_tracedDispatch (fun h => by cases h) h
  | succ depth ih => exact sound_of_tracedDispatch ih h

end Run

end ReactiveView
