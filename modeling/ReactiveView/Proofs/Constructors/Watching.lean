import ReactiveView.Host.Perform
import ReactiveView.Proofs.Run

/-!
# Watching constructors

Constructing an instance ends with the last constructor of the chain of its class. A constructor runs in a frame that
holds the constructors above it, and may call the closest of them, its *super link*, as often as it likes and under
any condition, or not at all.

`Run.watchedConstruct` constructs an instance as `Run.constructInstance` does and tells each time that a constructor
of the new instance is entered and each time that one calls its super link (`ConstructorEvent`), also when the
construction fails. Apart from what it tells it is the same operation (`Run.run_watchedConstruct`).
-/

set_option autoImplicit false

namespace ReactiveView

/-- What happens to the constructors of a chain. A constructor is known by the number of constructors above it. -/
inductive ConstructorEvent where
  /-- A constructor is called on an instance. -/
  | entered (self : InstanceId) (above : Nat) (script : Host.Script)
  /-- A constructor that runs on an instance calls its super link. -/
  | linked (self : InstanceId) (above : Nat)

/-- A run that tells what happened, whether it ends well or halts. -/
def Watched (α : Type) : Type := World → (Except Halt α × World) × List ConstructorEvent

namespace Watched

variable {α β : Type}

/-- A run in which nothing is told. -/
def lift (m : Run α) : Watched α := fun w => (m w, [])

/-- Tells an event. -/
def tell (e : ConstructorEvent) : Watched Unit := fun w => ((.ok (), w), [e])

/-- The run without what it tells. -/
def run (m : Watched α) : Run α := fun w => (m w).1

/-- What the run tells in a world. -/
def events (m : Watched α) (w : World) : List ConstructorEvent := (m w).2

instance : Monad Watched where
  pure a := lift (pure a)
  bind m f := fun w =>
    match m w with
    | ((.ok a, w₁), es) => (run (f a) w₁, es ++ events (f a) w₁)
    | ((.error h, w₁), es) => ((.error h, w₁), es)

/-- Goes on in another way when a run halts. -/
def recover (m : Watched α) (f : Halt → Watched α) : Watched α := fun w =>
  match m w with
  | ((.ok a, w₁), es) => ((.ok a, w₁), es)
  | ((.error h, w₁), es) => (run (f h) w₁, es ++ events (f h) w₁)

/-- Lets go of what a run keeps alive, apart from what its result keeps alive. -/
def keeping (held : α → List Held) (m : Watched α) : Watched α := fun w => (Run.keeping held (run m) w, events m w)

/-! ## Without what is told -/

@[simp] theorem run_lift (m : Run α) : run (lift m) = m := rfl

@[simp] theorem run_pure (a : α) : run (pure a) = pure a := rfl

@[simp] theorem run_tell (e : ConstructorEvent) : run (tell e) = pure () := rfl

@[simp] theorem run_keeping (held : α → List Held) (m : Watched α) :
    run (keeping held m) = Run.keeping held (run m) := rfl

theorem bind_apply (m : Watched α) (f : α → Watched β) (w : World) :
    (m >>= f) w =
      match m w with
      | ((.ok a, w₁), es) => (run (f a) w₁, es ++ events (f a) w₁)
      | ((.error h, w₁), es) => ((.error h, w₁), es) := rfl

@[simp] theorem run_bind (m : Watched α) (f : α → Watched β) : run (m >>= f) = run m >>= fun a => run (f a) := by
  funext w
  rw [Run.bind_apply, run, bind_apply, run]
  rcases m w with ⟨⟨e | a, w₁⟩, es⟩
  · rfl
  · rfl

@[simp] theorem run_recover (m : Watched α) (f : Halt → Watched α) :
    run (recover m f) = tryCatch (run m) fun h => run (f h) := by
  funext w
  rw [Run.tryCatch_apply, run, recover, run]
  rcases m w with ⟨⟨e | a, w₁⟩, es⟩
  · rfl
  · rfl

/-! ## What is told -/

@[simp] theorem events_lift (m : Run α) (w : World) : events (lift m) w = [] := rfl

@[simp] theorem events_pure (a : α) (w : World) : events (pure a) w = [] := rfl

@[simp] theorem events_tell (e : ConstructorEvent) (w : World) : events (tell e) w = [e] := rfl

@[simp] theorem events_keeping (held : α → List Held) (m : Watched α) (w : World) :
    events (keeping held m) w = events m w := by
  simp only [events, keeping]

theorem eq_of_run {m : Watched α} {w w₁ : World} {r : Except Halt α} (h : run m w = (r, w₁)) :
    m w = ((r, w₁), events m w) :=
  Prod.ext h rfl

/-- A part that ends well is followed by what the rest tells. -/
theorem events_bind_of_ok {m : Watched α} {f : α → Watched β} {w w₁ : World} {a : α} (h : run m w = (.ok a, w₁)) :
    events (m >>= f) w = events m w ++ events (f a) w₁ := by
  rw [events, bind_apply, eq_of_run h]

/-- After a part that halts nothing more is told. -/
theorem events_bind_of_error {m : Watched α} {f : α → Watched β} {w w₁ : World} {e : Halt}
    (h : run m w = (.error e, w₁)) : events (m >>= f) w = events m w := by
  rw [events, bind_apply, eq_of_run h]

/-- What is done before without telling adds nothing. -/
theorem events_lift_bind_of_ok {m : Run α} {f : α → Watched β} {w w₁ : World} {a : α} (h : m w = (.ok a, w₁)) :
    events (lift m >>= f) w = events (f a) w₁ := by
  have hrun : run (lift m) w = (.ok a, w₁) := h
  rw [events_bind_of_ok hrun, events_lift, List.nil_append]

theorem events_lift_bind_of_error {m : Run α} {f : α → Watched β} {w w₁ : World} {e : Halt}
    (h : m w = (.error e, w₁)) : events (lift m >>= f) w = [] := by
  have hrun : run (lift m) w = (.error e, w₁) := h
  exact events_bind_of_error hrun

theorem events_tell_bind (e : ConstructorEvent) (f : Unit → Watched β) (w : World) :
    events (tell e >>= f) w = e :: events (f ()) w := by
  have hrun : run (tell e) w = (.ok (), w) := rfl
  rw [events_bind_of_ok hrun, events_tell]
  rfl

/-- What is done afterwards without telling adds nothing. -/
theorem events_bind_lift (m : Watched α) (f : α → Run β) (w : World) :
    events (m >>= fun a => lift (f a)) w = events m w := by
  rcases hrun : run m w with ⟨e | a, w₁⟩
  · exact events_bind_of_error hrun
  · rw [events_bind_of_ok hrun, events_lift, List.append_nil]

theorem events_recover_lift (m : Watched α) (f : Halt → Run α) (w : World) :
    events (recover m fun h => lift (f h)) w = events m w := by
  rw [events, recover]
  rcases hrun : run m w with ⟨e | a, w₁⟩
  · rw [eq_of_run hrun]
    exact List.append_nil _
  · rw [eq_of_run hrun]

end Watched

namespace Run

open Watched (lift tell)

/-! ## The run of a constructor, watched -/

section Scripts

variable (cb : Callbacks) (link : Watched Unit) (frame : Frame)

mutual

/-- Carries out one action of a constructor, whose super link is a given run. -/
def watchedAction : Host.Action → Watched Outcome
  | .branch left right yes no => do
    let a ← lift (evaluate (some frame) left)
    let b ← lift (evaluate (some frame) right)
    if a.same b then watchedScript yes else watchedScript no
  | .callSuper => do
    lift (note fun _ => .superCall (!frame.chain.isEmpty))
    tell (.linked frame.self frame.chain.length)
    link
    return {}
  | a => lift (runAction cb frame a)

/-- Runs the actions of a constructor until one returns a value. -/
def watchedScript : List Host.Action → Watched Outcome
  | [] => pure {}
  | a :: rest => do
    let o ← Watched.keeping Outcome.held (watchedAction a)
    match o.returned with
    | some _ => return o
    | none => return Outcome.andThen o (← watchedScript rest)

end

end Scripts

/-- Runs the last constructor of a chain on an instance, with calls nested at most so deeply. -/
def watchedConstructors (depth : Nat) (i : InstanceId) (chain : List Host.Script) : Watched Unit := do
  match chain.getLast? with
  | none => pure ()
  | some script =>
    tell (.entered i chain.dropLast.length script)
    match depth with
    | 0 => lift (throw .exhausted)
    | depth + 1 =>
      let _ ← watchedScript (.ofDepth depth) (watchedConstructors depth i chain.dropLast)
        { self := i, chain := chain.dropLast } script

/-- Gives a new instance its initial state. -/
def watchedInitialState (depth : Nat) (i : InstanceId) (c : Class) (fields : Dict String Value) : Watched Unit := do
  lift do
    c.descriptor.attributes.forM fun a => setAttribute i a.name a.default
    c.descriptor.properties.forM (initializeProperty (.ofDepth depth) i fields)
    (c.graph.order.filter fun name => !fields.contains name).forM (recomputeBinding (.ofDepth depth) i)
  watchedConstructors depth i c.constructors

/-- Gives a new instance its initial state; if that fails, sets free what it has taken. -/
def watchedPopulate (depth : Nat) (i : InstanceId) (c : Class) (fields : Dict String Value) : Watched InstanceId := do
  Watched.recover (watchedInitialState depth i c fields) fun h => lift do
    releaseChildren (.ofDepth depth) i
    let _ ← flushQueue c.queue
    throw h
  lift do
    let _ ← flushQueue c.queue
    update fun w => w.modifyInstance i fun x => { x with built := true }
    return i

/-- Constructs an instance of a concrete class. -/
def watchedConcrete (depth : Nat) (id : ClassId) (c : Class) (init : Option Value) : Watched InstanceId := do
  let fields ← lift (ofExcept (initialFields c.name init))
  match fields.keys.find? fun k => (c.descriptor.property? k).isNone with
  | some k => lift (fail (.unknownProperty k c.name))
  | none =>
    let i ← lift (create id c)
    watchedPopulate depth i c fields

/-- Constructs an instance of a class; what a factory does is not watched. -/
def watchedConstruct (depth : Nat) (id : ClassId) (init : Option Value) : Watched InstanceId :=
  Watched.keeping (fun i => [.inst i]) do
    let c ← lift (theClass id)
    if c.descriptor.isAbstract then
      match c.factory, c.ns with
      | some factory, some space => lift (throughFactory (.ofDepth depth) id space factory init)
      | _, _ => lift (fail (.abstractClass c.name))
    else watchedConcrete depth id c init

/-! ## It is the same operation -/

section Erasure

variable {cb : Callbacks} {link : Watched Unit} {frame : Frame}

mutual

theorem run_watchedAction (hlink : link.run = runConstructors cb frame.self frame.chain) :
    ∀ a : Host.Action, (watchedAction cb link frame a).run = runAction cb frame a
  | .branch left right yes no => by
    unfold watchedAction runAction
    simp only [Watched.run_bind, Watched.run_lift]
    refine bind_congr fun a => bind_congr fun b => ?_
    split
    · exact run_watchedScript hlink yes
    · exact run_watchedScript hlink no
  | .callSuper => by
    unfold watchedAction runAction
    simp only [Watched.run_bind, Watched.run_lift, Watched.run_tell, Watched.run_pure, hlink, pure_bind]
  | .log text => by rw [watchedAction, Watched.run_lift] <;> nofun
  | .give value => by rw [watchedAction, Watched.run_lift] <;> nofun
  | .fail e => by rw [watchedAction, Watched.run_lift] <;> nofun
  | .prevent => by rw [watchedAction, Watched.run_lift] <;> nofun
  | .emit name data => by rw [watchedAction, Watched.run_lift] <;> nofun
  | .command c => by rw [watchedAction, Watched.run_lift] <;> nofun

theorem run_watchedScript (hlink : link.run = runConstructors cb frame.self frame.chain) :
    ∀ script : List Host.Action, (watchedScript cb link frame script).run = runScript cb frame script
  | [] => by
    unfold watchedScript runScript
    rfl
  | a :: rest => by
    unfold watchedScript runScript
    rw [Watched.run_bind, Watched.run_keeping, run_watchedAction hlink a]
    refine bind_congr fun o => ?_
    cases o.returned with
    | some v => rfl
    | none =>
      dsimp only
      rw [Watched.run_bind, run_watchedScript hlink rest]
      rfl

end

end Erasure

theorem run_watchedConstructors (depth : Nat) (i : InstanceId) (chain : List Host.Script) :
    (watchedConstructors depth i chain).run = runConstructors (.ofDepth depth) i chain := by
  induction depth generalizing chain with
  | zero =>
    unfold watchedConstructors runConstructors
    cases chain.getLast? with
    | none => rfl
    | some script => rfl
  | succ depth ih =>
    unfold watchedConstructors runConstructors
    cases chain.getLast? with
    | none => rfl
    | some script =>
      dsimp only
      have hscript : (watchedScript (.ofDepth depth) (watchedConstructors depth i chain.dropLast)
            { self := i, chain := chain.dropLast } script).run =
          runScript (.ofDepth depth) { self := i, chain := chain.dropLast } script :=
        run_watchedScript (ih chain.dropLast) script
      rw [Watched.run_bind, Watched.run_tell, pure_bind, Watched.run_bind, hscript]
      rfl

theorem run_watchedInitialState (depth : Nat) (i : InstanceId) (c : Class) (fields : Dict String Value) :
    (watchedInitialState depth i c fields).run = giveInitialState (.ofDepth depth) i c fields := by
  unfold watchedInitialState giveInitialState
  rw [Watched.run_bind, Watched.run_lift, run_watchedConstructors]
  simp only [bind_assoc]

theorem run_watchedPopulate (depth : Nat) (i : InstanceId) (c : Class) (fields : Dict String Value) :
    (watchedPopulate depth i c fields).run = populate (.ofDepth depth) i c fields := by
  unfold watchedPopulate populate
  rw [Watched.run_bind, Watched.run_recover, run_watchedInitialState]
  rfl

theorem run_watchedConcrete (depth : Nat) (id : ClassId) (c : Class) (init : Option Value) :
    (watchedConcrete depth id c init).run = constructConcrete (.ofDepth depth) id c init := by
  unfold watchedConcrete constructConcrete
  rw [Watched.run_bind, Watched.run_lift]
  refine bind_congr fun fields => ?_
  cases fields.keys.find? fun k => (c.descriptor.property? k).isNone with
  | some k => rfl
  | none =>
    dsimp only
    rw [Watched.run_bind, Watched.run_lift]
    refine bind_congr fun i => ?_
    exact run_watchedPopulate depth i c fields

/-- Apart from what it tells, the watched construction is the construction. -/
theorem run_watchedConstruct (depth : Nat) (id : ClassId) (init : Option Value) :
    (watchedConstruct depth id init).run = constructInstance (.ofDepth depth) id init := by
  unfold watchedConstruct constructInstance
  rw [Watched.run_keeping, Watched.run_bind, Watched.run_lift]
  refine congrArg _ (bind_congr fun c => ?_)
  split
  · cases c.factory with
    | none => rfl
    | some factory =>
      cases c.ns with
      | none => rfl
      | some space => rfl
  · exact run_watchedConcrete depth id c init

end Run

end ReactiveView
