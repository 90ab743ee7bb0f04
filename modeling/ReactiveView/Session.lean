import ReactiveView.Host.Perform

/-!
# Sessions

A session runs the commands of a host program one after the other on one world. Each command is
reported with its answer or the reason why it has none, with what scripts logged meanwhile, and with the
printed view of every watched label whose instance looks different from when it was last reported.

Halting in the middle of a command does not undo what it has done before.

`Session.run_nil` and `Session.length_run` say that there is one report for each command.
-/

set_option autoImplicit false

namespace ReactiveView

/-- What is told of one command. -/
structure StepReport where
  result : Except Halt Host.Answer
  log : List LogEntry
  /-- The printed views that have changed, by label. -/
  html : List (String × String)

/-- A world, the labels that are watched, and what was last reported of them. -/
structure Session where
  world : World := {}
  watched : List String := []
  reported : Dict String String := []

namespace Session

/-- How deeply calls may be nested. -/
def callDepth : Nat := 1000

/-- What commands call back into. -/
def callbacks : Callbacks := Callbacks.ofDepth callDepth

/-- The views of watched labels that differ from what was last reported. -/
def changedViews (w : World) (reported : Dict String String) :
    List String → List (String × String)
  | [] => []
  | label :: rest =>
    match w.registry.instances.get? label with
    | none => changedViews w reported rest
    | some i =>
      let html := w.html i
      if reported.get? label = some html then changedViews w reported rest
      else (label, html) :: changedViews w reported rest

/-- Carries out a command. -/
def step (s : Session) (c : Host.Command) : StepReport × Session :=
  let out := Run.inScope (Run.perform callbacks none c) { s.world with log := [] }
  let changed := changedViews out.2 s.reported s.watched
  (⟨out.1, out.2.log, changed⟩,
    { s with world := out.2, reported := Dict.union s.reported changed })

/-- Carries out commands in order. -/
def run (s : Session) : List Host.Command → List StepReport
  | [] => []
  | c :: rest =>
    let (report, s) := s.step c
    report :: run s rest

/-- Without commands there is nothing to report. -/
theorem run_nil (s : Session) : s.run [] = [] := rfl

/-- There is one report for each command. -/
theorem length_run (s : Session) (cs : List Host.Command) : (s.run cs).length = cs.length := by
  induction cs generalizing s with
  | nil => rfl
  | cons c rest ih => simp [run, ih]

end Session

end ReactiveView
