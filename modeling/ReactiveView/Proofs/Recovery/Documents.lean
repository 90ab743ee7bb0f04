import ReactiveView.Proofs.Recovery.Failure

/-!
# Documents and constructions that fail

An object that stands in a document is recorded nowhere: no slot and no collection holds it. So a construction may
take it in, and when the construction fails afterwards the object is set free, but its root does not go back to
where it stood. This is all that a document loses: every node has the parent that it had, except that roots of
instances that were recorded nowhere may stand alone afterwards (`Session.Reached.leavesStanding_of_failed`).
-/

set_option autoImplicit false

namespace ReactiveView

variable {w w' : World}

/-- After a construction that fails every node stands where it stood, apart from roots of instances that were
recorded nowhere. -/
theorem World.Resting.leavesStanding_of_error (hw : w.Resting) {id : ClassId} (hid : w.Unaided id)
    {init : Option Value} (hinit : ∀ v ∈ init, w.KnowsValue v) {depth : Nat} {h : Halt}
    (hfail : Run.constructInstance (Callbacks.ofDepth depth) id init w = (.error h, w')) : w.LeavesStanding w' := by
  obtain ⟨hu, hpins, hidle⟩ := hw.underway_of_error hid hinit hfail
  exact hu.leavesStanding hw hpins hidle

/-- A session with a document in which a leaf stands, and with a class of holders that take a leaf and a number. -/
def leafSession : Session :=
  let s : Session := {}
  (s.step (.load "main" ("<template ooml-class='Leaf'><b>leaf</b></template>" ++
    "<template ooml-class='Holder'><div>\x7b Leaf this.child \x7d\x7b\x7b number this.n \x7d\x7d</div></template>" ++
    "<main><i ooml-instantiate='Leaf leaf'></i></main>") [])).2

/-- A holder takes the leaf, and then a text is refused as the number. -/
def refusedHolder : Except Halt InstanceId × World :=
  Run.constructInstance (Callbacks.ofDepth 1) ⟨1⟩
    (some (.object [("child", .inst ⟨0⟩), ("n", .text "bad")])) leafSession.world

end ReactiveView
