import ReactiveView.Proofs.Forest.Recast
import ReactiveView.Proofs.Forest.Sweep
import ReactiveView.Proofs.Run

/-!
# Upkeep

Most of what operations do to a world is *upkeep*: nodes are moved, things are taken out of use and children set
free, pins are set and the log is written. The only nodes that are put somewhere are roots of instances and new nodes
(`World.PutsRoots`). A relation between worlds that holds across upkeep (`IsUpkeep`) is kept by letting go
(`World.upkeep_settle`) and by releasing (`keeps_release`), and by attaching if it holds when a place is recorded
(`Keeps.attachAfter`). What is left to look at are the few operations that store a value or an item, or add something.
Letting go and releasing alone need less (`IsLettingGo`).

The evaluation of expressions does less: it keeps hold of what they refer to, and nothing else changes
(`IsNoting`, `keeps_evaluate`).
-/

set_option autoImplicit false

namespace ReactiveView

/-- A relation between worlds that holds when more is kept hold of and when the log is written. -/
class IsNoting (R : World → World → Prop) : Prop extends IsPreorder World R where
  noting : ∀ w w' : World, w'.screen = w.screen → w'.classes = w.classes → w'.instances = w.instances →
    w'.collections = w.collections → w'.spaces = w.spaces → w'.registry = w.registry → w.pins ⊆ w'.pins → R w w'

/-- A relation between worlds that holds across the elementary acts of letting go. -/
class IsLettingGo (R : World → World → Prop) : Prop extends IsPreorder World R where
  unlink : ∀ (w : World) (n : NodeId), R w (w.mapForest fun f => f.unlink n)
  sweep : ∀ (w : World) (held : NodeId → Bool), R w (w.mapForest fun f => f.sweep held (f.size + 1))
  free : ∀ (w : World) (i : InstanceId), R w (w.setAttachment i none)
  retire : ∀ (w : World) (i : InstanceId), R w (w.modifyInstance i fun x => { x with alive := false })
  retireColl : ∀ (w : World) (k : CollectionId),
    R w (w.modifyCollection k fun y => { y with alive := false })
  retireSpace : ∀ (w : World) (n : NamespaceId),
    R w (w.modifySpace n fun ns => { ns with alive := false })
  clear : ∀ (w : World) (k : CollectionId), R w (w.setItems k [])

/-- Only roots of instances and new nodes are put somewhere. -/
def World.PutsRoots (w : World) (f : Forest) : Prop :=
  ∀ n p, f.recorded? n = some p →
    w.forest.recorded? n = some p ∨ w.forest.size ≤ n.index ∨ ∃ i, w.rootOf? i = some n

/-- A relation between worlds that holds across the elementary acts of upkeep. -/
class IsUpkeep (R : World → World → Prop) : Prop extends IsPreorder World R where
  /-- Pins, labels and the log. -/
  quiet : ∀ w w' : World, w'.screen = w.screen → w'.classes = w.classes → w'.instances = w.instances →
    w'.collections = w.collections → w'.spaces = w.spaces → R w w'
  moves : ∀ (w : World) (f : Forest), w.forest.Moves f → w.PutsRoots f → R w (w.mapForest fun _ => f)
  free : ∀ (w : World) (i : InstanceId), R w (w.setAttachment i none)
  retire : ∀ (w : World) (i : InstanceId), R w (w.modifyInstance i fun x => { x with alive := false })
  retireColl : ∀ (w : World) (k : CollectionId),
    R w (w.modifyCollection k fun y => { y with alive := false })
  retireSpace : ∀ (w : World) (n : NamespaceId),
    R w (w.modifySpace n fun ns => { ns with alive := false })
  clear : ∀ (w : World) (k : CollectionId), R w (w.setItems k [])

instance {R : World → World → Prop} [IsUpkeep R] : IsNoting R where
  noting w w' hs hc hi hk hn _ _ := IsUpkeep.quiet w w' hs hc hi hk hn

instance {R : World → World → Prop} [IsUpkeep R] : IsLettingGo R where
  unlink w n := IsUpkeep.moves w _ (.unlink w.forest n) fun _ _ hp => Or.inl (Forest.recorded?_of_unlink hp)
  sweep w held := IsUpkeep.moves w _ (.sweep w.forest held _) fun n _ hp =>
    Or.inl ((Forest.recorded?_sweep held _ w.forest n).symm.trans hp)
  free := IsUpkeep.free
  retire := IsUpkeep.retire
  retireColl := IsUpkeep.retireColl
  retireSpace := IsUpkeep.retireSpace
  clear := IsUpkeep.clear

namespace World

variable {R : World → World → Prop}

theorem upkeep_trans [IsPreorder World R] {a b c : World} (h : R a b) (h' : R b c) : R a c :=
  IsTrans.trans a b c h h'

theorem upkeep_foldl [IsPreorder World R] {α : Type} {f : World → α → World} (h : ∀ w a, R w (f w a))
    (as : List α) (w : World) : R w (as.foldl f w) := by
  induction as generalizing w with
  | nil => exact refl w
  | cons a as ih => exact upkeep_trans (h w a) (ih (f w a))

/-! ## Letting go -/

section LettingGo

variable [IsLettingGo R]

theorem upkeep_unlinkRoot (w : World) (i : InstanceId) : R w (w.unlinkRoot i) := by
  unfold unlinkRoot
  split
  · exact IsLettingGo.unlink w _
  · exact refl w

theorem upkeep_freeIf (w : World) (test : Place → Bool) (i : InstanceId) :
    R w (w.freeIf test i) := by
  unfold freeIf
  split
  · split
    · exact upkeep_trans (IsLettingGo.free w i) (upkeep_unlinkRoot _ i)
    · exact refl w
  · exact refl w

theorem upkeep_freeItems (w : World) (c : CollectionId) : R w (w.freeItems c) :=
  upkeep_trans (IsLettingGo.clear w c) (upkeep_foldl (fun w i => upkeep_freeIf w _ i) _ _)

theorem upkeep_freeChild (i : InstanceId) (w : World) (v : Value) : R w (freeChild i w v) := by
  cases v with
  | inst child => exact upkeep_freeIf w _ child
  | coll c => exact upkeep_freeItems w c
  | _ => exact refl w

theorem upkeep_dropInstance (w : World) (i : InstanceId) : R w (w.dropInstance i) := by
  unfold dropInstance
  split
  · next x _ => exact upkeep_trans (IsLettingGo.retire w i) (upkeep_foldl (upkeep_freeChild i) x.values _)
  · exact refl w

theorem upkeep_dropCollection (w : World) (c : CollectionId) : R w (w.dropCollection c) :=
  upkeep_trans (IsLettingGo.retireColl w c) (upkeep_freeItems _ c)

theorem upkeep_dropIdle (fuel : Nat) (w : World) : R w (w.dropIdle fuel) := by
  induction fuel generalizing w with
  | zero => exact refl w
  | succ fuel ih =>
    unfold dropIdle
    split
    · exact refl w
    · exact upkeep_trans (upkeep_foldl upkeep_dropInstance _ w)
        (upkeep_trans (upkeep_foldl upkeep_dropCollection _ _) (ih _))

theorem upkeep_settle (w : World) : R w w.settle := by
  unfold settle
  refine upkeep_trans (upkeep_foldl IsLettingGo.retireSpace w.idleSpaces w) ?_
  exact upkeep_trans (upkeep_dropIdle _ _) (IsLettingGo.sweep _ _)

end LettingGo

variable [IsUpkeep R]

theorem upkeep_pins (w : World) (pins : List Held) : R w { w with pins := pins } :=
  IsUpkeep.quiet w _ rfl rfl rfl rfl rfl

end World

namespace Run

variable {α β : Type} {R : World → World → Prop}

/-! ## Reading -/

section Reading

variable [IsPreorder World R]

/-- Nothing comes after a failure. -/
theorem keeps_fail_bind (e : Error) (f : α → Run β) : Keeps R ((fail e : Run α) >>= f) := fun w => refl w

/-- What comes after finding a root. -/
theorem keeps_theRoot_bind {i : InstanceId} {f : NodeId → Run β}
    (hf : ∀ r w, w.rootOf? i = some r → R w (f r w).2) : Keeps R (theRoot i >>= f) := by
  intro w
  rcases hrun : theRoot i w with ⟨e | r, w'⟩
  · have hkeeps := keeps_theRoot (R := R) i w
    rw [hrun] at hkeeps
    rw [bind_of_error hrun]
    exact hkeeps
  · obtain ⟨hr, rfl⟩ := theRoot_eq_ok hrun
    rw [bind_of_ok hrun]
    exact hf r _ hr

theorem keeps_checkOutside (i : InstanceId) (node : NodeId) : Keeps R (checkOutside i node) := by
  refine (keeps_theRoot i).bind fun root => keeps_get.bind fun w => ?_
  split
  · exact keeps_get.bind fun _ => keeps_fail _
  · exact keeps_pure _

theorem keeps_checkInserted (anchor : NodeId) (removed before inserted : List InstanceId) :
    Keeps R (checkInserted anchor removed before inserted) := by
  induction inserted generalizing before with
  | nil => exact keeps_pure _
  | cons i rest ih =>
    unfold checkInserted
    dsimp only
    split
    · exact keeps_get.bind fun _ => keeps_fail_bind _ _
    · refine keeps_get.bind fun w => ?_
      split
      · exact keeps_get.bind fun _ => keeps_fail_bind _ _
      · exact (keeps_checkOutside i anchor).bind fun _ => ih _

theorem keeps_nodeBefore (anchor : NodeId) (items : List InstanceId) (n : Nat) :
    Keeps R (nodeBefore anchor items n) := by
  cases n with
  | zero => exact keeps_pure _
  | succ n => exact (keeps_ofOption _).bind fun _ => keeps_theRoot _

theorem keeps_checkKnown (i : InstanceId) (fields : List (String × Value)) : Keeps R (checkKnown i fields) := by
  unfold checkKnown
  refine Keeps.forM (fun e => ?_) fields
  exact (keeps_propertyIndex i e.1).bind fun _ => keeps_pure _

theorem keeps_running (frame : Option Frame) : Keeps R (running frame) :=
  (keeps_ofOption _).bind fun _ => keeps_pure _

theorem keeps_getProperty (i : InstanceId) (name : String) : Keeps R (getProperty i name) :=
  (keeps_propertyIndex i name).bind fun _ => (keeps_theInstance i).bind fun _ => keeps_ofOption _

theorem keeps_getAttribute (i : InstanceId) (name : String) : Keeps R (getAttribute i name) :=
  (keeps_attributeIndex i name).bind fun _ => (keeps_theInstance i).bind fun _ => keeps_ofOption _

end Reading

/-! ## Evaluating expressions -/

section Noting

variable [IsNoting R]

theorem keeps_note (f : World → LogEntry) : Keeps R (note f) := fun w =>
  IsNoting.noting w _ rfl rfl rfl rfl rfl rfl (List.Subset.refl _)

theorem keeps_pin (h : Held) : Keeps R (pin h) := fun w =>
  IsNoting.noting w _ rfl rfl rfl rfl rfl rfl (List.subset_cons_self _ _)

theorem keeps_pinValue (v : Value) : Keeps R (pinValue v) := fun w =>
  IsNoting.noting w _ rfl rfl rfl rfl rfl rfl (List.subset_append_right _ _)

theorem keeps_labelled (label : String) : Keeps R (labelled label) :=
  keeps_get.bind fun _ => (keeps_ofOption _).bind fun _ => (keeps_pin _).bind fun _ => keeps_pure _

theorem keeps_pinnedProperty (i : InstanceId) (name : String) :
    Keeps R (do
      let v ← getProperty i name
      pinValue v
      return v) :=
  (keeps_getProperty i name).bind fun v => (keeps_pinValue v).bind fun _ => keeps_pure _

mutual

theorem keeps_evaluate (frame : Option Frame) : ∀ e : Host.Expr, Keeps R (evaluate frame e)
  | .null => by
    unfold evaluate
    exact keeps_pure _
  | .bool _ => by
    unfold evaluate
    exact keeps_pure _
  | .number _ => by
    unfold evaluate
    exact keeps_pure _
  | .text _ => by
    unfold evaluate
    exact keeps_pure _
  | .array items => by
    unfold evaluate
    exact (keeps_evaluateItems frame items).bind fun _ => keeps_pure _
  | .object fields => by
    unfold evaluate
    exact (keeps_evaluateFields frame fields).bind fun _ => keeps_pure _
  | .labelled label => by
    unfold evaluate
    exact (keeps_labelled label).bind fun _ => keeps_pure _
  | .collectionOf label property => by
    unfold evaluate
    exact (keeps_labelled label).bind fun i => keeps_pinnedProperty i property
  | .heldCollection label => by
    unfold evaluate
    exact keeps_get.bind fun _ => (keeps_ofOption _).bind fun _ => (keeps_pin _).bind fun _ => keeps_pure _
  | .payload => by
    unfold evaluate
    exact (keeps_ofOption _).bind fun _ => keeps_pure _
  | .payloadText => by
    unfold evaluate
    exact (keeps_ofOption _).bind fun _ => keeps_pure _
  | .self => by
    unfold evaluate
    exact (keeps_running frame).bind fun _ => keeps_pure _
  | .property name => by
    unfold evaluate
    exact (keeps_running frame).bind fun i => keeps_pinnedProperty i name

theorem keeps_evaluateItems (frame : Option Frame) :
    ∀ es : List Host.Expr, Keeps R (evaluateItems frame es)
  | [] => by
    unfold evaluateItems
    exact keeps_pure _
  | e :: es => by
    unfold evaluateItems
    exact (keeps_evaluate frame e).bind fun _ => (keeps_evaluateItems frame es).bind fun _ => keeps_pure _

theorem keeps_evaluateFields (frame : Option Frame) :
    ∀ fields : List (String × Host.Expr), Keeps R (evaluateFields frame fields)
  | [] => by
    unfold evaluateFields
    exact keeps_pure _
  | (_, e) :: fields => by
    unfold evaluateFields
    exact (keeps_evaluate frame e).bind fun _ => (keeps_evaluateFields frame fields).bind fun _ => keeps_pure _

end

theorem keeps_evaluateOption (frame : Option Frame) (e : Option Host.Expr) :
    Keeps R (evaluateOption frame e) := by
  cases e with
  | none => exact keeps_pure _
  | some e => exact (keeps_evaluate frame e).map _

end Noting

/-! ## Attaching -/

section Attaching

variable [IsPreorder World R] {i : InstanceId} {anchor : NodeId} {a : Attachment}

/-- Attaching puts the root behind the anchor and records the place. -/
theorem Keeps.attachAfter (hedit : ∀ w r, w.rootOf? i = some r → R w (edit (fun f => f.insertAfter anchor r) w).2)
    (hrecord : ∀ w : World, R w (w.setAttachment i (some a))) : Keeps R (Run.attachAfter i anchor a) := by
  refine keeps_get.bind fun w => ?_
  dsimp only
  split
  · exact keeps_get.bind fun _ => keeps_fail_bind _ _
  · refine (keeps_checkOutside i anchor).bind fun _ => keeps_theRoot_bind fun root w hroot => ?_
    exact keeps_bind_at (hedit w root hroot) fun _ => hrecord

/-- Instances are attached one behind the other if each of them is, wherever it goes. -/
theorem Keeps.attachInOrder {is : List InstanceId} (h : ∀ i ∈ is, ∀ anchor, Keeps R (Run.attachAfter i anchor a))
    (previous : NodeId) : Keeps R (Run.attachInOrder a previous is) := by
  induction is generalizing previous with
  | nil => exact keeps_pure _
  | cons i rest ih =>
    refine (h i List.mem_cons_self previous).bind fun _ => (keeps_theRoot i).bind fun root => ?_
    exact ih (fun j hj => h j (List.mem_cons_of_mem i hj)) root

end Attaching

/-! ## Setting free -/

/-- Releasing clears the record and takes the root out. -/
theorem Keeps.release [IsPreorder World R] {i : InstanceId} (hfree : ∀ w : World, R w (w.setAttachment i none))
    (hunlink : ∀ (w : World) (n : NodeId), R w (w.mapForest fun f => f.unlink n)) : Keeps R (Run.release i) := by
  refine keeps_get.bind fun w => ?_
  dsimp only
  split
  · exact keeps_get.bind fun _ => keeps_fail_bind _ _
  · refine Keeps.bind (fun w => hfree w) fun _ => ?_
    exact (keeps_theRoot i).bind fun root w => hunlink w root

theorem keeps_release [IsLettingGo R] (i : InstanceId) : Keeps R (release i) :=
  .release (fun w => IsLettingGo.free w i) IsLettingGo.unlink

/-- The child of a slot is exchanged: the new one is attached, the old one is released, and the value is stored. -/
theorem Keeps.replaceChild [IsLettingGo R] {T : InstanceId} {n : Nat} {name : String} {child : Option InstanceId}
    (hattach : ∀ j ∈ child, ∀ anchor sink, Keeps R (Run.attachAfter j anchor ⟨.slot T name, sink⟩))
    (hstore : ∀ (w : World) (v : Value), R w (w.storeValue T n v)) : Keeps R (Run.replaceChild T n name child) := by
  refine (keeps_theInstance T).bind fun x => (keeps_ofOption _).bind fun old => ?_
  dsimp only
  split
  · exact keeps_pure _
  · refine (keeps_theView T).bind fun view => ?_
    split
    · refine Keeps.bind ?_ fun _ => (Keeps.forM_option keeps_release _).bind fun _ w => hstore w _
      cases child with
      | none => exact keeps_pure _
      | some j => exact hattach j rfl _ _
    · exact keeps_fail _

theorem Keeps.tolerate [IsPreorder World R] {r : Run Unit} (hr : Keeps R r) : Keeps R (Run.tolerate r) := by
  refine hr.tryCatch fun h => ?_
  cases h with
  | failed e => exact keeps_pure _
  | exhausted => exact keeps_throw _
  | lost => exact keeps_throw _

/-! ## Upkeep by runs -/

section Upkeep

variable [IsUpkeep R]

/-- A change of the pins, the labels or the log. -/
theorem keeps_update_quiet {f : World → World} (hs : ∀ w, (f w).screen = w.screen)
    (hc : ∀ w, (f w).classes = w.classes) (hi : ∀ w, (f w).instances = w.instances)
    (hk : ∀ w, (f w).collections = w.collections) (hn : ∀ w, (f w).spaces = w.spaces) :
    Keeps R (update f) := fun w =>
  IsUpkeep.quiet w (f w) (hs w) (hc w) (hi w) (hk w) (hn w)

theorem keeps_unpin (h : Held) : Keeps R (unpin h) := fun w =>
  World.upkeep_trans (World.upkeep_pins w _) (World.upkeep_settle _)

/-- A root is put behind a node. -/
theorem upkeep_insertAfter {w : World} {i : InstanceId} {r : NodeId} (hr : w.rootOf? i = some r) (anchor : NodeId) :
    R w (edit (fun f => f.insertAfter anchor r) w).2 := by
  rw [edit_apply]
  refine World.upkeep_trans (IsUpkeep.moves w _ (.insertAfter w.forest anchor r) fun n p hp => ?_)
    (keeps_ofExcept _ _)
  by_cases hn : n = r
  · subst hn
    exact Or.inr (Or.inr ⟨i, hr⟩)
  · exact Or.inl ((Forest.recorded?_insertAfter_of_ne w.forest hn).symm.trans hp)

theorem Keeps.scope {keep : α → List Held} {body : Run α} (hb : Keeps R body) :
    Keeps R (Run.keeping keep body) :=
  hb.keeping World.upkeep_pins World.upkeep_settle

end Upkeep

end Run

end ReactiveView
