import ReactiveView.Proofs.Recovery.Scripts

/-!
# Listeners that write nothing

A listener *leaves alone* what the instance that it listens to holds when its script keeps the values, the
attributes, the view and the listeners of this instance, however it ends (`Listener.LeavesAlone`). This is so of
scripts that log, read, compare, return and fail (`Host.readScript`): they change nothing but the log, and let
go of nothing that an instance holds (`Listener.leavesAlone_of_reads`).
-/

set_option autoImplicit false

namespace ReactiveView

variable {w w' w'' : World} {i : InstanceId} {x y : Instance}

/-- The listeners that are told when a property has been written. -/
def Instance.valueListeners (x : Instance) : List Listener :=
  (x.mutationListeners.get? EventClass.propertyChange).getD []

/-- Two records of an instance that agree in all that decides how it is written and what its view shows. -/
structure Instance.SameContents (x y : Instance) : Prop extends x.SameState y where
  attrValues : y.attrValues = x.attrValues

theorem Instance.SameContents.rfl : x.SameContents x := ⟨⟨.refl _, .refl _, .refl _, .refl _⟩, .refl _⟩

theorem Instance.SameContents.trans {z : Instance} (h : x.SameContents y) (h' : y.SameContents z) :
    x.SameContents z :=
  ⟨⟨h'.classId.trans h.classId, h'.view.trans h.view, h'.values.trans h.values,
    h'.mutationListeners.trans h.mutationListeners⟩, h'.attrValues.trans h.attrValues⟩

namespace World

/-- From one world to another known classes stay, and an instance holds what it held. -/
structure LeavesAlone (i : InstanceId) (w w' : World) : Prop where
  cls : ∀ id c, w.class? id = some c → w'.class? id = some c
  inst : ∀ x, w.inst? i = some x → ∃ y, w'.inst? i = some y ∧ x.SameContents y

namespace LeavesAlone

theorem rfl : w.LeavesAlone i w := ⟨fun _ _ h => h, fun x hx => ⟨x, hx, .rfl⟩⟩

theorem trans (h : w.LeavesAlone i w') (h' : w'.LeavesAlone i w'') : w.LeavesAlone i w'' where
  cls id c hc := h'.cls id c (h.cls id c hc)
  inst x hx := by
    obtain ⟨y, hy, hxy⟩ := h.inst x hx
    obtain ⟨z, hz, hyz⟩ := h'.inst y hy
    exact ⟨z, hz, hxy.trans hyz⟩

theorem of_same (hc : w'.classes = w.classes) (hi : w'.instances = w.instances) : w.LeavesAlone i w' where
  cls id c h := by
    unfold class? at h ⊢
    rw [hc]
    exact h
  inst x h := by
    refine ⟨x, ?_, .rfl⟩
    unfold inst? at h ⊢
    rw [hi]
    exact h

theorem modifyInstance (w : World) (j : InstanceId) {f : Instance → Instance} (hf : ∀ x : Instance, x.SameContents (f x)) :
    w.LeavesAlone i (w.modifyInstance j f) where
  cls _ _ h := h
  inst x hx := by
    by_cases hji : j = i
    · subst hji
      exact ⟨f x, by rw [inst?_modifyInstance_self, hx, Option.map_some], hf x⟩
    · exact ⟨x, by rw [inst?_modifyInstance_of_ne _ _ hji, hx], .rfl⟩

end LeavesAlone

instance : IsUpkeep (LeavesAlone i) where
  refl _ := .rfl
  trans _ _ _ := .trans
  quiet _ _ _ hc hi _ _ := .of_same hc hi
  moves _ _ _ _ := .of_same rfl rfl
  free w j := .modifyInstance w j fun _ => ⟨⟨.refl _, .refl _, .refl _, .refl _⟩, .refl _⟩
  retire w j := .modifyInstance w j fun _ => ⟨⟨.refl _, .refl _, .refl _, .refl _⟩, .refl _⟩
  retireColl _ _ := .of_same rfl rfl
  retireSpace _ _ := .of_same rfl rfl
  clear _ _ := .of_same rfl rfl

end World

/-- The script of a listener leaves alone what the instance that it listens to holds, however it ends. -/
def Listener.LeavesAlone (cb : Callbacks) (i : InstanceId) (l : Listener) : Prop :=
  ∀ new, Run.Keeps (World.LeavesAlone i) (cb.script { self := i, payload := new } l.script)

namespace Host

/-- Whether a command only reads. -/
def Command.reads : Command → Bool
  | .instanceOp _ op => op.reads
  | .collectionOp _ op => op.reads
  | _ => false

mutual

/-- Whether an action changes nothing but the log. -/
def Action.reads : Action → Bool
  | .log _ | .give _ | .fail _ | .prevent => true
  | .branch _ _ yes no => readScript yes && readScript no
  | .callSuper | .emit _ _ => false
  | .command c => c.reads

/-- Whether a script changes nothing but the log. -/
def readScript : List Action → Bool
  | [] => true
  | a :: rest => a.reads && readScript rest

end

end Host

namespace Run

open Host

section Reading

variable {R : World → World → Prop} [IsUpkeep R] {cb : Callbacks} {frame : Frame}

theorem keeps_perform_reads {f : Option Frame} {cmd : Command} (h : cmd.reads = true) :
    Keeps R (perform cb f cmd) := by
  cases cmd with
  | instanceOp name op => exact (keeps_target f name).bind fun i => keeps_onInstance_reads i h
  | collectionOp source op => exact (keeps_collectionAt f source).bind fun k => keeps_onCollection_reads k h
  | _ => cases h

mutual

theorem keeps_runAction_reads : ∀ a : Action, a.reads = true → Keeps R (runAction cb frame a)
  | .log text, _ => by
    unfold runAction
    exact (keeps_note _).bind fun _ => keeps_pure _
  | .give value, _ => by
    unfold runAction
    exact (keeps_evaluate _ value).bind fun _ => keeps_pure _
  | .fail e, _ => by
    unfold runAction
    exact keeps_fail e
  | .prevent, _ => by
    unfold runAction
    exact keeps_pure _
  | .branch left right yes no, h => by
    unfold Action.reads at h
    obtain ⟨hyes, hno⟩ := Bool.and_eq_true_iff.1 h
    unfold runAction
    refine (keeps_evaluate _ left).bind fun a => (keeps_evaluate _ right).bind fun b => ?_
    split
    · exact keeps_runScript_reads yes hyes
    · exact keeps_runScript_reads no hno
  | .command cmd, h => by
    unfold Action.reads at h
    unfold runAction
    exact (keeps_perform_reads h).bind fun _ => keeps_pure _
  | .callSuper, h => by
    unfold Action.reads at h
    cases h
  | .emit _ _, h => by
    unfold Action.reads at h
    cases h

/-- A script that only reads keeps whatever letting go keeps. -/
theorem keeps_runScript_reads : ∀ script : List Action, readScript script = true →
    Keeps R (runScript cb frame script)
  | [], _ => by
    unfold runScript
    exact keeps_pure _
  | a :: rest, h => by
    unfold readScript at h
    obtain ⟨ha, hrest⟩ := Bool.and_eq_true_iff.1 h
    unfold runScript
    refine (keeps_runAction_reads a ha).scope.bind fun o => ?_
    split
    · exact keeps_pure _
    · exact (keeps_runScript_reads rest hrest).bind fun _ => keeps_pure _

end

end Reading

end Run

/-- A listener that only reads leaves every instance alone, however deeply calls may be nested. -/
theorem Listener.leavesAlone_of_reads {l : Listener} (h : Host.readScript l.script = true) (depth : Nat)
    (i : InstanceId) : l.LeavesAlone (Callbacks.ofDepth depth) i := by
  intro new
  cases depth with
  | zero => exact Run.keeps_throw _
  | succ depth => exact Run.keeps_runScript_reads l.script h

end ReactiveView
