import ReactiveView.Proofs.Projection.Aloof
import ReactiveView.Proofs.Projection.Describing
import ReactiveView.Proofs.Steps.Runs

/-!
# Instances that arise from data

A plain object that is written to a place makes an instance. What is known of it right after (`World.Arises`):
it was not there before, it is in use and stands nowhere, its root is a new node, and its projection is the
object that it was made from. Making it leaves all older instances as they are (`World.Spawns`), so several
instances can be made one after the other (`Run.coerceAll_of_describes`).
-/

set_option autoImplicit false

namespace ReactiveView

open Relation (ReflTransGen)

/-- What is used of the callbacks: they keep worlds orderly and sound, leave them at rest, and write to
instances of their own only. -/
structure Callbacks.Gentle (cb : Callbacks) : Prop where
  mild : cb.Mild
  discreet : ∀ i, cb.Discreet PlainClasses i
  steady : cb.Steady
  atRest : ∀ id (init : Option Value) (w : World), w.AtRest → (∀ v ∈ init, v.instances ⊆ w.handles) →
    (cb.construct id init w).2.AtRest

theorem Callbacks.gentle_ofDepth (depth : Nat) : (Callbacks.ofDepth depth).Gentle where
  mild := mild_ofDepth depth
  discreet := discreet_ofDepth depth
  steady := steady_ofDepth depth
  atRest := by
    cases depth with
    | zero => exact fun id init w hw _ => hw
    | succ depth => exact fun id init w hw hinit => Run.atRest_constructInstance (mild_ofDepth depth) hw hinit

namespace Value

theorem ofJsonItems_eq (js : List Json) : ofJsonItems js = js.map ofJson := by
  induction js with
  | nil => rfl
  | cons j js ih =>
    unfold ofJsonItems
    rw [ih, List.map_cons]

theorem ofJsonMembers_eq (members : List (String × Json)) :
    ofJsonMembers members = members.map fun e => (e.1, ofJson e.2) := by
  induction members with
  | nil => rfl
  | cons e members ih =>
    unfold ofJsonMembers
    rw [ih, List.map_cons]

end Value

namespace World

variable {w w' w'' : World} {hit : Place → Prop} {i T : InstanceId} {j : Json} {level : Nat}

/-- A world that operations have left behind. -/
structure Quiet (w : World) : Prop extends AtRest w where
  sound : w.Sound

/-! ## What is there stays as it is -/

/-- New instances are made, and all else stays as it is. -/
structure Spawns (w w' : World) : Prop extends Aloof w w' where
  orderly : w'.Orderly
  intact : w.Intact (fun _ => False) w'
  respects : w.Respects (fun _ => False) w'
  alive : ∀ P, w.isAlive P = true → w'.isAlive P = true

namespace Spawns

theorem rfl (hw : w.Orderly) : w.Spawns w := ⟨.rfl, hw, .rfl, .refl w.anchored_empty, fun _ h => h⟩

theorem trans (h : w.Spawns w') (h' : w'.Spawns w'') : w.Spawns w'' where
  toAloof := h.toAloof.trans h'.toAloof
  orderly := h'.orderly
  intact := h.intact.trans h'.intact fun P hP _ => h.alive P hP
  respects := h.respects.trans h'.respects
  alive P hP := h'.alive P (h.alive P hP)

end Spawns

/-! ## What an instance shows -/

/-- An instance with younger ones below it is projected to certain data, from some depth on. -/
structure Shows (w : World) (level : Nat) (i : InstanceId) (j : Json) : Prop where
  descends : w.Descends i
  data : ∀ fuel, level ≤ fuel → w.instanceData fuel i = j

/-- Writes to older instances do not change what an instance shows. -/
theorem Shows.intact (h : w.Shows level i j) (hintact : w.Intact hit w') (hw : w.Orderly) (hw' : w'.Orderly)
    (hhit : ∀ pl, hit pl → ∃ P, w.ownerOf? pl = some P ∧ P.index < i.index) (hi : w.isAlive i = true)
    (hi' : w'.isAlive i = true) : w'.Shows level i j := by
  obtain ⟨hdescends, hdata⟩ := hintact.instanceData hw hw' h.descends hhit hi hi'
  exact ⟨hdescends, fun fuel hfuel => (hdata fuel).trans (h.data fuel hfuel)⟩

/-- An instance that has just been made from data. -/
structure Arises (w w' : World) (level : Nat) (i : InstanceId) (j : Json) : Prop where
  new : w.inst? i = none
  alive : w'.isAlive i = true
  free : w'.placeOf? i = none
  root : ∀ r, w'.rootOf? i = some r → w.forest.size ≤ r.index
  shows : w'.Shows level i j

/-- An instance that was not there is younger than those that were. -/
theorem lt_of_inst?_none (hi : w.inst? i = none) (hT : w.isAlive T = true) : T.index < i.index := by
  have hle : w.instances.size ≤ i.index := by
    have hnone : w.instances.entries[i.index]? = none := hi
    exact Array.getElem?_eq_none_iff.1 hnone
  exact Nat.lt_of_lt_of_le (lt_size_of_isAlive hT) hle

theorem Extends.inst?_none (h : w.Extends w') (hi : w'.inst? i = none) : w.inst? i = none := by
  cases hx : w.inst? i with
  | none => exact .refl _
  | some x =>
    obtain ⟨y, hy, -⟩ := h.inst i x hx
    rw [hi] at hy
    cases hy

/-- An instance that has been made, and whatever is then done with it. -/
theorem Aloof.arises {w₁ : World} (h : w₁.Aloof w')
    (hw₁ : w₁.Orderly) (hi : w₁.isAlive i = true) (hnew : w.inst? i = none) (hfree : w₁.placeOf? i = none)
    (hroot : ∀ r, w₁.rootOf? i = some r → w.forest.size ≤ r.index) (hi' : w'.isAlive i = true)
    (hshows : w'.Shows level i j) : w.Arises w' level i j where
  new := hnew
  alive := hi'
  free := by
    obtain ⟨x, hx⟩ := exists_inst?_of_isAlive hi
    exact h.free i x hx hfree
  root r hr := by
    obtain ⟨r', hr'⟩ := Layout.Linked.rooted hw₁.linked i hi
    obtain rfl := Option.some.inj (hr.symm.trans (h.toExtends.root hr'))
    exact hroot r hr'
  shows := hshows

namespace Arises

/-- An instance that has arisen before others. -/
theorem spawns (h : w.Arises w' level i j) (hw' : w'.Orderly) (hs : w'.Spawns w'') : w.Arises w'' level i j := by
  have halive := hs.alive i h.alive
  refine hs.toAloof.arises hw' h.alive h.new h.free h.root halive ?_
  exact h.shows.intact hs.intact hw' hs.orderly (fun _ hin => hin.elim) h.alive halive

/-- An instance that has arisen behind others. -/
theorem behind (hs : w.Spawns w') (h : w'.Arises w'' level i j) : w.Arises w'' level i j where
  new := hs.toExtends.inst?_none h.new
  alive := h.alive
  free := h.free
  root r hr := hs.adopts.size_le.trans (h.root r hr)
  shows := h.shows

end Arises

theorem exists_arises {is : List InstanceId} {js : List Json} (hall : List.Forall₂ (w.Arises w' level) is js)
    (hi : i ∈ is) : ∃ j, w.Arises w' level i j := by
  obtain ⟨n, hn⟩ := List.mem_iff_getElem?.1 hi
  obtain ⟨j, -, harises⟩ := getElem?_of_forall₂ hall hn
  exact ⟨j, harises⟩

end World

/-- Constructing an instance from data that describes it succeeds, and gives an instance that shows the data. -/
def Callbacks.Realizes (cb : Callbacks) (T : Table Class) (level : Nat) : Prop :=
  ∀ (w : World) (id : ClassId) (j : Json), w.Quiet → w.classes = T → Describes T level id j →
    ∃ i w', cb.construct id (some (.ofJson j)) w = (.ok i, w') ∧ w.Aloof w' ∧ w.Arises w' level i j

namespace Callbacks

variable {cb : Callbacks} {T : Table Class} {level : Nat} {w : World} {j : Json} {ref : ClassRef}

/-- Nothing that was there changes when an instance is constructed from data. -/
theorem Gentle.construct (hcb : cb.Gentle) (hw : w.Quiet) {id : ClassId} {i : InstanceId} {w' : World}
    (hrun : cb.construct id (some (.ofJson j)) w = (.ok i, w')) (haloof : w.Aloof w') :
    w'.Quiet ∧ w.Spawns w' ∧ ∃ x, w'.inst? i = some x ∧ x.classId = id := by
  have hinit : ∀ v ∈ some (Value.ofJson j), v.instances ⊆ w.handles := by
    intro v hv
    obtain rfl := Option.some.inj hv
    rw [Value.instances_ofJson]
    exact List.nil_subset _
  have hyields := hcb.mild id _ w hw.orderly hinit
  obtain ⟨hintact, halive⟩ : w.Intact (fun _ => False) (cb.construct id (some (.ofJson j)) w).2 ∧ _ :=
    hw.toAtRest.intact_construct hcb.mild hcb.discreet hinit
  have hrest := hcb.atRest id _ w hw.toAtRest hinit
  have hsteps := hcb.steady.construct id (some (.ofJson j)) w hw.sound
  have horderly := hyields.orderly
  have hrespects := hyields.respects _ w.anchored_empty
  have hmade := hyields.result i (by rw [hrun])
  rw [hrun] at hintact halive horderly hrespects hrest hsteps hmade
  exact ⟨⟨hrest, hsteps.sound hw.sound⟩, ⟨haloof, horderly, hintact, hrespects, halive⟩, hmade.2.2⟩

end Callbacks

namespace Run

variable {cb : Callbacks} {T : Table Class} {level : Nat} {w : World} {ref : ClassRef} {j : Json} {js : List Json}

/-- What data that describes an instance of the class stands for. -/
theorem coerce_of_describes (hcb : cb.Gentle) (hreal : cb.Realizes T level) (hw : w.Quiet) (hT : w.classes = T)
    (hj : Describes T level ref.id j) : ∃ i w', coerce cb (.ofClass ref) (.ofJson j) w = (.ok i, w') ∧
      w'.Quiet ∧ w.Spawns w' ∧ w.Arises w' level i j ∧ w'.accepts (.ofClass ref) i = true := by
  obtain ⟨i, w', hrun, haloof, harises⟩ := hreal w ref.id j hw hT hj
  obtain ⟨hquiet, hspawns, x, hx, hid⟩ := hcb.construct hw hrun haloof
  refine ⟨i, w', ?_, hquiet, hspawns, harises, ?_⟩
  · cases level with
    | zero => cases hj
    | succ level =>
      obtain ⟨c, ds, -, -, rfl⟩ := hj
      exact hrun
  · unfold World.accepts
    dsimp only
    rw [hx]
    dsimp only
    rw [hid, World.isA_self]

/-- Several objects make different instances, and each shows what it was made from. -/
theorem coerceAll_of_describes (hcb : cb.Gentle) (hreal : cb.Realizes T level) (hw : w.Quiet)
    (hT : w.classes = T) (hjs : ∀ j ∈ js, Describes T level ref.id j) :
    ∃ is w', coerceAll cb (.ofClass ref) (js.map .ofJson) w = (.ok is, w') ∧ w'.Quiet ∧ w.Spawns w' ∧
      is.Nodup ∧ List.Forall₂ (w.Arises w' level) is js ∧ ∀ i ∈ is, w'.accepts (.ofClass ref) i = true := by
  induction js generalizing w with
  | nil => exact ⟨[], w, rfl, hw, .rfl hw.orderly, List.nodup_nil, .nil, fun _ hi => nomatch hi⟩
  | cons j js ih =>
    obtain ⟨i, w₁, hrun, hquiet₁, hspawns₁, harises, haccepts⟩ :=
      coerce_of_describes hcb hreal hw hT (hjs j List.mem_cons_self)
    obtain ⟨is, w₂, hruns, hquiet₂, hspawns₂, hnodup, hall, hacceptsAll⟩ :=
      ih hquiet₁ (hspawns₁.classes.trans hT) fun j' hj' => hjs j' (List.mem_cons_of_mem j hj')
    refine ⟨i :: is, w₂, ?_, hquiet₂, hspawns₁.trans hspawns₂, ?_, ?_, ?_⟩
    · rw [List.map_cons]
      unfold coerceAll
      rw [bind_of_ok hrun, bind_of_ok hruns, pure_apply]
    · -- those that come later are not there yet
      refine List.nodup_cons.2 ⟨fun hmem => ?_, hnodup⟩
      obtain ⟨x, hx⟩ := World.exists_inst?_of_isAlive harises.alive
      obtain ⟨j', hlater⟩ := World.exists_arises hall hmem
      rw [hlater.new] at hx
      cases hx
    · exact .cons (harises.spawns hquiet₁.orderly hspawns₂) (hall.imp fun _ _ h => h.behind hspawns₁)
    · intro k hk
      rcases List.mem_cons.1 hk with rfl | hk
      · exact hspawns₂.toExtends.accepts haccepts
      · exact hacceptsAll k hk

end Run

end ReactiveView
