import ReactiveView.Proofs.Ownership.Invariant
import ReactiveView.Proofs.Projection.Realizing

/-!
# The round trip of a projection

Whatever has been done since a fresh start, with plain classes, the projection of an instance that is faithful
with all below it can be assigned to any instance of its class: the assignment succeeds, and the instance is
then projected to the same data (`World.toData_assign_of_acts`). The instance need not be new, since every
property is written, and what stood in its slots and collections gives way.
-/

set_option autoImplicit false

namespace ReactiveView

open Relation (ReflTransGen)

namespace Run

open World

variable {cb : Callbacks} {T : InstanceId} {c : Class} {w : World} {js : List Json} {level : Nat}
  {tbl : Table Class}

theorem propertyIndex_of_classOf? (hcls : w.classOf? T = some c) {name : String} {n : Nat}
    (hn : c.descriptor.propertyIndex? name = some n) : propertyIndex T name w = (.ok n, w) := by
  obtain ⟨x, hx, hc⟩ := exists_of_classOf? hcls
  unfold propertyIndex
  rw [bind_of_ok (theClassOf_of hx hc), hn]
  rfl

theorem checkKnown_ok (hcls : w.classOf? T = some c) {fields : List (String × Value)}
    (h : ∀ e ∈ fields, (c.descriptor.propertyIndex? e.1).isSome = true) :
    checkKnown T fields w = (.ok (), w) := by
  induction fields with
  | nil => rfl
  | cons e fields ih =>
    obtain ⟨n, hn⟩ := Option.isSome_iff_exists.1 (h e List.mem_cons_self)
    have hrest := ih fun e' he' => h e' (List.mem_cons_of_mem e he')
    unfold checkKnown at hrest ⊢
    rw [forM_cons, bind_apply, bind_of_ok (propertyIndex_of_classOf? hcls hn)]
    exact hrest

/-- Assigning data that describes an instance of the class succeeds, and the instance then shows it. -/
theorem assign_of_depicts (hcb : cb.Gentle) (hreal : cb.Realizes tbl level)
    (hdepicts : c.Depicts (Describes tbl level) js) (hw : w.Quiet) (htbl : w.classes = tbl)
    (hT : w.isAlive T = true) (hcls : w.classOf? T = some c) :
    ∃ w', assign cb T (.ofJson (c.dataOf js)) w = (.ok (), w') ∧ w.Aloof w' ∧ w'.isAlive T = true ∧
      w'.Shows (level + 1) T (c.dataOf js) := by
  obtain ⟨x, hx, hc⟩ := exists_of_classOf? hcls
  have hvalid := hw.orderly.compiled.valid hc
  have hknown : checkKnown T (c.fieldsOf js) w = (.ok (), w) := by
    refine checkKnown_ok hcls fun e he => ?_
    obtain ⟨n, p, j, hp, -, rfl⟩ := Class.exists_of_mem_fieldsOf he
    rw [hvalid.descriptor.propertyIndex?_name hp]
    rfl
  have hstart : Filling tbl T c level js (fun _ => False) w := .start hw htbl hT hcls
  obtain ⟨w', hrun, hfilling, haloof⟩ :=
    hstart.forM (fun e : String × Value => setProperty cb T e.1 e.2) (·.1) (c.fieldsOf js)
      fun e he done w h => by
        obtain ⟨n, p, j, hp, hj, rfl⟩ := Class.exists_of_mem_fieldsOf he
        exact h.setProperty hcb hreal hdepicts hp hj
  have hall (p : PropertyDescriptor) (hp : p ∈ c.descriptor.properties) : p.name ∈ (c.fieldsOf js).map (·.1) := by
    obtain ⟨n, hn⟩ := List.mem_iff_getElem?.1 hp
    have hj := List.getElem?_eq_getElem (hdepicts.length.symm ▸ (List.getElem?_eq_some_iff.1 hn).1)
    have hget := hvalid.get?_fieldsOf hdepicts.length hn hj
    exact List.mem_map.2 ⟨_, Dict.mem_of_get? hget, rfl⟩
  obtain ⟨y, view, hy, -⟩ := hfilling.exists_record
  refine ⟨w', ?_, haloof, hfilling.alive, hfilling.shows hdepicts (fun p hp => .inr (hall p hp)) hy⟩
  rw [Class.ofJson_dataOf]
  unfold assign
  dsimp only
  rw [bind_of_ok hknown, hrun]

end Run

namespace World

variable {w₀ w w' : World}

/-! ## What a program leaves behind -/

theorem Idle.quiet_of_acts (h : w₀.Idle) (hacts : ReflTransGen Acts w₀ w) : w.Quiet :=
  ⟨h.atRest_of_acts hacts, Steps.sound (h.steps_of_acts hacts) h.toFresh.sound⟩

theorem Idle.stocked_of_acts (h : w₀.Idle) (hacts : ReflTransGen Acts w₀ w) : w.Stocked :=
  (h.steps_of_acts hacts).stocked fun i _ hx => nomatch (h.inst? i).symm.trans hx

theorem Extends.size_le (h : w.Extends w') : w.instances.size ≤ w'.instances.size := by
  cases hn : w.instances.size with
  | zero => exact Nat.zero_le _
  | succ n =>
    have hlt : n < w.instances.size := by omega
    have hsome : w.inst? ⟨n⟩ = some w.instances.entries[n] := Array.getElem?_eq_getElem hlt
    obtain ⟨y, hy, -⟩ := h.inst ⟨n⟩ _ hsome
    exact (Array.getElem?_eq_some_iff.1 hy).1

/-! ## The round trip -/

/-- The projection of an instance that is faithful with all below it can be assigned to any instance of its
class, which is then projected to the same data. -/
theorem toData_assign_of_acts (h : w₀.Idle) (hacts : ReflTransGen Acts w₀ w) {A B : InstanceId}
    {x y : Instance} (hA : w.isAlive A = true) (hB : w.isAlive B = true) (hx : w.inst? A = some x)
    (hy : w.inst? B = some y) (hclass : y.classId = x.classId)
    (hfaithful : ∀ k, ReflTransGen w.PartOf k A → w.Faithful k) {depth : Nat}
    (hdepth : w.instances.size ≤ depth + 1) :
    ∃ w', Run.assign (Callbacks.ofDepth depth) B (.ofJson (w.toData A)) w = (.ok (), w') ∧
      w'.isAlive B = true ∧ w'.toData B = w.toData A := by
  have hw := h.quiet_of_acts hacts
  have hdescribes := hw.orderly.describes hw.sound (h.stocked_of_acts hacts) hA hfaithful hx
  obtain ⟨level, hlevel⟩ := Nat.exists_eq_add_of_lt (lt_size_of_isAlive hA)
  rw [hlevel] at hdescribes hdepth
  obtain ⟨c, js, hc, hdepicts, hdata⟩ := hdescribes
  have hcls : w.classOf? B = some c := by
    unfold classOf?
    rw [hy, Option.bind_some, hclass]
    exact hc
  obtain ⟨w', hrun, haloof, halive, hshows⟩ := Run.assign_of_depicts (Callbacks.gentle_ofDepth depth)
    (Callbacks.realizes_ofDepth w.classes (Nat.le_of_succ_le_succ hdepth)) hdepicts hw rfl hB hcls
  refine ⟨w', by rw [hdata, hrun], halive, ?_⟩
  rw [hdata]
  refine hshows.data _ ?_
  rw [← hlevel]
  exact haloof.toExtends.size_le.trans (Nat.le_succ _)

/-! ## A small world -/

/-- A second board, with a tile in its slot and an empty list. -/
def twoBoards : World :=
  ((Operation.construct ⟨1⟩ (some (.object [("first", tile "d")]))).run (Callbacks.ofDepth 2) rearrangedBoard).2

theorem acts_twoBoards : ReflTransGen Acts boardWorld twoBoards :=
  acts_rearrangedBoard.tail (.does 2 (.construct fun v hv => by
    obtain rfl := Option.some.inj hv
    exact List.nil_subset _))

/-- All instances that there are pass the test. -/
theorem faithful_twoBoards {k : InstanceId} (hk : twoBoards.isAlive k = true) : twoBoards.Faithful k := by
  have hw := (idle_boardWorld.quiet_of_acts acts_twoBoards).orderly
  have hall : ∀ n < twoBoards.instances.size, twoBoards.checkFaithful ⟨n⟩ = true := by decide +kernel
  exact hw.toBuilt.faithful_of_check (hall k.index (lt_size_of_isAlive hk))

/-- The three tiles of the list are made anew in the second board, and the tile in its slot goes. -/
theorem toData_assign_of_acts_boards : ∃ w',
    Run.assign (Callbacks.ofDepth 5) ⟨4⟩ (.ofJson (twoBoards.toData ⟨0⟩)) twoBoards = (.ok (), w') ∧
      w'.isAlive ⟨4⟩ = true ∧ w'.toData ⟨4⟩ = twoBoards.toData ⟨0⟩ := by
  have hw := (idle_boardWorld.quiet_of_acts acts_twoBoards).orderly
  obtain ⟨hA, hB, hclass, hsize⟩ : twoBoards.isAlive ⟨0⟩ = true ∧ twoBoards.isAlive ⟨4⟩ = true ∧
      (twoBoards.inst? ⟨4⟩).map (·.classId) = (twoBoards.inst? ⟨0⟩).map (·.classId) ∧
        twoBoards.instances.size ≤ 5 + 1 := by decide +kernel
  obtain ⟨x, hx⟩ := exists_inst?_of_isAlive hA
  obtain ⟨y, hy⟩ := exists_inst?_of_isAlive hB
  rw [hx, hy] at hclass
  refine toData_assign_of_acts idle_boardWorld acts_twoBoards hA hB hx hy (Option.some.inj hclass) (fun k hk => ?_) hsize
  -- what stands in an instance in use is in use
  refine faithful_twoBoards ?_
  induction hk using ReflTransGen.head_induction_on with
  | refl => exact hA
  | head hk _ ih => exact hw.isAlive_of_partOf ih hk

end World

end ReactiveView
