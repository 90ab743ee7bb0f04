import ReactiveView.Proofs.Interrupted.BulkWrites

/-!
# Splices that are refused

A splice of a collection whose owner is in use is refused for one of four reasons (`Run.SpliceRefused`): in their
order a value cannot be coerced, or one instance is put in twice, or one is in use and not among those that the
splice takes out, or the collection stands below the root of one of them. The last three are asked when all values
have been coerced, so an instance that has been taken in by an object among the values counts as in use.

There is no other reason, and a splice that is refused changes nothing (`World.splice_refused_iff_of_acts`). The
first half is a reading of the checks (`Run.splice_eq_error_iff`), for no step behind them fails; the second is that
what the coerced objects have taken in is given back (`Run.untouched_splice`).
-/

set_option autoImplicit false

namespace ReactiveView

open Relation

variable {w w' w₀ : World} {cb : Callbacks} {element : ElementType} {k : CollectionId} {x : Collection}
  {values : List Value}

namespace Run

open World

/-! ## Values that cannot be coerced -/

/-- A value is an instance that the element accepts, or an object from which the class of the element is
constructed. -/
def Coercible (cb : Callbacks) (element : ElementType) (v : Value) (w : World) : Prop :=
  (∃ i, v = .inst i ∧ w.accepts element i = true) ∨
    ∃ fields ref i w', v = .object fields ∧ element = .ofClass ref ∧ cb.construct ref.id (some v) w = (.ok i, w')

theorem coerce_eq_ok_iff (v : Value) :
    (∃ i w', coerce cb element v w = (.ok i, w')) ↔ Coercible cb element v w := by
  constructor
  · rintro ⟨i, w', hrun⟩
    cases v with
    | inst j =>
      cases hacc : w.accepts element j with
      | false =>
        rw [coerce_inst_refused hacc] at hrun
        cases hrun
      | true => exact Or.inl ⟨j, rfl, hacc⟩
    | object fields =>
      cases element with
      | any => cases hrun
      | ofClass ref => exact Or.inr ⟨fields, ref, i, w', rfl, rfl, hrun⟩
    | _ => cases hrun
  · rintro (⟨i, rfl, hacc⟩ | ⟨fields, ref, i, w', rfl, rfl, hrun⟩)
    · exact ⟨i, w, coerce_inst hacc⟩
    · exact ⟨i, w', hrun⟩

/-- Coercing values fails at the first one that cannot be coerced when its turn comes. -/
theorem coerceAll_eq_error_iff :
    (∃ e w', coerceAll cb element values w = (.error e, w')) ↔ ∃ pre v post is w₁, values = pre ++ v :: post ∧
      coerceAll cb element pre w = (.ok is, w₁) ∧ ¬ Coercible cb element v w₁ := by
  induction values generalizing w with
  | nil =>
    refine ⟨?_, ?_⟩
    · rintro ⟨e, w', hrun⟩
      cases hrun
    · rintro ⟨pre, v, post, is, w₁, hsplit, -⟩
      cases pre <;> cases hsplit
  | cons v vs ih =>
    constructor
    · rintro ⟨e, w', hrun⟩
      rcases hfirst : coerce cb element v w with ⟨e₁ | i, w₁⟩
      · refine ⟨[], v, vs, [], w, rfl, rfl, fun hcoercible => ?_⟩
        obtain ⟨i, w₂, hok⟩ := (coerce_eq_ok_iff v).2 hcoercible
        rw [hfirst] at hok
        cases hok
      · -- the values behind the first one
        have hrest : ∃ e₂ w₂, coerceAll cb element vs w₁ = (.error e₂, w₂) := by
          unfold coerceAll at hrun
          rw [bind_of_ok hfirst] at hrun
          rcases hvs : coerceAll cb element vs w₁ with ⟨e₂ | is, w₂⟩
          · exact ⟨e₂, w₂, rfl⟩
          · rw [bind_of_ok hvs] at hrun
            cases hrun
        obtain ⟨pre, u, post, is, w₂, rfl, hpre, hnot⟩ := ih.1 hrest
        refine ⟨v :: pre, u, post, i :: is, w₂, rfl, ?_, hnot⟩
        unfold coerceAll
        rw [bind_of_ok hfirst, bind_of_ok hpre]
        rfl
    · rintro ⟨pre, u, post, is, w₁, hsplit, hpre, hnot⟩
      cases pre with
      | nil =>
        obtain ⟨rfl, rfl⟩ := List.cons.inj hsplit
        cases hpre
        rcases hfirst : coerce cb element v w with ⟨e₁ | i, w₁⟩
        · refine ⟨e₁, w₁, ?_⟩
          unfold coerceAll
          exact bind_of_error hfirst
        · exact absurd ((coerce_eq_ok_iff v).1 ⟨i, w₁, hfirst⟩) hnot
      | cons _ pre =>
        obtain ⟨rfl, rfl⟩ := List.cons.inj hsplit
        unfold coerceAll at hpre ⊢
        obtain ⟨i, w₂, hfirst, hpre⟩ := bind_eq_ok_iff.1 hpre
        obtain ⟨is', w₃, hrest, hpure⟩ := bind_eq_ok_iff.1 hpre
        cases hpure
        obtain ⟨e, w', herror⟩ := ih.2 ⟨pre, u, post, is', w₁, rfl, hrest, hnot⟩
        exact ⟨e, w', by rw [bind_of_ok hfirst, bind_of_error herror]⟩

/-! ## Reasons to refuse a splice -/

/-- Why a splice is refused. -/
inductive SpliceRefused (cb : Callbacks) (w : World) (k : CollectionId) (x : Collection) (start count : Nat)
    (values : List Value) : Prop where
  /-- A value is no instance that the element accepts and no object that its class can be constructed from, when
  those before it have been coerced. -/
  | uncoerced {pre post : List Value} {v : Value} {is : List InstanceId} {w₁ : World} : values = pre ++ v :: post →
      coerceAll cb x.element pre w = (.ok is, w₁) → ¬ Coercible cb x.element v w₁ →
      SpliceRefused cb w k x start count values
  | twice {is : List InstanceId} {w₁ : World} : coerceAll cb x.element values w = (.ok is, w₁) → ¬ is.Nodup →
      SpliceRefused cb w k x start count values
  | inUse {is : List InstanceId} {w₁ : World} {i : InstanceId} : coerceAll cb x.element values w = (.ok is, w₁) →
      i ∈ is → w₁.isAttached i = true → i ∉ ((w.itemsOf k).drop start).take count →
      SpliceRefused cb w k x start count values
  /-- The marker of the collection stands below the root of an instance. -/
  | inside {is : List InstanceId} {w₁ : World} {i : InstanceId} {r : NodeId} :
      coerceAll cb x.element values w = (.ok is, w₁) → i ∈ is → w₁.rootOf? i = some r →
      ReflTransGen w₁.forest.Up x.anchor r → SpliceRefused cb w k x start count values

theorem not_insertable_iff {m : NodeId} {removed is : List InstanceId} :
    ¬ Insertable w m removed [] is ↔ ¬ is.Nodup ∨ (∃ i ∈ is, w.isAttached i = true ∧ i ∉ removed) ∨
      ∃ i ∈ is, ∃ r, w.rootOf? i = some r ∧ ReflTransGen w.forest.Up m r := by
  constructor
  · intro hnot
    by_contra hno
    simp only [not_or, not_not, not_exists, not_and] at hno
    obtain ⟨hnd, hfree, hout⟩ := hno
    refine hnot ⟨hnd, fun i hi => ⟨List.not_mem_nil, ?_, fun r hr => hout i hi r hr⟩⟩
    by_cases hplace : w.placeOf? i = none
    · exact Or.inl hplace
    · exact Or.inr (hfree i hi (isAttached_iff.2 hplace))
  · rintro hwhy ⟨hnd, hall⟩
    rcases hwhy with hdup | ⟨i, hi, hatt, hkeeps⟩ | ⟨i, hi, r, hr, hup⟩
    · exact hdup hnd
    · exact (hall i hi).2.1.elim (isAttached_iff.1 hatt) hkeeps
    · exact (hall i hi).2.2 r hr hup

/-- Positions and counts beyond the end of a list make no difference to the stretch that they stand for. -/
theorem stretch_clamped {α : Type} (l : List α) (start count : Nat) :
    (l.drop (min start l.length)).take (min count (l.length - min start l.length)) = (l.drop start).take count := by
  have hdrop : l.drop (min start l.length) = l.drop start := by
    rcases Nat.le_total start l.length with h | h
    · rw [Nat.min_eq_left h]
    · rw [Nat.min_eq_right h, List.drop_length, List.drop_of_length_le h]
  rw [hdrop, ← List.length_drop, List.length_drop]
  rcases Nat.le_total start l.length with h | h
  · rw [Nat.min_eq_left h, ← List.length_drop, List.take_eq_take_iff]
    omega
  · rw [List.drop_of_length_le h, List.take_nil, List.take_nil]

/-- A splice is refused for one of these reasons, and whenever there is one. -/
theorem splice_eq_error_iff (hx : w.coll? k = some x) (hT : w.Safe x.owner)
    (hcoerces : Coerces cb x.element values w) (start count : Nat) :
    (∃ e w', splice cb k start count values w = (.error e, w')) ↔ SpliceRefused cb w k x start count values := by
  have hcases := spliceBody_cases hx hT hcoerces start count
  rw [stretch_clamped] at hcases
  constructor
  · rintro ⟨e, w', hrun⟩
    obtain ⟨w₂, hbody, -⟩ := keeping_eq_error hrun
    change spliceBody cb k start count values w = (.error e, w₂) at hbody
    rcases hcases with ⟨e₁, w₁, hcoerced, -⟩ | ⟨is, w₁, e₁, hcoerced, hnot, -, -⟩ | ⟨is, w₁, w₃, -, -, hok, -⟩
    · obtain ⟨pre, v, post, is, w₄, hsplit, hpre, hnot⟩ := coerceAll_eq_error_iff.1 ⟨e₁, w₁, hcoerced⟩
      exact .uncoerced hsplit hpre hnot
    · rcases not_insertable_iff.1 hnot with hdup | ⟨i, hi, hatt, hkeeps⟩ | ⟨i, hi, r, hr, hup⟩
      · exact .twice hcoerced hdup
      · exact .inUse hcoerced hi hatt hkeeps
      · exact .inside hcoerced hi hr hup
    · rw [hok] at hbody
      cases hbody
  · intro hrefused
    rcases hcases with ⟨e₁, w₁, -, hbody⟩ | ⟨is, w₁, e₁, -, -, -, hbody⟩ | ⟨is, w₁, w₃, hcoerced, hok, -, -⟩
    · exact ⟨_, _, splice_of_error hbody⟩
    · exact ⟨_, _, splice_of_error hbody⟩
    · -- the values can be coerced and put in
      exfalso
      cases hrefused with
      | uncoerced hsplit hpre hnot =>
        obtain ⟨e, w', herror⟩ := coerceAll_eq_error_iff.2 ⟨_, _, _, _, _, hsplit, hpre, hnot⟩
        rw [hcoerced] at herror
        cases herror
      | twice hcoerced' hdup =>
        obtain ⟨his, rfl⟩ := Prod.mk.inj (hcoerced.symm.trans hcoerced')
        obtain rfl := Except.ok.inj his
        exact not_insertable_iff.2 (Or.inl hdup) hok
      | inUse hcoerced' hi hatt hkeeps =>
        obtain ⟨his, rfl⟩ := Prod.mk.inj (hcoerced.symm.trans hcoerced')
        obtain rfl := Except.ok.inj his
        exact not_insertable_iff.2 (Or.inr (Or.inl ⟨_, hi, hatt, hkeeps⟩)) hok
      | inside hcoerced' hi hr hup =>
        obtain ⟨his, rfl⟩ := Prod.mk.inj (hcoerced.symm.trans hcoerced')
        obtain rfl := Except.ok.inj his
        exact not_insertable_iff.2 (Or.inr (Or.inr ⟨_, hi, _, hr, hup⟩)) hok

/-- A splice that is refused changes nothing. -/
theorem untouched_splice {T : InstanceId} (hlending : cb.Lending w w.Unaided) (hw : w.AtRest) (hrest : w.Resting)
    (hT : w.isAlive T = true) (hx : w.coll? k = some x) (howner : x.owner = T)
    (hcoerces : Coerces cb x.element values w) (hfit : ∀ v ∈ values, w.Fit w v) {start count : Nat} {e : Halt}
    (hrun : splice cb k start count values w = (.error e, w')) : w.Untouched w' := by
  have hu := underway_splice hlending hw hrest hT hx howner hcoerces hfit start count hrun
  obtain ⟨w₂, -, rfl⟩ := keeping_eq_error hrun
  exact hu.untouched hrest (pins_settle _) (idle_settle _).1

end Run

namespace World

/-- Wherever a program has come from a fresh start: a splice of a collection whose owner is in use fails exactly when
there is a reason to refuse it, and then nothing has changed. -/
theorem splice_refused_iff_of_acts (h : w₀.Idle) (hrest : w₀.Resting) (hacts : ReflTransGen Acts w₀ w)
    (hx : w.coll? k = some x) (hP : w.isAlive x.owner = true) (hv : Value.instancesOfItems values ⊆ w.handles)
    (depth start count : Nat) :
    ((∃ e w', Run.splice (Callbacks.ofDepth depth) k start count values w = (.error e, w')) ↔
      Run.SpliceRefused (Callbacks.ofDepth depth) w k x start count values) ∧
    ∀ e w', Run.splice (Callbacks.ofDepth depth) k start count values w = (.error e, w') → w.Untouched w' := by
  have hw := h.atRest_of_acts hacts
  have hrest' := h.resting_of_acts hrest hacts
  have hcoerces : Run.Coerces (Callbacks.ofDepth depth) x.element values w :=
    Run.coerces_of_handles (Callbacks.mild_ofDepth depth) hw.orderly hv
  have hfit (v : Value) (hvs : v ∈ values) : w.Fit w v := fun j hj =>
    Or.inl (knows_of_isAlive (hw.orderly.handled j (hv (Value.instances_subset_items hvs hj))))
  exact ⟨Run.splice_eq_error_iff hx (hw.settled.safe hP) hcoerces start count, fun e w' hrun =>
    Run.untouched_splice (Callbacks.lending_ofDepth hrest' depth).1 hw hrest' hP hx rfl hcoerces hfit hrun⟩

/-- A new tile and the last one of the board are refused in place of the first one, since the last one is in use.
In place of the last one itself they are taken. -/
theorem splice_refused_iff_of_acts_board : ∃ x e w', rearrangedBoard.coll? ⟨0⟩ = some x ∧
    rearrangedBoard.itemsOf ⟨0⟩ = [⟨2⟩, ⟨3⟩, ⟨1⟩] ∧
    Run.splice (Callbacks.ofDepth 2) ⟨0⟩ 0 1 [tile "d", .inst ⟨1⟩] rearrangedBoard = (.error e, w') ∧
    Run.SpliceRefused (Callbacks.ofDepth 2) rearrangedBoard ⟨0⟩ x 0 1 [tile "d", .inst ⟨1⟩] ∧
    rearrangedBoard.Untouched w' ∧
    ¬ Run.SpliceRefused (Callbacks.ofDepth 2) rearrangedBoard ⟨0⟩ x 2 1 [tile "d", .inst ⟨1⟩] := by
  have howner : ((rearrangedBoard.coll? ⟨0⟩).any fun x => rearrangedBoard.isAlive x.owner) = true := by
    decide +kernel
  obtain ⟨x, hx, hP⟩ := (Option.any_eq_true _ _).1 howner
  have hheld : Value.instancesOfItems [tile "d", .inst ⟨1⟩] ⊆ rearrangedBoard.handles := by decide +kernel
  have hspec (start count : Nat) := splice_refused_iff_of_acts idle_boardWorld resting_boardWorld acts_rearrangedBoard
    hx hP hheld 2 start count
  have hfails : (Run.splice (Callbacks.ofDepth 2) ⟨0⟩ 0 1 [tile "d", .inst ⟨1⟩] rearrangedBoard).1.toBool = false := by
    decide +kernel
  have htaken : (Run.splice (Callbacks.ofDepth 2) ⟨0⟩ 2 1 [tile "d", .inst ⟨1⟩] rearrangedBoard).1.toBool = true := by
    decide +kernel
  have hnot : ¬ Run.SpliceRefused (Callbacks.ofDepth 2) rearrangedBoard ⟨0⟩ x 2 1 [tile "d", .inst ⟨1⟩] := by
    intro hrefused
    obtain ⟨e, w', hrun⟩ := (hspec 2 1).1.2 hrefused
    rw [hrun] at htaken
    cases htaken
  rcases hrun : Run.splice (Callbacks.ofDepth 2) ⟨0⟩ 0 1 [tile "d", .inst ⟨1⟩] rearrangedBoard with ⟨e | removed, w'⟩
  · exact ⟨x, e, w', hx, by decide +kernel, rfl, (hspec 0 1).1.1 ⟨e, w', hrun⟩, (hspec 0 1).2 e w' hrun, hnot⟩
  · rw [hrun] at hfails
    cases hfails

end World

end ReactiveView
