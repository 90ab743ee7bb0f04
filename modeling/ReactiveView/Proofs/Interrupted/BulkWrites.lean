import ReactiveView.Proofs.Interrupted.Listeners
import ReactiveView.Proofs.Interrupted.Refusals
import ReactiveView.Proofs.Projection.RoundTrip

/-!
# Bulk writes that break off

A bulk write checks all names before it writes the first entry; the values are checked one by one, while they are
written. So when it fails it has changed nothing or it has broken off at one entry (`Run.checked_eq_error`): the
entries before that one are written as if they had been given alone, the rest is not looked at, and nobody takes
anything back. The entry that is refused changes nothing itself: for an attribute this is read off the write
(`Run.setAttribute_eq_error`), for a property it holds in every world that a program leaves behind
(`World.AtRest.untouched_of_refused`).

`World.brokenOff_of_acts` puts this together: what a failed bulk write leaves behind is what the entries before the
refused one have written, down to the texts that the view shows.
-/

set_option autoImplicit false

namespace ReactiveView

open Relation (ReflTransGen)

namespace Run

/-! ## Entries that are checked before they are written -/

section Checked

variable {β : Type} {check write : β → Run Unit} {bs : List β} {w w' : World} {e : Halt}

/-- A loop of checks passes if and only if each of them does. -/
theorem forM_check_eq_ok_iff (hcheck : ∀ b, Keeps Eq (check b)) :
    bs.forM check w = (.ok (), w) ↔ ∀ b ∈ bs, check b w = (.ok (), w) := by
  induction bs with
  | nil => exact ⟨fun _ b hb => (nomatch hb), fun _ => rfl⟩
  | cons b bs ih =>
    rw [forM_cons, List.forall_mem_cons, ← ih]
    constructor
    · intro h
      obtain ⟨u, w₁, hb, hrest⟩ := bind_eq_ok_iff.1 h
      have hsame := hcheck b w
      rw [hb] at hsame
      cases hsame
      exact ⟨hb, hrest⟩
    · rintro ⟨hb, hrest⟩
      rw [bind_of_ok hb, hrest]

/-- A bulk write that fails has failed a check and changed nothing, or has broken off at one entry: those before
it have been written as if they had been given alone. -/
theorem checked_eq_error (hcheck : ∀ b, Keeps Eq (check b))
    (h : (bs.forM check >>= fun _ => bs.forM write) w = (.error e, w')) :
    (w' = w ∧ ∃ b ∈ bs, check b w = (.error e, w)) ∨ ∃ done b rest w₁, bs = done ++ b :: rest ∧
      (done.forM check >>= fun _ => done.forM write) w = (.ok (), w₁) ∧ write b w₁ = (.error e, w') := by
  have hsame := Keeps.forM hcheck bs w
  rcases hchecked : bs.forM check w with ⟨e₁ | u, w₁⟩ <;>
    obtain rfl : w₁ = w := by rw [hchecked] at hsame; exact hsame.symm
  · rw [bind_of_error hchecked] at h
    obtain ⟨he, rfl⟩ := Prod.mk.inj h
    obtain rfl := Except.error.inj he
    obtain ⟨done, b, rest, w₂, rfl, hdone, hb⟩ := forM_eq_error_iff.1 hchecked
    obtain rfl : w₂ = w₁ := by
      have hbefore := Keeps.forM hcheck done w₁
      rw [hdone] at hbefore
      exact hbefore.symm
    exact .inl ⟨rfl, b, List.mem_append_right _ List.mem_cons_self, hb⟩
  · rw [bind_of_ok hchecked] at h
    obtain ⟨done, b, rest, w₂, rfl, hdone, hb⟩ := forM_eq_error_iff.1 h
    have hprefix : done.forM check w₁ = (.ok (), w₁) := (forM_check_eq_ok_iff hcheck).2 fun a ha =>
      (forM_check_eq_ok_iff hcheck).1 hchecked a (List.mem_append_left _ ha)
    exact .inr ⟨done, b, rest, w₂, rfl, by rw [bind_of_ok hprefix, hdone], hb⟩

end Checked

variable {cb : Callbacks} {i : InstanceId} {x : Instance} {c : Class} {w w' : World} {e : Halt} {name : String}
  {v : Value}

/-- Assigning fails because a name is unknown, or at a property whose write fails. -/
theorem assign_eq_error (hx : w.inst? i = some x) (hc : w.class? x.classId = some c)
    (h : assign cb i v w = (.error e, w')) :
    (w' = w ∧ ∀ fields, v = .object fields → ∃ f ∈ fields, c.descriptor.propertyIndex? f.1 = none) ∨
      ∃ done k u rest w₁, v = .object (done ++ (k, u) :: rest) ∧ assign cb i (.object done) w = (.ok (), w₁) ∧
        setProperty cb i k u w₁ = (.error e, w') := by
  cases v with
  | object fields =>
    have hcheck (f : String × Value) : Keeps Eq (do let _ ← propertyIndex i f.1 : Run Unit) :=
      (keeps_propertyIndex i f.1).bind fun _ => keeps_pure _
    rcases checked_eq_error hcheck h with
      ⟨rfl, f, hf, hfailed⟩ | ⟨done, ⟨k, u⟩, rest, w₁, rfl, hdone, hrefused⟩
    · refine .inl ⟨rfl, fun _ heq => ?_⟩
      obtain rfl := Value.object.inj heq
      refine ⟨f, hf, ?_⟩
      cases hn : c.descriptor.propertyIndex? f.1 with
      | none => rfl
      | some n =>
        have hfound : propertyIndex i f.1 w' = (.ok n, w') := by
          unfold propertyIndex
          rw [bind_of_ok (theClassOf_of hx hc), hn]
          rfl
        rw [bind_of_ok hfound] at hfailed
        cases hfailed
    · exact .inr ⟨done, k, u, rest, w₁, rfl, hdone, hrefused⟩
  | _ =>
    obtain ⟨-, rfl⟩ := Prod.mk.inj h
    exact .inl ⟨rfl, nofun⟩

/-- What follows a look-up changes nothing if it fails, and so does the whole. -/
theorem unchanged_of_error {α β : Type} {m : Run α} {f : α → Run β} (hm : Keeps Eq m)
    (hf : ∀ a, f a w = (.error e, w') → w' = w) (h : (m >>= f) w = (.error e, w')) : w' = w := by
  have hsame := hm w
  rcases hfirst : m w with ⟨e₁ | a, w₁⟩ <;> obtain rfl : w₁ = w := by rw [hfirst] at hsame; exact hsame.symm
  · rw [bind_of_error hfirst] at h
    exact (Prod.mk.inj h).2.symm
  · rw [bind_of_ok hfirst] at h
    exact hf a h

/-- An attribute is checked before anything is written, so a write that fails changes nothing. -/
theorem setAttribute_eq_error (h : setAttribute i name v w = (.error e, w')) : w' = w := by
  refine unchanged_of_error (keeps_attributeIndex i name) (fun n h => ?_) h
  refine unchanged_of_error (keeps_theClassOf i) (fun c h => ?_) h
  refine unchanged_of_error (keeps_ofOption _) (fun a h => ?_) h
  refine unchanged_of_error (keeps_ofExcept _) (fun _ h => ?_) h
  refine unchanged_of_error (keeps_theView i) (fun view h => ?_) h
  cases h

/-- Writing attributes fails because a name is unknown, or at an attribute whose write fails. -/
theorem setAttributes_eq_error (hx : w.inst? i = some x) (hc : w.class? x.classId = some c)
    {values : Dict String Value} (h : setAttributes i values w = (.error e, w')) :
    (w' = w ∧ ∃ a ∈ values, c.descriptor.attributeIndex? a.1 = none) ∨ ∃ done k u rest,
      values = done ++ (k, u) :: rest ∧ setAttributes i done w = (.ok (), w') ∧
        setAttribute i k u w' = (.error e, w') := by
  have hcheck (a : String × Value) : Keeps Eq (do let _ ← attributeIndex i a.1 : Run Unit) :=
    (keeps_attributeIndex i a.1).bind fun _ => keeps_pure _
  rcases checked_eq_error hcheck h with
    ⟨rfl, a, ha, hfailed⟩ | ⟨done, ⟨k, u⟩, rest, w₁, rfl, hdone, hrefused⟩
  · refine .inl ⟨rfl, a, ha, ?_⟩
    cases hn : c.descriptor.attributeIndex? a.1 with
    | none => rfl
    | some n =>
      have hfound : attributeIndex i a.1 w' = (.ok n, w') := by
        unfold attributeIndex
        rw [bind_of_ok (theClassOf_of hx hc), hn]
        rfl
      rw [bind_of_ok hfound] at hfailed
      cases hfailed
  · obtain rfl := setAttribute_eq_error hrefused
    exact .inr ⟨done, k, u, rest, rfl, hdone, hrefused⟩

end Run

namespace World

variable {w w' w₀ : World} {i : InstanceId} {x : Instance} {c : Class} {depth : Nat}

/-! ## What a failed bulk write leaves -/

/-- Plain classes have been compiled, nothing has been made from them, nothing waits to be written, and nothing is
in use that nothing holds. -/
structure Pristine (w : World) : Prop extends Idle w, Resting w, Unused w

/-- An assignment has broken off at a property that refuses its value. The entries before it have been written, and
since then nothing has changed: records and places are untouched, and the view of the instance shows the same. -/
structure BrokenOff (depth : Nat) (i : InstanceId) (fields : List (String × Value)) (e : Halt) (w w₁ w' : World) :
    Prop where
  split : ∃ done name v rest, fields = done ++ (name, v) :: rest ∧
    Run.assign (Callbacks.ofDepth depth) i (.object done) w = (.ok (), w₁) ∧
    Run.setProperty (Callbacks.ofDepth depth) i name v w₁ = (.error e, w')
  untouched : w₁.Untouched w'
  shown : ∃ x c view g, w₁.ViewConsistent i x c view g ∧ w'.ViewConsistent i x c view g

/-- An instance in use stays in use while it is assigned to, and what is held is still held. -/
theorem AtRest.tended_assign (hw : w.AtRest) (hi : w.isAlive i = true) {v : Value} (hv : v.instances ⊆ w.handles)
    {r : Except Halt Unit} (hrun : Run.assign (Callbacks.ofDepth depth) i v w = (r, w')) :
    w'.isAlive i = true ∧ w.handles ⊆ w'.handles := by
  obtain ⟨d, hready⟩ := hw.ready hi
  have hready' := (@Run.closing_assign i d w.handles w _ (Callbacks.mild_ofDepth depth) v hv).tends.ready hready
  rw [hrun] at hready'
  exact ⟨hready'.safe.isAlive, hready'.handles⟩

/-- Wherever a program has come from a fresh start: an assignment that fails has changed nothing, because a name is
unknown or there are no names, or it has broken off at one property. Attributes that are written in bulk break off
at one of them, and the world is what the attributes before it have made of it. -/
theorem brokenOff_of_acts (h₀ : w₀.Pristine) (hacts : ReflTransGen Acts w₀ w) (hi : w.isAlive i = true)
    (hx : w.inst? i = some x) (hc : w.class? x.classId = some c) {e : Halt} :
    (∀ v, v.instances ⊆ w.handles → Run.assign (Callbacks.ofDepth depth) i v w = (.error e, w') →
      (w' = w ∧ ∀ fields, v = .object fields → ∃ f ∈ fields, c.descriptor.propertyIndex? f.1 = none) ∨
        ∃ fields w₁, v = .object fields ∧ BrokenOff depth i fields e w w₁ w') ∧
    ∀ values, Run.setAttributes i values w = (.error e, w') →
      (w' = w ∧ ∃ a ∈ values, c.descriptor.attributeIndex? a.1 = none) ∨ ∃ done name v rest,
        values = done ++ (name, v) :: rest ∧ Run.setAttributes i done w = (.ok (), w') ∧
          Run.setAttribute i name v w' = (.error e, w') := by
  refine ⟨fun v hv hfail => (Run.assign_eq_error hx hc hfail).imp_right ?_,
    fun values hfail => Run.setAttributes_eq_error hx hc hfail⟩
  rintro ⟨done, name, u, rest, w₁, rfl, hdone, hrefused⟩
  -- the entries before the one that is refused could have been assigned alone
  have hfields (entries : List (String × Value)) (hsub : entries ⊆ done ++ (name, u) :: rest) :
      (Value.object entries).instances ⊆ w.handles := by
    intro j hj
    obtain ⟨f, hf, hjf⟩ := Run.mem_instancesOfFields.1 hj
    exact hv (Run.mem_instancesOfFields.2 ⟨f, hsub hf, hjf⟩)
  have hprefix := hfields done (List.subset_append_left _ _)
  have hacts₁ : ReflTransGen Acts w₀ w₁ := by
    refine hacts.tail ?_
    have hact : Acts w _ := .does depth (.assign hi hprefix)
    change Acts w (Run.assign _ i _ w).2 at hact
    rw [hdone] at hact
    exact hact
  have hw := h₀.toIdle.atRest_of_acts hacts
  have hw₁ := h₀.toIdle.quiet_of_acts hacts₁
  obtain ⟨hi₁, hhandles⟩ := hw.tended_assign hi hprefix hdone
  have hu : u.instances ⊆ w₁.handles := fun j hj => hhandles <|
    hfields [(name, u)] (List.cons_subset.2 ⟨List.mem_append_right _ List.mem_cons_self, List.nil_subset _⟩)
      (Run.mem_instancesOfFields.2 ⟨_, List.mem_cons_self, hj⟩)
  have huntouched := hw₁.toAtRest.untouched_of_refused (h₀.toIdle.resting_of_acts h₀.toResting hacts₁) hi₁ hu hrefused
  refine ⟨_, w₁, rfl, ⟨done, name, u, rest, rfl, hdone, hrefused⟩, huntouched, ?_⟩
  obtain ⟨y, hy⟩ := exists_inst?_of_isAlive hi₁
  obtain ⟨g, home, hpresents⟩ := Steps.presents (h₀.toIdle.steps_of_acts hacts₁) h₀.toFresh.sound h₀.toUnused.presents
  have hsteps : w₁.Steps w' := by
    have hrun := Run.proceeds_setProperty (Callbacks.steadyBy_ofDepth (S := Step) depth) i name u w₁ hw₁.sound
    rw [hrefused] at hrun
    exact hrun
  obtain ⟨d, view, hbefore, hbehind⟩ := hsteps.viewConsistent_both hw₁.sound hpresents hy (huntouched.inst i y hy) rfl rfl
  exact ⟨y, d, view, g i, hbefore, hbehind⟩

/-! ## A small world -/

theorem resting_boardWorld : boardWorld.Resting := by
  apply idle_boardWorld.resting
  all_goals
    unfold boardWorld
    split <;> rfl

theorem pristine_boardWorld : boardWorld.Pristine :=
  { idle_boardWorld, resting_boardWorld, unused_boardWorld with }

/-- The slot of the board is to be filled, and its list with a text. -/
def misfit : List (String × Value) := [("first", tile "d"), ("items", .text "x")]

/-- What assigning this to the board leaves behind. -/
def misfitted : Except Halt Unit × World :=
  Run.assign (Callbacks.ofDepth 2) ⟨0⟩ (.object misfit) rearrangedBoard

/-- The list refuses the text. The slot has been empty and is filled. -/
theorem brokenOff_of_acts_board : ∃ e w₁, BrokenOff 2 ⟨0⟩ misfit e rearrangedBoard w₁ misfitted.2 ∧
    misfitted.1 = .error e ∧ (rearrangedBoard.stored? ⟨0⟩ "first").bind Value.inst? = none ∧
      (misfitted.2.stored? ⟨0⟩ "first").bind Value.inst? = some ⟨4⟩ := by
  have herror : misfitted.1.toOption = none := by decide +kernel
  obtain ⟨e, he⟩ : ∃ e, misfitted.1 = .error e := by
    cases hr : misfitted.1 with
    | error e => exact ⟨e, rfl⟩
    | ok u =>
      rw [hr] at herror
      cases herror
  have halive : rearrangedBoard.isAlive ⟨0⟩ = true := by decide +kernel
  obtain ⟨x, hx⟩ := exists_inst?_of_isAlive halive
  have hsome : ((rearrangedBoard.inst? ⟨0⟩).bind fun x => (rearrangedBoard.class? x.classId).map fun c =>
      misfit.all fun f => (c.descriptor.propertyIndex? f.1).isSome) = some true := by decide +kernel
  rw [hx, Option.bind_some] at hsome
  obtain ⟨c, hc, hknown⟩ := Option.map_eq_some_iff.1 hsome
  have hheld : (Value.object misfit).instances ⊆ rearrangedBoard.handles := by decide +kernel
  have hbroken := (brokenOff_of_acts pristine_boardWorld acts_rearrangedBoard halive hx hc).1 _ hheld (Prod.ext he rfl)
  rcases hbroken with ⟨-, hunknown⟩ | ⟨fields, w₁, heq, hbroken⟩
  · obtain ⟨f, hf, hnone⟩ := hunknown misfit rfl
    have hfound := List.all_eq_true.1 hknown f hf
    rw [hnone] at hfound
    cases hfound
  · obtain rfl := Value.object.inj heq
    exact ⟨e, w₁, hbroken, he, by decide +kernel, by decide +kernel⟩

end World

end ReactiveView
