import ReactiveView.Proofs.Closed.Commands

/-!
# The worlds of sessions

A session starts with an empty world, and each of its commands ends by letting go. So between commands the world
is regular, and nothing is in use that nothing holds (`Session.Reached.resting`).
-/

set_option autoImplicit false

namespace ReactiveView

namespace World

variable {w w' : World}

/-! ## What settling leaves idle -/

/-- What is kept hold of stays, and no namespace comes into use. -/
structure Fades (w w' : World) : Prop where
  pins : w'.pins = w.pins
  registry : w'.registry = w.registry
  space : ∀ n, (w'.space? n).any (·.alive) = true → (w.space? n).any (·.alive) = true

theorem fades_of_same (hp : w'.pins = w.pins) (hr : w'.registry = w.registry) (hn : w'.spaces = w.spaces) :
    w.Fades w' := by
  refine ⟨hp, hr, fun n h => ?_⟩
  unfold space? at h ⊢
  rw [← hn]
  exact h

instance : IsPreorder World Fades where
  refl _ := fades_of_same rfl rfl rfl
  trans _ _ _ h h' := ⟨h'.pins.trans h.pins, h'.registry.trans h.registry, fun n hn => h.space n (h'.space n hn)⟩

/-- A namespace that is retired is out of use. -/
theorem any_space?_retire (w : World) (n m : NamespaceId) :
    ((w.modifySpace n fun ns => { ns with alive := false }).space? m).any (·.alive) =
      (decide (n ≠ m) && (w.space? m).any (·.alive)) := by
  by_cases h : n = m
  · subst h
    rw [space?_modifySpace_self, decide_eq_false (not_not_intro rfl), Bool.false_and]
    cases w.space? n <;> rfl
  · rw [space?_modifySpace_of_ne w _ h, decide_eq_true h, Bool.true_and]

instance : IsLettingGo Fades where
  unlink _ _ := fades_of_same rfl rfl rfl
  sweep _ _ := fades_of_same rfl rfl rfl
  free _ _ := fades_of_same rfl rfl rfl
  retire _ _ := fades_of_same rfl rfl rfl
  retireColl _ _ := fades_of_same rfl rfl rfl
  retireSpace w n := by
    refine ⟨rfl, rfl, fun m h => ?_⟩
    rw [any_space?_retire, Bool.and_eq_true] at h
    exact h.2
  clear _ _ := fades_of_same rfl rfl rfl

theorem any_space?_foldl_retire {ns : List NamespaceId} {n : NamespaceId} (hn : n ∈ ns) (w : World) :
    ((ns.foldl (fun w n => w.modifySpace n fun ns => { ns with alive := false }) w).space? n).any (·.alive) = false := by
  induction ns generalizing w with
  | nil => cases hn
  | cons m ns ih =>
    by_cases hmem : n ∈ ns
    · exact ih hmem _
    · obtain rfl := (List.mem_cons.1 hn).resolve_right hmem
      have hfades : Fades _ _ := upkeep_foldl IsLettingGo.retireSpace ns (w.modifySpace n fun ns => { ns with alive := false })
      rw [List.foldl_cons, Bool.eq_false_iff]
      intro h
      have hbefore := hfades.space n h
      rw [any_space?_retire, decide_eq_false (not_not_intro rfl)] at hbefore
      cases hbefore

theorem mem_idleSpaces {n : NamespaceId} : n ∈ w.idleSpaces ↔
    (w.space? n).any (·.alive) = true ∧ w.holdsSpace n = false := by
  unfold idleSpaces
  rw [List.mem_filter]
  cases hns : w.space? n with
  | none => simp
  | some ns =>
    have hlt : n ∈ (List.range w.spaces.size).map NamespaceId.mk := by
      refine List.mem_map.2 ⟨n.index, List.mem_range.2 ?_, rfl⟩
      exact (Array.getElem?_eq_some_iff.1 hns).1
    simp [hlt]

/-- Settling leaves no namespace in use that nothing holds. -/
theorem idleSpaces_settle (w : World) : w.settle.idleSpaces = [] := by
  rw [List.eq_nil_iff_forall_not_mem]
  intro n hn
  obtain ⟨halive, hidle⟩ := mem_idleSpaces.1 hn
  have hfades : w.Fades w.settle := upkeep_settle w
  have hmem : n ∈ w.idleSpaces := by
    refine mem_idleSpaces.2 ⟨hfades.space n halive, ?_⟩
    unfold holdsSpace at hidle ⊢
    rw [← hfades.pins, ← hfades.registry]
    exact hidle
  have hretired := any_space?_foldl_retire hmem w
  unfold settle at halive
  dsimp only at halive
  generalize w.idleSpaces.foldl (fun w n => w.modifySpace n fun ns => { ns with alive := false }) w = w₁
    at halive hretired
  have hdrop : w₁.Fades (w₁.dropIdle (w₁.instances.size + w₁.collections.size + 1)) := upkeep_dropIdle _ _
  rw [hdrop.space n halive] at hretired
  cases hretired

/-- A regular world in which nothing is in use that nothing holds. -/
structure Resting (w : World) : Prop extends Regular w where
  idleInstances : w.idleInstances = []
  idleCollections : w.idleCollections = []
  idleSpaces : w.idleSpaces = []

/-- Nothing is missing in an empty world. -/
theorem resting_empty : ({} : World).Resting where
  inst i x hx := by cases hx
  owner c x hx := by cases hx
  item c x hx := by cases hx
  handled i hi := by cases hi
  object n ns hns := by cases hns
  bounded n p hp := by cases hp
  compiled := .empty
  idleInstances := rfl
  idleCollections := rfl
  idleSpaces := rfl

end World

/-- A run in a scope leaves a world at rest, if its body leaves a regular one. -/
theorem Run.Stays.resting_inScope {α : Type} {m : Run α} {w : World} (hm : Run.Stays m w fun _ _ => True)
    (hw : w.Regular) : (Run.inScope m w).2.Resting := by
  have hregular := (hm.inScope hw).1
  unfold Run.inScope at hregular ⊢
  rw [Run.keeping_apply] at hregular ⊢
  exact ⟨hregular, (World.idle_settle _).1, (World.idle_settle _).2, World.idleSpaces_settle _⟩

namespace Session

/-- The sessions that commands lead to. -/
inductive Reached : Session → Prop where
  | start (watched : List String) : Reached { watched := watched }
  | step {s : Session} (hs : Reached s) (c : Host.Command) : Reached (s.step c).2

/-- Between commands everything that the world refers to is there, and what is in use is held. -/
theorem Reached.resting {s : Session} (hs : s.Reached) : s.world.Resting := by
  induction hs with
  | start watched => exact World.resting_empty
  | @step s hs c ih =>
    have hclear : s.world.Regrows { s.world with log := [] } :=
      World.regrows_of_same rfl rfl rfl rfl .rfl fun _ _ hj => Or.inl hj
    have hlog := (hclear ih.toRegular).1
    have hframe : ∀ f ∈ (none : Option Frame), World.KnowsFrame { s.world with log := [] } f := fun f hf => by cases hf
    exact (Run.stays_perform (Callbacks.careful_ofDepth _) hframe c).resting_inScope hlog

end Session

end ReactiveView
