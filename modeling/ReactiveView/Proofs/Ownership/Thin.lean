import ReactiveView.Proofs.Ownership.Settle

/-!
# Letting go only takes away

When something goes out of use, instances lose their places and nodes their parents, and nobody gets a new
one: the world gets thinner (`World.Thins`). An instance that loses its place has its root taken out of the
tree. This holds of any world, orderly or not (`World.thins_settle`).
-/

set_option autoImplicit false

namespace ReactiveView

/-- Sweeping gives no node another parent. -/
theorem Forest.up_of_sweep {f : Forest} {held : NodeId → Bool} {fuel : Nat} {n p : NodeId}
    (h : (f.sweep held fuel).Up n p) : f.Up n p := by
  induction fuel generalizing f with
  | zero => exact h
  | succ fuel ih =>
    unfold sweep at h
    split at h
    · exact h
    · have hrelease : (f.release _).parent? n = some p := ih h
      rw [parent?_release] at hrelease
      exact (Option.filter_eq_some_iff.1 hrelease).1

namespace World

variable {w w' : World} {i : InstanceId}

/-- Nobody stands in a place, and no node below another, that did not before; whoever has lost a place has
a root without a parent. -/
structure Thins (w w' : World) : Prop where
  place : ∀ i pl, w'.placeOf? i = some pl → w.placeOf? i = some pl
  up : ∀ n p, w'.forest.Up n p → w.forest.Up n p
  root : ∀ i, w'.rootOf? i = w.rootOf? i
  parted : ∀ i r, w'.placeOf? i ≠ w.placeOf? i → w.rootOf? i = some r → w'.forest.parent? r = none

theorem Thins.rfl : w.Thins w := ⟨fun _ _ h => h, fun _ _ h => h, fun _ => .refl _, fun _ _ h => absurd (.refl _) h⟩

theorem Thins.trans {w'' : World} (h : w.Thins w') (h' : w'.Thins w'') : w.Thins w'' where
  place i pl hi := h.place i pl (h'.place i pl hi)
  up n p hn := h.up n p (h'.up n p hn)
  root i := (h'.root i).trans (h.root i)
  parted i r hne hr := by
    by_cases hlast : w''.placeOf? i = w'.placeOf? i
    · -- the place has gone first, and the root gets no parent after that
      have hfree := h.parted i r (fun hfirst => hne (hlast.trans hfirst)) hr
      refine Option.eq_none_iff_forall_ne_some.2 fun p hp => ?_
      have hup : w'.forest.parent? r = some p := h'.up r p hp
      rw [hfree] at hup
      cases hup
    · exact h'.parted i r hlast ((h.root i).trans hr)

theorem Thins.above {m n : NodeId} (h : w.Thins w') (hm : Relation.ReflTransGen w'.forest.Up m n) :
    Relation.ReflTransGen w.forest.Up m n :=
  Relation.ReflTransGen.mono h.up _ _ hm

theorem Calm.thins (h : w.Calm w') : w.Thins w' where
  place i _ hi := (h.place i).symm.trans hi
  up n _ hn := (h.links.parent? n).symm.trans hn
  root := h.shape.rootOf?
  parted i _ hne _ := absurd (h.place i) hne

theorem thins_buried (w : World) (i : InstanceId) : w.Thins (w.buried i) where
  place j _ hj := (placeOf?_buried w i j).symm.trans hj
  up _ _ h := h
  root := (sameShape_buried w i).rootOf?
  parted j _ hne _ := absurd (placeOf?_buried w i j) hne

theorem thins_foldl {α : Type} {f : World → α → World} (hf : ∀ w a, Thins w (f w a)) (as : List α)
    (w : World) : w.Thins (as.foldl f w) := by
  induction as generalizing w with
  | nil => exact .rfl
  | cons a as ih => exact (hf w a).trans (ih _)

/-- One instance at most loses its place. -/
theorem placeOf?_of_setAttachment {pl : Place} {j : InstanceId}
    (hj : (w.setAttachment i none).placeOf? j = some pl) : w.placeOf? j = some pl := by
  by_cases hij : j = i
  · rw [placeOf?_setAttachment_none, hij, Function.update_self] at hj
    cases hj
  · rwa [placeOf?_setAttachment_of_ne w none hij] at hj

theorem thins_setAttachment (hr : w.rootOf? i = none) : w.Thins (w.setAttachment i none) where
  place _ _ := placeOf?_of_setAttachment
  up _ _ h := h
  root := (sameShape_setAttachment w i none).rootOf?
  parted j r hne hjr := by
    by_cases hij : j = i
    · rw [hij, hr] at hjr
      cases hjr
    · exact absurd (placeOf?_setAttachment_of_ne w none hij) hne

theorem thins_taken {r : NodeId} (hr : w.rootOf? i = some r) : w.Thins (w.taken i r) where
  place _ _ := placeOf?_of_setAttachment
  up _ _ h := (Forest.up_of_unlink h).2
  root := (sameShape_taken w i r).rootOf?
  parted j r' hne hjr := by
    by_cases hij : j = i
    · rw [hij, hr] at hjr
      obtain rfl := Option.some.inj hjr
      exact Forest.parent?_unlink_self _ _
    · exact absurd (placeOf?_setAttachment_of_ne w none hij) hne

theorem thins_freeIf (w : World) (test : Place → Bool) (i : InstanceId) : w.Thins (w.freeIf test i) := by
  rcases freeIf_cases w test i with ⟨heq, -⟩ | ⟨_, -, -, ⟨hr, heq⟩ | ⟨r, hr, heq⟩⟩
  · rw [heq]
    exact .rfl
  · rw [heq]
    exact thins_setAttachment hr
  · rw [heq]
    exact thins_taken hr

theorem thins_freeItems (w : World) (c : CollectionId) : w.Thins (w.freeItems c) := by
  have hfree := thins_foldl (fun w i => thins_freeIf w (fun p => p == .sequence c) i) (w.itemsOf c)
    (w.modifyCollection c fun x => { x with items := [] })
  exact ⟨hfree.place, hfree.up, hfree.root, hfree.parted⟩

theorem thins_freeChild (P : InstanceId) (w : World) (v : Value) : w.Thins (freeChild P w v) := by
  cases v with
  | inst child => exact thins_freeIf w _ child
  | coll c => exact thins_freeItems w c
  | _ => exact .rfl

theorem thins_dropInstance (w : World) (P : InstanceId) : w.Thins (w.dropInstance P) := by
  unfold dropInstance
  split
  · exact (thins_buried w P).trans (thins_foldl (thins_freeChild P) _ _)
  · exact .rfl

theorem thins_dropCollection (w : World) (c : CollectionId) : w.Thins (w.dropCollection c) := by
  have hfree := thins_freeItems (w.closed c) c
  exact ⟨hfree.place, hfree.up, hfree.root, hfree.parted⟩

theorem thins_dropIdle (fuel : Nat) (w : World) : w.Thins (w.dropIdle fuel) := by
  induction fuel generalizing w with
  | zero => exact .rfl
  | succ fuel ih =>
    unfold dropIdle
    split
    · exact .rfl
    · have his := thins_foldl thins_dropInstance w.idleInstances w
      exact his.trans ((thins_foldl thins_dropCollection _ _).trans (ih _))

/-- Letting go makes a world thinner. -/
theorem thins_settle (w : World) : w.Thins w.settle := by
  have hspaces := thins_foldl (f := fun w n => w.modifySpace n fun ns => { ns with alive := false })
    (fun w n => (calm_modifySpace w n (by exact fun _ => rfl)).thins) w.idleSpaces w
  unfold settle
  dsimp only
  generalize w.idleSpaces.foldl
      (fun w n => w.modifySpace n fun ns => { ns with alive := false }) w = w₁ at hspaces
  have hidle := thins_dropIdle (w₁.instances.size + w₁.collections.size + 1) w₁
  generalize w₁.dropIdle (w₁.instances.size + w₁.collections.size + 1) = w₂ at hidle
  exact (hspaces.trans hidle).trans
    ⟨fun _ _ h => h, fun n p h => Forest.up_of_sweep h, fun _ => rfl, fun _ _ h => absurd rfl h⟩

end World

end ReactiveView
