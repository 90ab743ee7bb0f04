import ReactiveView.Proofs.Ownership.Release

/-!
# An instance goes out of use

An instance that goes out of use is marked first and then sets its children free. When it stands in no
place itself and no handle refers to it, the world stays orderly (`World.FreesChildren.orderly`), and
every anchored set of other instances is respected (`World.FreesChildren.respects`). What carries both is
that the occupants afterwards are those occupants who still stand where they stood
(`World.FreesChildren.occupants_eq`).
-/

set_option autoImplicit false

namespace ReactiveView

namespace World

variable {w w' : World} {P Q i : InstanceId} {pl : Place} {K : InstanceId → Prop}

/-! ## An instance goes out of use -/

/-- The world with an instance marked as out of use. -/
def buried (w : World) (P : InstanceId) : World := w.modifyInstance P fun x => { x with alive := false }

theorem isAlive_buried (w : World) (P i : InstanceId) :
    (w.buried P).isAlive i = (w.isAlive i && decide (i ≠ P)) := by
  unfold isAlive buried
  by_cases hi : P = i
  · subst hi
    rw [inst?_modifyInstance_self]
    cases w.inst? P with
    | none => rfl
    | some x => simp
  · rw [inst?_modifyInstance_of_ne w _ hi, decide_eq_true (Ne.symm hi), Bool.and_true]

theorem dropInstance_of_some {x : Instance} (hx : w.inst? P = some x) :
    w.dropInstance P = x.values.foldl (freeChild P) (w.buried P) := by
  unfold dropInstance
  rw [hx]
  rfl

/-- Places of other instances are not concerned when the children of an instance are set free. -/
theorem Built.not_concerned (h : w.Built) {x : Instance} (hx : w.inst? P = some x) {m : NodeId}
    (hspot : w.layout.spot pl = some (Q, m)) (hQ : Q ≠ P) :
    isSlotOf P pl = false ∧ ∀ c, Value.coll c ∈ x.values → pl ≠ .sequence c := by
  constructor
  · cases pl with
    | sequence c => rfl
    | slot R name =>
      obtain rfl := spot_slot hspot
      exact beq_eq_false_iff_ne.2 hQ
  · rintro c hc rfl
    obtain ⟨y, hy, howner⟩ := h.owner_of_mem_values hx hc
    obtain ⟨z, hz, hzQ, -⟩ := spot_sequence hspot
    obtain rfl := Option.some.inj (hy.symm.trans hz)
    exact hQ (hzQ.symm.trans howner)

theorem sameShape_buried (w : World) (P : InstanceId) : w.SameShape (w.buried P) :=
  sameShape_modifyInstance w P fun _ => rfl

theorem map_inst?_buried {β : Type} (g : Instance → β)
    (hg : ∀ (x : Instance) (b : Bool), g { x with alive := b } = g x) (w : World) (P i : InstanceId) :
    ((w.buried P).inst? i).map g = (w.inst? i).map g :=
  map_inst?_modifyInstance g (fun x => hg x false) w P i

theorem placeOf?_buried (w : World) (P i : InstanceId) : (w.buried P).placeOf? i = w.placeOf? i :=
  placeOf?_congr (map_inst?_buried _ (fun _ _ => rfl) w P i)

section Drop

variable {x : Instance} (h : w.Orderly) (hx : w.inst? P = some x)
  (hf : FreesChildren P x.values (w.buried P) w')

include h hx hf

omit h in
/-- Who stands in a slot of an instance that goes out of use stands there no more. -/
theorem FreesChildren.not_slot {name : String} (hi : i ∈ w.occupants (.slot P name)) :
    w'.placeOf? i ≠ some (.slot P name) := by
  obtain ⟨-, hstored⟩ := mem_occupants_slot.1 hi
  obtain ⟨y, c, n, hy, -, -, hval⟩ := exists_of_stored? hstored
  obtain rfl := Option.some.inj (hx.symm.trans hy)
  exact hf.slot i name (List.mem_of_getElem? hval)

omit hx in
/-- Who stands elsewhere stays there. -/
theorem FreesChildren.stays (hi : i ∈ w.occupants pl) (hslot : isSlotOf P pl = false)
    (hcoll : ∀ c, Value.coll c ∈ x.values → pl ≠ .sequence c) : w'.placeOf? i = some pl := by
  refine hf.other i pl ?_ hslot hcoll
  rw [placeOf?_buried]
  exact (Layout.Linked.place_iff h.linked i pl).2 hi

/-- The occupants afterwards are those who still stand. -/
theorem FreesChildren.occupants_eq :
    (fun pl => (w.occupants pl).filter fun i => decide (w'.placeOf? i = some pl)) = w'.occupants := by
  have hshape := (sameShape_buried w P).trans hf.frees.shape
  funext pl
  cases pl with
  | sequence c =>
    by_cases hc : Value.coll c ∈ x.values
    · have hnil : w'.occupants (.sequence c) = [] := hf.emptied c hc
      rw [hnil]
      refine List.filter_eq_nil_iff.2 fun i hi => ?_
      rw [decide_eq_true_eq]
      exact hf.sequence c i hc hi
    · have hsame : w'.occupants (.sequence c) = w.occupants (.sequence c) := hf.items c hc
      rw [hsame]
      refine List.filter_eq_self.2 fun i hi => decide_eq_true ?_
      refine hf.stays h hi rfl fun d hd heq => hc ?_
      rw [Place.sequence.inj heq]
      exact hd
  | slot R name =>
    by_cases hR : R = P
    · subst hR
      have hnil : w'.occupants (.slot R name) = [] := by
        unfold World.occupants
        dsimp only
        rw [isAlive_congr (hf.frees.alive R), isAlive_buried]
        simp
      rw [hnil]
      refine List.filter_eq_nil_iff.2 fun i hi => ?_
      rw [decide_eq_true_eq]
      exact hf.not_slot hx hi
    · have hvalues : (w'.inst? R).map (·.values) = (w.inst? R).map (·.values) :=
        (hf.frees.values R).trans (map_inst?_buried _ (fun _ _ => rfl) w P R)
      have hsame : w'.occupants (.slot R name) = w.occupants (.slot R name) := by
        unfold World.occupants
        dsimp only
        rw [isAlive_congr (hf.frees.alive R), isAlive_buried, stored?_congr hshape hvalues,
          decide_eq_true hR, Bool.and_true]
      rw [hsame]
      refine List.filter_eq_self.2 fun i hi => decide_eq_true ?_
      refine hf.stays h hi (beq_eq_false_iff_ne.2 hR) fun c _ heq => ?_
      cases heq

/-- An instance that goes out of use and stands nowhere leaves an orderly world. -/
theorem FreesChildren.orderly (hfree : w.placeOf? P = none) (hnot : P ∉ w.handles) : w'.Orderly := by
  have hshape := (sameShape_buried w P).trans hf.frees.shape
  have halive (i : InstanceId) : w'.isAlive i = (w.isAlive i && decide (i ≠ P)) := by
    rw [isAlive_congr (hf.frees.alive i), isAlive_buried]
  have hlive (i : InstanceId) (hi : w.isAlive i = true) (hne : i ≠ P) : w'.isAlive i = true := by
    rw [halive, hi, decide_eq_true hne]
    rfl
  have hlinked : w'.LinkedFor (fun i => w.isAlive i = true) w'.occupants := by
    rw [← hf.occupants_eq h hx]
    exact hf.frees.linked _ _ (h.linked.congr (sameShape_buried w P) (placeOf?_buried w P) .rfl)
  have hplace : w'.placeOf? P = none :=
    hf.frees.placeOf?_none ((placeOf?_buried w P P).trans hfree)
  refine ⟨h.toBuilt.congr hshape ?_ ?_ ?_, ?_, ?_⟩
  · exact fun i => (hf.frees.values i).trans (map_inst?_buried _ (fun _ _ => rfl) w P i)
  · intro c y hy howner
    obtain ⟨z, hz, hyz⟩ := hshape.exists_coll' hy
    have hyo : y.owner = z.owner := congrArg (·.2.2) hyz
    have hya := hf.frees.aliveColl c
    rw [hy] at hya
    have hbur : (w.buried P).coll? c = some z := hz
    rw [hbur] at hya
    have hyalive : y.alive = z.alive := Option.some.inj hya
    rw [halive, hyo, Bool.and_eq_true] at howner
    rw [hyalive]
    exact h.collAlive c z hz howner.1
  · intro c i hi
    rcases hf.frees.items c with heq | hnil
    · rw [heq] at hi
      exact hi
    · rw [hnil] at hi
      cases hi
  · refine Layout.Linked.of_fewer hlinked ?_ ?_ ?_
    · intro i hi
      rw [halive, Bool.and_eq_true] at hi
      exact hi.1
    · intro i pl hi
      refine hlive i (Layout.Linked.live_item hlinked i pl hi) ?_
      rintro rfl
      rw [(Layout.Linked.place_iff hlinked i pl).2 hi] at hplace
      cases hplace
    · intro i pl Q m hi hspot
      obtain ⟨Q', m', hspot', hQ⟩ := Layout.Linked.live_owner hlinked i pl hi
      obtain ⟨rfl, -⟩ := Prod.mk.inj (Option.some.inj (hspot.symm.trans hspot'))
      refine hlive Q hQ ?_
      -- the places of the instance itself are empty
      rintro rfl
      rw [hshape.layout] at hspot
      cases pl with
      | sequence c =>
        obtain ⟨y, hy, howner, -⟩ := spot_sequence hspot
        obtain ⟨z, hz, hc⟩ := h.coll c y hy
        rw [howner] at hz
        obtain rfl := Option.some.inj (hx.symm.trans hz)
        have hnil : w'.occupants (.sequence c) = [] := hf.emptied c hc
        rw [hnil] at hi
        cases hi
      | slot R name =>
        obtain rfl := spot_slot hspot
        have hQ' := (mem_occupants_slot.1 hi).1
        rw [halive, decide_eq_false (by simp), Bool.and_false] at hQ'
        cases hQ'
  · intro i hi
    rw [hf.frees.handles.handles] at hi
    refine hlive i (h.handled i hi) ?_
    rintro rfl
    exact hnot hi

/-- An anchored set is respected when an instance goes out of use that does not belong to it. -/
theorem FreesChildren.respects (hK : w.Anchored K) (hP : ¬ K P) : w.Respects K w' := by
  have hshape := (sameShape_buried w P).trans hf.frees.shape
  have hne (Q : InstanceId) (hQ : K Q) : Q ≠ P := by
    rintro rfl
    exact hP hQ
  refine ⟨.of_sameShape hshape, ?_, hf.frees.handles.registry, ?_, ?_, ?_⟩
  · rw [hf.frees.handles.pins]
    exact List.Subset.refl _
  · intro Q hQ
    rw [isAlive_congr (hf.frees.alive Q), isAlive_buried, (hK Q hQ).1, decide_eq_true (hne Q hQ)]
    rfl
  · intro pl Q m hQ hspot
    obtain ⟨hslot, hcoll⟩ := h.not_concerned hx hspot (hne Q hQ)
    rw [← hf.occupants_eq h hx]
    exact List.filter_eq_self.2 fun i hi => decide_eq_true (hf.stays h hi hslot hcoll)
  · intro Q hQ
    have hview := hf.frees.view _ _
      (h.linked.congr (sameShape_buried w P) (placeOf?_buried w P) .rfl) Q ?_
    · rw [hshape.layout]
      rw [(sameShape_buried w P).layout] at hview
      exact hview
    · intro i pl m hplace hgone hspot
      rw [(sameShape_buried w P).layout] at hspot
      rw [placeOf?_buried] at hplace
      obtain ⟨hslot, hcoll⟩ := h.not_concerned hx hspot (hne Q hQ)
      exact hgone (hf.stays h ((Layout.Linked.place_iff h.linked i pl).1 hplace) hslot hcoll)

end Drop

end World

end ReactiveView
