import ReactiveView.Proofs.Closed.Runs

/-!
# Operations keep worlds regular

Whatever is done to an instance leaves a regular world regular: the child of a slot and the items of a
collection are recorded only after their roots have been found. What is taken out of a collection is there
(`Run.stays_splice`).
-/

set_option autoImplicit false

namespace ReactiveView

open World

namespace Run

variable {α β : Type} {w w' : World} {i : InstanceId} {k : CollectionId} {n : Nat}

/-! ## Writing primitive values and attributes -/

theorem regrows_setAttribute (i : InstanceId) (name : String) (v : Value) : Keeps Regrows (setAttribute i name v) := by
  refine (keeps_attributeIndex i name).bind fun n => (keeps_theClassOf i).bind fun c => ?_
  refine (keeps_ofOption _).bind fun a => (keeps_ofExcept _).bind fun _ => (keeps_theView i).bind fun view w => ?_
  have hset (w : World) : w.Regrows (w.mapForest fun f => f.setAttr view.root (dataName name) v.outputText) :=
    regrows_mapForest (.setAttr _ _ _ _)
  have hstore (w : World) : w.Regrows (w.storeAttr i n v) := regrows_record i fun _ => ⟨rfl, rfl, Or.inl rfl⟩
  exact IsTrans.trans _ _ _ (regrows_renderIn w c _ _ _) (IsTrans.trans _ _ _ (hset _) (hstore _))

theorem regrows_setAttributes (i : InstanceId) (values : Dict String Value) : Keeps Regrows (setAttributes i values) := by
  refine Keeps.bind (Keeps.forM (fun e => ?_) _) fun _ => Keeps.forM (fun e => ?_) _
  · exact (keeps_attributeIndex i e.1).bind fun _ => keeps_pure _
  · exact regrows_setAttribute i e.1 e.2

section Writing

variable {cb : Callbacks} (hcb : cb.Careful)

include hcb

/-- Listeners get to know the new value. -/
theorem stays_announce (i : InstanceId) (property : String) (old : Value) {new : Value} (hnew : w.KnowsValue new) :
    Stays (announce cb i property old new) w fun _ _ => True := by
  refine (stays_theInstance i).bind fun x w₁ hl₁ hi => .forM fun l _ w₂ hl₂ => ?_
  refine .after (regrows_note _) fun _ w₃ hl₃ => ?_
  refine (hcb.script _ _ w₃ ⟨(hi.larger hl₂).larger hl₃, ?_⟩).bind fun _ _ _ _ => .pure trivial
  exact ((hnew.larger hl₁).larger hl₂).larger hl₃

theorem regrows_writePrimitive (i : InstanceId) (n : Nat) (name : String) {v : Value} (hv : v.instances = []) :
    Keeps Regrows (writePrimitive cb i n name v) := by
  refine (keeps_theClassOf i).bind fun c => (keeps_theView i).bind fun view => ?_
  have hstore : Keeps Regrows (do
      let old ← ofOption (← theInstance i).values[n]?
      update fun w => w.storeValue i n v
      announce cb i name old v) := by
    refine (keeps_theInstance i).bind fun x => (keeps_ofOption _).bind fun old => ?_
    refine Keeps.bind (fun w => regrows_storeValue (fun _ => knowsValue_of_instances hv) i n) fun _ => ?_
    exact Stays.keeps fun _ => stays_announce hcb i name old (knowsValue_of_instances hv)
  dsimp only
  split
  · exact Keeps.bind (fun w => regrows_renderIn w c _ _ _) fun _ => hstore
  · exact hstore

theorem regrows_writeBinding (i : InstanceId) (name : String) : Keeps Regrows (writeBinding cb i name) := by
  refine (keeps_propertyIndex i name).bind fun n => (keeps_theClassOf i).bind fun c => ?_
  split
  · exact keeps_fail _
  · exact (keeps_ask _).bind fun text => regrows_writePrimitive hcb i n name rfl

theorem regrows_propagate (i : InstanceId) (changed : String) : Keeps Regrows (propagate cb i changed) :=
  (keeps_theClassOf i).bind fun _ => Keeps.forM (regrows_writeBinding hcb i) _

theorem regrows_recomputeBinding (i : InstanceId) (name : String) : Keeps Regrows (recomputeBinding cb i name) :=
  (regrows_writeBinding hcb i name).bind fun _ => regrows_propagate hcb i name

theorem regrows_setPrimitive (i : InstanceId) (n : Nat) (name : String) (types : Option (List PrimitiveType))
    (v : Value) : Keeps Regrows (setPrimitive cb i n name types v) := by
  refine Stays.keeps fun w => .bind_read (R := fun _ _ => True) (keeps_ofExcept _) fun _ hcheck => .of_keeps ?_
  have hprim := ((checkPrimitive_eq_ok_iff name types v).1 (ofExcept_eq_ok hcheck).1).1
  exact (regrows_writePrimitive hcb i n name (Value.plain_of_isPrimitive hprim).instances).bind fun _ =>
    regrows_propagate hcb i name

end Writing

/-! ## Children -/

/-- What asks for a root fails where there is none. -/
theorem theRoot_cases (i : InstanceId) (w : World) :
    (∃ r, w.rootOf? i = some r ∧ theRoot i w = (.ok r, w)) ∨ ∃ e, theRoot i w = (.error e, w) := by
  have hread := keeps_theRoot (R := Eq) i w
  rcases hm : theRoot i w with ⟨e | r, w'⟩
  · rw [hm] at hread
    obtain rfl : w = w' := hread
    exact Or.inr ⟨e, rfl⟩
  · obtain ⟨hr, rfl⟩ := theRoot_eq_ok hm
    exact Or.inl ⟨r, hr, rfl⟩

theorem stays_theRoot (i : InstanceId) : Stays (theRoot i) w fun _ w' => w'.Knows i := by
  refine .read (keeps_theRoot i) fun _ r hr => ?_
  obtain ⟨view, w₁, hview, -⟩ := bind_eq_ok_iff.1 hr
  obtain ⟨⟨x, hx, -⟩, -⟩ := theView_eq_ok hview
  exact knows_of_inst? hx

/-- What is attached is there. -/
theorem stays_attachAfter (i : InstanceId) (anchor : NodeId) {a : Attachment} (ha : w.KnowsPlace a.place) :
    Stays (attachAfter i anchor a) w fun _ w' => w'.Knows i := by
  refine .bind_same (get_apply w) ?_
  dsimp only
  split
  · exact .after keeps_get fun _ _ _ => .fail_bind _
  · refine .after (keeps_checkOutside i anchor) fun _ w₁ hl₁ => (stays_theRoot i).bind fun root w₂ hl₂ hi => ?_
    refine .after (regrows_edit fun f => .insertAfter f anchor root) fun _ w₃ hl₃ => ?_
    have hplace := ((ha.larger hl₁).larger hl₂).larger hl₃
    exact .update (regrows_setAttachment hplace i) fun hl₄ => (hi.larger hl₃).larger hl₄

theorem stays_attachInOrder {a : Attachment} (previous : NodeId) (is : List InstanceId)
    (ha : w.KnowsPlace a.place) : Stays (attachInOrder a previous is) w fun _ _ => True := by
  induction is generalizing w previous with
  | nil => exact .pure trivial
  | cons i is ih =>
    refine (stays_attachAfter i previous ha).bind fun _ w₁ hl₁ _ => .after (keeps_theRoot i) fun r w₂ hl₂ => ?_
    exact ih r ((ha.larger hl₁).larger hl₂)

/-- The check of the instances to be inserted fails, or they are different, have roots, and are free or taken
out first. -/
theorem checkInserted_cases (anchor : NodeId) (removed before is : List InstanceId) (w : World) :
    (∃ e, checkInserted anchor removed before is w = (.error e, w)) ∨
      checkInserted anchor removed before is w = (.ok (), w) ∧ is.Nodup ∧ ∀ i ∈ is, i ∉ before ∧
        (w.attachment? i = none ∨ i ∈ removed) ∧ ∃ r, w.rootOf? i = some r := by
  induction is generalizing before with
  | nil => exact Or.inr ⟨rfl, List.nodup_nil, fun i hi => by cases hi⟩
  | cons i is ih =>
    unfold checkInserted
    dsimp only
    by_cases hbefore : i ∈ before
    · rw [if_pos (List.contains_iff_mem.2 hbefore)]
      exact Or.inl ⟨_, rfl⟩
    · rw [if_neg fun h => hbefore (List.contains_iff_mem.1 h), bind_of_ok (get_apply w)]
      by_cases htest : (w.isAttached i && !removed.contains i) = true
      · rw [if_pos htest]
        exact Or.inl ⟨_, rfl⟩
      · rw [if_neg htest]
        have hplace : w.attachment? i = none ∨ i ∈ removed := by
          by_contra hnot
          obtain ⟨hatt, hmem⟩ := not_or.1 hnot
          refine htest (Bool.and_eq_true _ _ ▸ ⟨Option.isSome_iff_ne_none.2 hatt, ?_⟩)
          rw [Bool.not_eq_true', Bool.eq_false_iff]
          exact fun h => hmem (List.contains_iff_mem.1 h)
        rcases theRoot_cases i w with ⟨r, hr, hroot⟩ | ⟨e, hroot⟩
        · by_cases hout : w.forest.isInclusiveAncestor r anchor = true
          · refine Or.inl ⟨.failed (.insideItself (w.className i)), bind_of_error ?_⟩
            unfold checkOutside
            rw [bind_of_ok hroot, bind_of_ok (get_apply w), if_pos hout]
            rfl
          · have hcheck : checkOutside i anchor w = (.ok (), w) := by
              unfold checkOutside
              rw [bind_of_ok hroot, bind_of_ok (get_apply w), if_neg hout]
              rfl
            rw [bind_of_ok hcheck]
            rcases ih (before ++ [i]) with ⟨e, he⟩ | ⟨hrun, hnodup, hall⟩
            · exact Or.inl ⟨e, he⟩
            · refine Or.inr ⟨hrun, List.nodup_cons.2 ⟨fun hi => ?_, hnodup⟩, fun j hj => ?_⟩
              · exact (hall i hi).1 (List.mem_append_right _ (List.mem_singleton_self i))
              · rcases List.mem_cons.1 hj with rfl | hj
                · exact ⟨hbefore, hplace, r, hr⟩
                · obtain ⟨hbefore', hrest⟩ := hall j hj
                  exact ⟨fun hmem => hbefore' (List.mem_append_left _ hmem), hrest⟩
        · refine Or.inl ⟨e, bind_of_error ?_⟩
          unfold checkOutside
          rw [bind_of_error hroot]

/-- A stretch of the items of a collection that is there is replaced. -/
theorem stays_spliceItems (hk : w.KnowsColl k) (coll : Collection) (start count : Nat) (inserted : List InstanceId) :
    Stays (spliceItems k coll start count inserted) w fun removed w' => ∀ i ∈ removed, w'.Knows i := by
  refine .of_regular fun hw => .bind_same (ask_apply _ w) ?_
  generalize hitems : w.itemsOf k = items
  have hold (i : InstanceId) (hi : i ∈ items) : w.Knows i := hw.listed (hitems ▸ hi)
  rcases checkInserted_cases coll.anchor ((items.drop start).take count) [] inserted w with
    ⟨e, hcheck⟩ | ⟨hcheck, -, hall⟩
  · intro _
    rw [bind_of_error hcheck]
    exact ⟨hw, .rfl, fun _ hb => by cases hb⟩
  · refine .bind_same hcheck ?_
    have hnew (i : InstanceId) (hi : i ∈ inserted) : w.Knows i := by
      obtain ⟨-, -, r, hr⟩ := hall i hi
      obtain ⟨view, hview, -⟩ := Option.map_eq_some_iff.1 hr
      obtain ⟨x, hx, -⟩ := Option.bind_eq_some_iff.1 hview
      exact knows_of_inst? hx
    refine .after (Keeps.forM keeps_release _) fun _ w₁ hl₁ => ?_
    have hknown (i : InstanceId) (hi : i ∈ spliced items start count inserted) : w₁.Knows i := by
      refine Knows.larger ?_ hl₁
      rcases List.mem_append.1 hi with hi | hi
      · rcases List.mem_append.1 hi with hi | hi
        · exact hold i (List.mem_of_mem_take hi)
        · exact hnew i hi
      · exact hold i (List.mem_of_mem_drop hi)
    have hset : Stays (update fun w => w.setItems k (spliced items start count inserted)) w₁ fun _ _ => True :=
      .update (regrows_setItems (fun _ => hknown) k) fun _ => trivial
    refine hset.bind fun _ w₂ hl₂ _ => .after (keeps_nodeBefore _ _ _) fun anchor w₃ hl₃ => ?_
    have hplace : w₃.KnowsPlace (.sequence k) :=
      ((hk.larger hl₁).larger hl₂).larger hl₃
    refine (stays_attachInOrder anchor inserted hplace).bind fun _ w₄ hl₄ _ => .pure fun i hi => ?_
    have hi := hold i (List.mem_of_mem_drop (List.mem_of_mem_take hi))
    exact (((hi.larger hl₁).larger hl₂).larger hl₃).larger hl₄

section Children

variable {cb : Callbacks} (hcb : cb.Careful)

include hcb

theorem regrows_coerce (element : ElementType) (v : Value) : Keeps Regrows (coerce cb element v) := by
  unfold coerce
  split
  · refine keeps_get.bind fun w => ?_
    split
    · exact keeps_pure _
    · exact keeps_get.bind fun _ => keeps_fail _
  · cases element with
    | any => exact keeps_fail _
    | ofClass ref => exact Stays.keeps (hcb.construct ref.id _)
  · exact keeps_fail _

theorem regrows_coerceAll (element : ElementType) (vs : List Value) : Keeps Regrows (coerceAll cb element vs) := by
  induction vs with
  | nil => exact keeps_pure _
  | cons v vs ih =>
    exact (regrows_coerce hcb element v).bind fun _ => ih.bind fun _ => keeps_pure _

theorem regrows_slotChild (element : ElementType) (v : Value) : Keeps Regrows (slotChild cb element v) := by
  unfold slotChild
  split
  · exact keeps_pure _
  · exact (regrows_coerce hcb element _).map _

/-- What a splice takes out is there. -/
theorem stays_splice (k : CollectionId) (start count : Nat) (vs : List Value) :
    Stays (splice cb k start count vs) w fun removed w' => ∀ i ∈ removed, w'.Knows i := by
  rw [splice_eq]
  refine Stays.keeping (Q := fun removed w' => ∀ i ∈ removed, w'.Knows i) ?_ (fun removed w' hknown j hj => ?_)
    fun removed w' w'' hknown hl i hi => (hknown i hi).larger hl
  · unfold spliceBody
    refine .bind_same (get_apply w) (.bind_read (keeps_theCollection k) fun coll hcoll => ?_)
    have hk : w.KnowsColl k := index_lt_of_coll? (theCollection_eq_ok hcoll).1
    refine .after (regrows_coerceAll hcb _ _) fun inserted w₁ hl₁ => ?_
    exact stays_spliceItems (hk.larger hl₁) coll _ _ inserted
  · obtain ⟨l, hl, hlj⟩ := List.mem_map.1 hj
    exact Held.inst.inj hlj ▸ hknown l hl

theorem regrows_splice (k : CollectionId) (start count : Nat) (vs : List Value) :
    Keeps Regrows (splice cb k start count vs) := Stays.keeps fun _ => stays_splice hcb k start count vs

theorem stays_replaceAll (k : CollectionId) (vs : List Value) :
    Stays (replaceAll cb k vs) w fun removed w' => ∀ i ∈ removed, w'.Knows i :=
  .after (keeps_ask _) fun _ _ _ => stays_splice hcb k _ _ vs

theorem regrows_replaceAll (k : CollectionId) (vs : List Value) : Keeps Regrows (replaceAll cb k vs) :=
  Stays.keeps fun _ => stays_replaceAll hcb k vs

theorem regrows_push (k : CollectionId) (v : Value) : Keeps Regrows (push cb k v) :=
  (keeps_ask _).bind fun _ => (regrows_splice hcb k _ _ _).bind fun _ => keeps_ask _

theorem regrows_unshift (k : CollectionId) (v : Value) : Keeps Regrows (unshift cb k v) :=
  (regrows_splice hcb k _ _ _).bind fun _ => keeps_ask _

theorem stays_pop (k : CollectionId) : Stays (pop cb k) w fun i w' => ∀ j ∈ i, w'.Knows j := by
  refine .after (keeps_ask _) fun n _ _ => ?_
  cases n with
  | zero => exact .pure fun j hj => by cases hj
  | succ n =>
    exact (stays_splice hcb k _ _ _).bind fun removed _ _ hknown =>
      .pure fun j hj => hknown j (List.mem_of_getLast? hj)

theorem stays_shift (k : CollectionId) : Stays (shift cb k) w fun i w' => ∀ j ∈ i, w'.Knows j := by
  refine .after (keeps_ask _) fun n _ _ => ?_
  cases n with
  | zero => exact .pure fun j hj => by cases hj
  | succ n =>
    exact (stays_splice hcb k _ _ _).bind fun removed _ _ hknown =>
      .pure fun j hj => hknown j (List.mem_of_getLast? hj)

theorem regrows_insertItem (k : CollectionId) (position : Nat) (v : Value) :
    Keeps Regrows (insertItem cb k position v) := by
  refine (keeps_ask _).bind fun size => ?_
  dsimp only
  split
  · exact keeps_fail_bind _ _
  · exact (regrows_splice hcb k _ _ _).bind fun _ => keeps_pure _

theorem stays_removeItem (k : CollectionId) (position : Nat) :
    Stays (removeItem cb k position) w fun i w' => w'.Knows i := by
  refine .after (keeps_ask _) fun size _ _ => ?_
  dsimp only
  split
  · exact .fail_bind _
  · refine (stays_splice hcb k _ _ _).bind fun removed _ _ hknown => ?_
    cases hlast : removed.getLast? with
    | none => exact .fail _
    | some i => exact .pure (hknown i (List.mem_of_getLast? hlast))

theorem regrows_moveItem (k : CollectionId) (source target : Nat) : Keeps Regrows (moveItem cb k source target) := by
  refine (keeps_ask _).bind fun size => ?_
  dsimp only
  split
  · exact keeps_fail_bind _ _
  · split
    · refine Keeps.bind (Stays.keeps fun _ => stays_removeItem hcb k _) fun _ => ?_
      exact (regrows_splice hcb k _ _ _).bind fun _ => keeps_pure _
    · exact keeps_pure _

end Children

/-! ## Writing properties -/

/-- Whoever goes into a slot has been attached there. -/
theorem regrows_replaceChild (i : InstanceId) (n : Nat) (name : String) (child : Option InstanceId) :
    Keeps Regrows (replaceChild i n name child) := by
  refine Stays.keeps fun w => (stays_theInstance i).bind (R := fun _ _ => True) fun x w₁ _ hi => ?_
  refine .after (keeps_ofOption _) fun old w₂ hl₂ => ?_
  dsimp only
  split
  · exact .pure trivial
  · refine .after (keeps_theView i) fun view w₃ hl₃ => ?_
    split
    · next anchor sink _ =>
      have hplace : w₃.KnowsPlace (.slot i name) := (hi.larger hl₂).larger hl₃
      have hattach : Stays (child.forM fun j => attachAfter j anchor ⟨.slot i name, sink⟩) w₃
          fun _ w' => w'.KnowsValue ((child.map Value.inst).getD .null) := by
        cases child with
        | none => exact .pure fun j hj => by cases hj
        | some c => exact (stays_attachAfter c anchor hplace).imp fun _ _ hc j hj => List.mem_singleton.1 hj ▸ hc
      refine hattach.bind fun _ w₄ _ hv => .after (Keeps.forM_option keeps_release _) fun _ w₅ hl₅ => ?_
      exact .update (regrows_storeValue (fun _ => hv.larger hl₅) i n) fun _ => trivial
    · exact .fail _

section Properties

variable {cb : Callbacks} (hcb : cb.Careful)

include hcb

theorem regrows_setSlot (i : InstanceId) (n : Nat) (name : String) (element : ElementType) (v : Value) :
    Keeps Regrows (setSlot cb i n name element v) :=
  Keeps.inScope_regrows ((regrows_slotChild hcb element v).bind fun child => regrows_replaceChild i n name child)

theorem regrows_setSequence (i : InstanceId) (n : Nat) (v : Value) : Keeps Regrows (setSequence cb i n v) := by
  refine Keeps.inScope_regrows ((keeps_theView i).bind fun view => ?_)
  split
  · split
    · exact (regrows_replaceAll hcb _ _).bind fun _ => keeps_pure _
    · split
      · exact (keeps_ask _).bind fun _ => (regrows_replaceAll hcb _ _).bind fun _ => keeps_pure _
      · exact keeps_pure _
    · exact keeps_fail _
  · exact keeps_fail _

theorem regrows_setProperty (i : InstanceId) (name : String) (v : Value) : Keeps Regrows (setProperty cb i name v) := by
  refine (keeps_propertyIndex i name).bind fun n => (keeps_theClassOf i).bind fun c => ?_
  refine (keeps_ofOption _).bind fun p => ?_
  split
  · exact regrows_setPrimitive hcb i n name _ v
  · exact regrows_setSlot hcb i n name _ v
  · exact regrows_setSequence hcb i n v

theorem regrows_assign (i : InstanceId) (v : Value) : Keeps Regrows (assign cb i v) := by
  unfold assign
  split
  · exact (keeps_checkKnown i _).bind fun _ => Keeps.forM (fun e => regrows_setProperty hcb i _ _) _
  · exact keeps_fail _

/-! ## Coming and going -/

theorem regrows_releaseChild (i : InstanceId) (n : Nat) (v : Value) : Keeps Regrows (releaseChild cb i n v) := by
  unfold releaseChild
  split
  · refine (keeps_release _).tolerate.bind fun _ w => ?_
    exact regrows_storeValue (fun _ => knowsValue_of_instances rfl) i n
  · exact ((regrows_replaceAll hcb _ _).bind fun _ => keeps_pure _).tolerate
  · exact keeps_pure _

theorem regrows_releaseChildren (i : InstanceId) : Keeps Regrows (releaseChildren cb i) :=
  (keeps_theInstance i).bind fun _ => Keeps.forM (fun _ => regrows_releaseChild hcb i _ _) _

/-- The owner of the slot in which an instance is recorded is there. -/
theorem regrows_detach (i : InstanceId) : Keeps Regrows (detach cb i) := by
  refine Stays.keeps fun w => (Stays.of_regular fun hw => .bind_same (get_apply w) ?_).inScope
  split
  · exact .after keeps_get fun _ _ _ => .fail _
  · next a ha =>
    have hplace := hw.placed ha
    split
    · refine .bind_same (get_apply w) ?_
      dsimp only
      split
      · exact .fail_bind _
      · refine (stays_pin (by intro j hj; cases hj)).bind fun _ w₁ _ _ => .after keeps_get fun _ w₂ _ => ?_
        split
        · exact .fail _
        · exact .of_keeps ((regrows_splice hcb _ _ _ _).bind fun _ => keeps_pure _)
    · next owner property hpl =>
      rw [hpl] at hplace
      refine .bind_same (get_apply w) ?_
      dsimp only
      split
      · exact .fail_bind _
      · refine (stays_pin fun j hj => Held.inst.inj hj ▸ hplace).bind fun _ w₁ _ _ => ?_
        exact .of_keeps (regrows_setProperty hcb _ _ _)

theorem regrows_attach (i parent : InstanceId) (name : String) : Keeps Regrows (attach cb i parent name) := by
  refine (keeps_propertyIndex parent name).bind fun n => (keeps_theClassOf parent).bind fun c => ?_
  refine (keeps_ofOption _).bind fun p => ?_
  split
  · refine keeps_get.bind fun w => ?_
    dsimp only
    split
    · exact keeps_get.bind fun _ => keeps_fail_bind _ _
    · exact regrows_setProperty hcb parent name _
  · refine (keeps_getProperty parent name).bind fun v => ?_
    split
    · exact (regrows_push hcb _ _).bind fun _ => keeps_pure _
    · exact keeps_fail _
  · exact keeps_fail _

end Properties

end Run

end ReactiveView
