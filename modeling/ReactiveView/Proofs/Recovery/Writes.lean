import ReactiveView.Proofs.Recovery.Runs

/-!
# Writing to an instance under construction

What is written to an instance under construction is lent to it. Primitive writes change nothing that the
ledger sees. A child goes into a slot before the old one leaves it, so for a while both are counted as its
occupants (`Run.lends_replaceChild`). A splice checks all new items before anything changes; from then on the
new items are counted as occupants, and are loose ends until they are attached (`Run.lends_splice`).

The instances that values stand for were there or are fully constructed (`World.Fit`), and so are those that
coercion gives, provided that constructions lend (`Callbacks.Lending`). A write to an instance of a class all of
whose element classes are constructed so lends, too (`Run.lends_setProperty`).
-/

set_option autoImplicit false

namespace ReactiveView

/-- A property of the kind may make instances of the class. -/
def PropertyKind.Makes : PropertyKind → ClassId → Prop
  | .slot (.ofClass ref), id | .sequence (.ofClass ref), id => ref.id = id
  | _, _ => False

/-- Constructions of the classes lend, when they are given what was there or is finished. -/
def Callbacks.Lending (cb : Callbacks) (w₀ : World) (able : ClassId → Prop) : Prop :=
  ∀ (id : ClassId) (init : Option Value) (w : World), able id → w₀.Underway World.tight w →
    (∀ v ∈ init, w₀.Fit w v) → Run.Lends w₀ World.tight (cb.construct id init) w fun i w' => w'.HasBuilt i

variable {α : Type} {w₀ w w' : World} {loose : Place → InstanceId → Prop} {T : InstanceId} {c : Class}
  {n : Nat} {p : PropertyDescriptor} {element : ElementType} {k : CollectionId} {x : Collection}

namespace World

/-- An instance of the class is under construction. -/
structure Busy (w₀ w : World) (T : InstanceId) (c : Class) : Prop extends Working w₀ w T where
  cls : w.classOf? T = some c

theorem Busy.passes (h : w₀.Busy w T c) (hp : w₀.Passes w w') : w₀.Busy w' T c :=
  ⟨hp.working T h.toWorking, hp.toLasts.classOf? h.cls⟩

theorem Loan.valid {occ : Place → List InstanceId} (h : w₀.Loan loose occ w) (hw₀ : w₀.Resting)
    (hT : w₀.Busy w T c) : c.Valid := by
  obtain ⟨x, view, -, -, hf⟩ := h.exists_record hT.toWorking hT.cls
  have hcls := hf.cls
  unfold class? at hcls
  rw [h.classes] at hcls
  exact hw₀.compiled.valid hcls

/-- The collections of new instances are new. -/
theorem Retains.not_knowsColl_of_owner (h : w₀.Retains w) (hw₀ : w₀.Closed) (hx : w.coll? k = some x)
    (hnew : ¬ w₀.Knows x.owner) : ¬ w₀.KnowsColl k := by
  intro hknown
  obtain ⟨y, hy⟩ := hknown.exists_coll
  obtain rfl := Option.some.inj ((h.coll k y hy).symm.trans hx)
  exact hnew (hw₀.owner k y hy)

/-- Whoever is listed somewhere was there or is finished. -/
theorem Underway.whole_item (h : w₀.Underway loose w) (hw₀ : w₀.Closed) {i : InstanceId} (hi : i ∈ w.itemsOf k) :
    w₀.Whole w i := by
  by_cases hk : w₀.KnowsColl k
  · obtain ⟨y, hy⟩ := hk.exists_coll
    rw [itemsOf_of_coll? (h.coll k y hy)] at hi
    exact Or.inl (hw₀.item k y hy i hi)
  · exact h.whole (.sequence k) i hk hi

/-! ## Storing values and items -/

/-- An instance under construction stores the value that its slot has been prepared for. -/
theorem Loan.storeValue (hw₀ : w₀.Resting) {x : Instance} {view : View} {n : Nat} {p : PropertyDescriptor}
    {v : Value}
    (h : w₀.Loan loose (Function.update w.occupants (.slot T p.name) v.inst?.toList) w)
    (htended : w₀.Tended w) (hT : w₀.Busy w T c) (hx : w.inst? T = some x) (hf : w.Formed T x c view)
    (hp : c.descriptor.properties[n]? = some p) (hk : ∀ element, p.kind ≠ .sequence element)
    (hfit : ∀ s old, w.Fits T p.kind s old → w.Fits T p.kind s v) :
    w₀.Underway loose (w.storeValue T n v) ∧ w₀.Passes w (w.storeValue T n v) := by
  have hs := sameShape_storeValue w T n v
  have hbuilt (i : InstanceId) : (w.storeValue T n v).HasBuilt i ↔ w.HasBuilt i := by
    rw [hasBuilt_iff_map, hasBuilt_iff_map, map_inst?_storeValue (·.built) fun _ _ => rfl]
  have hatt : (w.storeValue T n v).attachment? = w.attachment? :=
    funext fun i => attachment?_congr (map_inst?_storeValue (·.attachment) (fun _ _ => rfl) w T n v i)
  refine ⟨⟨?_, fun d y hd hy hne => ?_⟩, ⟨.of_sameShape hs, fun i => (hbuilt i).2⟩, fun P hP => ?_⟩
  · rw [hf.occupants_storeValue hx hp (h.valid hw₀ hT) hT.alive]
    exact h.congr (h.toRetains.modifyInstance T fun hk => absurd hk hT.new) hs
      (h.drafts.storeValue hx hf hp hk hfit) hatt (fun i => (hbuilt i).2) fun _ => rfl
  · rw [isAlive_storeValue]
    exact htended d y hd hy hne
  · exact ⟨hP.new, hP.pinned, (isAlive_storeValue w T n v P).trans hP.alive, fun hb => hP.unbuilt ((hbuilt P).1 hb)⟩

/-- A collection of an instance under construction gets the items that it has been prepared for. -/
theorem Loan.setItems {is : List InstanceId} (h : w₀.Loan loose (Function.update w.occupants (.sequence k) is) w)
    (htended : w₀.Tended w) (hk : ¬ w₀.KnowsColl k) (hx : w.coll? k = some x) (halive : w.isAlive x.owner = true) :
    w₀.Underway loose (w.setItems k is) ∧ w₀.Passes w (w.setItems k is) := by
  have hs : w.SameRecords (w.setItems k is) := .modifyCollection w k fun _ => rfl
  have hocc : (w.setItems k is).occupants = Function.update w.occupants (.sequence k) is := by
    funext pl
    cases pl with
    | slot P name => rw [Function.update_of_ne (by intro h; cases h)]; rfl
    | sequence d =>
      change (w.setItems k is).itemsOf d = _
      rw [itemsOf_setItems hx]
      by_cases hd : d = k
      · subst hd
        rw [if_pos rfl, Function.update_self]
      · rw [if_neg hd, Function.update_of_ne fun h => hd (Place.sequence.inj h)]
        rfl
  refine ⟨⟨?_, fun d y hd hy hne => ?_⟩, hs.passes (List.Subset.refl _) fun _ _ hT => hT⟩
  · rw [hocc]
    exact h.congr (h.toRetains.modifyCollection hk _) hs.shape (h.drafts.congr hs.shape hs.values) rfl
      (fun _ hb => hb) fun _ => rfl
  · by_cases hdk : d = k
    · subst hdk
      obtain ⟨z, hz, hshape⟩ := hs.shape.exists_coll' hy
      obtain rfl := Option.some.inj (hz.symm.trans hx)
      have howner : y.owner = z.owner := congrArg (·.2.2) hshape
      exact howner ▸ halive
    · have hy' : w.coll? d = some y := (coll?_modifyCollection_of_ne w _ (Ne.symm hdk)).symm.trans hy
      exact htended d y hd hy' hne

/-! ## Primitive writes -/

/-- From a world on loan in which an instance of the class is under construction, the change leads to another. -/
def Carries (w₀ : World) (loose : Place → InstanceId → Prop) (T : InstanceId) (c : Class) (w w' : World) :
    Prop :=
  w₀.Underway loose w → w₀.Busy w T c → w₀.Underway loose w' ∧ w₀.Passes w w'

instance : IsPreorder World (Carries w₀ loose T c) where
  refl _ hu _ := ⟨hu, .rfl⟩
  trans _ _ _ h h' hu hT := by
    obtain ⟨hu₁, hp⟩ := h hu hT
    obtain ⟨hu₂, hp'⟩ := h' hu₁ (hT.passes hp)
    exact ⟨hu₂, hp.trans hp'⟩

theorem bears_carries (hw₀ : w₀.Resting) : Bears (Carries w₀ loose T c) T c where
  formed w w' h hu hT := by
    obtain ⟨x, view, hx, -, hf⟩ := hu.exists_record hT.toWorking hT.cls
    exact h x view hx hf hu hT
  render w f hf hu _ := by
    have hstill : w₀.Still w (w.mapScreen f) := .mapScreen hf
    exact ⟨hstill.underway hu, hstill.passes⟩
  store w n p types v hp hk hv hu hT := by
    obtain ⟨x, view, hx, -, hf⟩ := hu.exists_record hT.toWorking hT.cls
    have hnone : v.inst? = none := by
      cases v <;> first | rfl | cases hv
    refine Loan.storeValue hw₀ ?_ hu.tended hT hx hf hp (fun element hs => ?_) fun s old hold => ?_
    · rw [hnone, Option.toList_none, ← hf.occupants_primitive hx hp (hu.valid hw₀ hT) hk,
        Function.update_eq_self]
      exact hu.toLoan
    · rw [hk] at hs
      cases hs
    · rw [hk] at hold ⊢
      cases hold with
      | primitive => exact .primitive hv

/-! ## Children -/

open Run

/-- A child, or none, is attached next to the occupants of a place of an instance under construction. -/
theorem Underway.attach_child (hu : w₀.Underway tight w) (hw₀ : w₀.Resting) (hT : w₀.Busy w T c)
    {a : Attachment} (hpl : ¬ w₀.KnowsPlace a.place) (howner : w.ownerOf? a.place = some T)
    {child : Option InstanceId} (hchild : ∀ j ∈ child, w₀.Whole w j ∧ j ∉ w.occupants a.place) (anchor : NodeId) :
    (∃ w₁, (child.forM fun j => attachAfter j anchor a) w = (.ok (), w₁) ∧ w.Moved w₁ ∧
        w₀.Loan tight (Function.update w.occupants a.place (w.occupants a.place ++ child.toList)) w₁) ∨
      ∃ e w₁, (child.forM fun j => attachAfter j anchor a) w = (.error e, w₁) ∧ w.Moved w₁ ∧
        w₀.Loan tight w.occupants w₁ := by
  cases child with
  | none =>
    refine Or.inl ⟨w, rfl, .rfl, ?_⟩
    rw [Option.toList_none, List.append_nil, Function.update_eq_self]
    exact hu.toLoan
  | some j =>
    obtain ⟨hwhole, hnot⟩ := hchild j rfl
    rcases attachAfter_outcome j anchor a w with ⟨r, hfree, hr, hrun⟩ | ⟨e, g, hrun, hsize, hlinks⟩
    · refine Or.inl ⟨_, hrun, .reattach w j (some a) _, ?_⟩
      have hledger : w₀.Ledger (looseAt a.place [j]) w.attachment?
          (Function.update w.occupants a.place (w.occupants a.place ++ [j])) := by
        refine hu.ledger.put ?_ (fun k _ _ _ hk => List.mem_append_left _ hk) (fun k hk => ?_)
          fun _ _ _ hl => hl.elim
        · refine List.nodup_append.2 ⟨hu.ledger.nodup _ hpl, List.nodup_singleton j, fun k hk l hl => ?_⟩
          rintro rfl
          exact hnot (List.mem_singleton.1 hl ▸ hk)
        · rcases List.mem_append.1 hk with hk | hk
          · exact Or.inl ((hu.ledger.stands _ k hpl hk).resolve_right fun hl => hl.2)
          · rw [List.mem_singleton.1 hk]
            exact Or.inr ⟨hfree, rfl, List.mem_singleton_self j⟩
      have hput := hu.toLoan.put hledger hT.not_whole howner fun k hk => by
        refine (List.mem_append.1 hk).imp_right fun hk => ?_
        rw [List.mem_singleton.1 hk]
        exact ⟨hwhole, r, hr⟩
      refine hput.taken_in hw₀.toClosed hfree hpl ?_ (fun p _ _ hl => hl.1) (fun p k hne hl => ?_) hr anchor
      · rw [Function.update_self]
        exact List.mem_append_right _ (List.mem_singleton_self j)
      · exact hne (List.mem_singleton.1 hl.2)
    · exact Or.inr ⟨e, _, hrun, .mapForest w _, hu.toLoan.uprooted hw₀.toClosed hsize hlinks⟩

/-- Some occupants of a place are released, and the others stay. -/
theorem Loan.release_occupants {occ : Place → List InstanceId} (h : w₀.Loan tight occ w) (hw₀ : w₀.Resting)
    (hT : w₀.Busy w T c) {pl : Place} (hpl : ¬ w₀.KnowsPlace pl) (howner : w.ownerOf? pl = some T)
    {js is : List InstanceId} (hocc : (js ++ is).Perm (occ pl)) :
    ∃ w', js.forM Run.release w = (.ok (), w') ∧ w.Moved w' ∧ w₀.Loan tight (Function.update occ pl is) w' ∧
      ∀ j, w.attachment? j = none ∨ j ∈ js → w'.attachment? j = none := by
  obtain ⟨hjs, his, hdisj⟩ := List.nodup_append.1 (hocc.nodup_iff.2 (h.ledger.nodup pl hpl))
  have hin : ∀ j ∈ js, j ∈ occ pl ∧ j ∉ ([] : List InstanceId) := fun j hj =>
    ⟨hocc.subset (List.mem_append_left _ hj), List.not_mem_nil⟩
  obtain ⟨w', hrun, hmoved, hloan, hfree⟩ := Loan.forM_release hw₀.toClosed hpl hin hjs (h.mono fun _ _ hl => hl.elim)
  rw [List.append_nil] at hloan
  refine ⟨w', hrun, hmoved, hloan.put ?_ (hT.passes hmoved.passes).not_whole ?_ fun j hj => Or.inl ?_, hfree⟩
  · refine hloan.ledger.put his (fun j a ha _ hmem => ?_) (fun j hj => Or.inl ?_) fun p j hne hl => hne hl.1
    · rcases List.mem_append.1 (hocc.symm.subset hmem) with hj | hj
      · rw [hfree j (Or.inr hj)] at ha
        cases ha
      · exact hj
    · refine (hloan.ledger.stands pl j hpl (hocc.subset (List.mem_append_right _ hj))).resolve_right fun hl => ?_
      exact hdisj j hl.2.2 j hj rfl
  · rw [ownerOf?_congr hmoved.records.shape]
    exact howner
  · exact hocc.subset (List.mem_append_right _ hj)

end World

namespace Run

open World

theorem Lends.of_carries {m : Run α} (hm : Keeps (Carries w₀ loose T c) m) (hu : w₀.Underway loose w)
    (hT : w₀.Busy w T c) : Lends w₀ loose m w fun _ _ => True := by
  obtain ⟨hu', hp⟩ := hm w hu hT
  exact ⟨hp, fun _ _ => ⟨hu', trivial⟩, fun _ _ => hu'.slack⟩

/-- Writing an attribute of a new instance changes nothing that a loan sees. -/
theorem still_setAttribute (hT : ¬ w₀.Knows T) (name : String) (v : Value) :
    Keeps (Still w₀) (setAttribute T name v) := by
  refine (keeps_attributeIndex T name).bind fun n => (keeps_theClassOf T).bind fun c => ?_
  refine (keeps_ofOption _).bind fun a => (keeps_ofExcept _).bind fun _ => ?_
  refine (keeps_theView T).bind fun view w => ?_
  have hrender : w₀.Still w (w.renderIn c (view.attributeNodes[n]?.getD []) (.attr name) v.outputText) :=
    .mapScreen (Screen.sameLinks_render _ _ _ _ _)
  have hset (w : World) : w₀.Still w (w.mapForest fun f => f.setAttr view.root (dataName name) v.outputText) :=
    .mapScreen (Forest.sameLinks_setAttr _ _ _ _)
  exact IsTrans.trans _ _ _ hrender (IsTrans.trans _ _ _ (hset _) (.storeAttr hT n v))

theorem still_setAttributes (hT : ¬ w₀.Knows T) (values : Dict String Value) :
    Keeps (Still w₀) (setAttributes T values) := by
  refine Keeps.bind (Keeps.forM (fun e => ?_) _) fun _ => Keeps.forM (fun e => ?_) _
  · exact (keeps_attributeIndex T e.1).bind fun _ => keeps_pure _
  · exact still_setAttribute hT e.1 e.2

/-! ## Slots -/

theorem forM_toList (f : α → Run Unit) (o : Option α) : o.toList.forM f = o.forM f := by
  cases o with
  | none => rfl
  | some a =>
    change (f a >>= fun _ => pure ()) = f a
    exact bind_pure_unit

/-- A child, or none, goes into a slot of an instance under construction. -/
theorem lends_replaceChild (hw₀ : w₀.Resting) (hu : w₀.Underway tight w) (hT : w₀.Busy w T c)
    (hp : c.descriptor.properties[n]? = some p)
    (hk : p.kind = .slot element) {child : Option InstanceId} (hchild : ∀ j ∈ child, w₀.Whole w j) :
    Lends w₀ tight (replaceChild T n p.name child) w fun _ _ => True := by
  obtain ⟨x, view, hx, -, hf⟩ := hu.exists_record hT.toWorking hT.cls
  obtain ⟨anchor, sink, old, hsite, hold, hocc, -⟩ := hf.exists_slot hx hp (hu.valid hw₀ hT) hT.alive hk
  have hpl : ¬ w₀.KnowsPlace (.slot T p.name) := hT.new
  unfold replaceChild
  refine .bind_same (theInstance_of hx) ?_
  rw [hold]
  refine .bind_same (ofOption_some _ _) ?_
  dsimp only
  split
  · exact .pure hu trivial
  · next htest =>
    refine .bind_same (theView_of hx hf.view) ?_
    rw [hsite]
    dsimp only
    have hout (j : InstanceId) (hj : j ∈ child) : j ∉ w.occupants (.slot T p.name) := by
      obtain rfl := hj
      rw [hocc]
      intro hmem
      refine htest ?_
      rw [Option.mem_toList.1 hmem, Option.isSome_some, Bool.true_and]
      exact beq_self_eq_true _
    rcases hu.attach_child (a := ⟨.slot T p.name, sink⟩) hw₀ hT hpl rfl
      (fun j hj => ⟨hchild j hj, hout j hj⟩) anchor with
      ⟨w₁, hrun₁, hmoved₁, hloan₁⟩ | ⟨e, w₁, hrun₁, hmoved₁, hloan₁⟩
    · have hT₁ := hT.passes hmoved₁.passes
      have hperm : (old.inst?.toList ++ child.toList).Perm
          (Function.update w.occupants (.slot T p.name) (w.occupants (.slot T p.name) ++ child.toList)
            (.slot T p.name)) := by
        rw [Function.update_self, hocc]
      obtain ⟨w₂, hrun₂, hmoved₂, hloan₂, -⟩ := hloan₁.release_occupants hw₀ hT₁ hpl rfl hperm
      have hmoved := hmoved₁.trans hmoved₂
      have hT₂ := hT.passes hmoved.passes
      obtain ⟨y, view', hy, -, hf'⟩ := hloan₂.exists_record hT₂.toWorking hT₂.cls
      have hprepared : w₀.Loan tight (Function.update w₂.occupants (.slot T p.name)
          ((child.map Value.inst).getD .null).inst?.toList) w₂ := by
        have hchildren : ((child.map Value.inst).getD .null).inst?.toList = child.toList := by
          cases child <;> rfl
        rw [hchildren, hmoved.occupants, ← Function.update_idem]
        exact hloan₂
      have hfit (s : Site) (old : Value) (hfits : w₂.Fits T p.kind s old) :
          w₂.Fits T p.kind s ((child.map Value.inst).getD .null) := by
        rw [hk] at hfits ⊢
        cases child with
        | none => cases hfits <;> exact .empty
        | some j => cases hfits <;> exact .child
      obtain ⟨hu₃, hpass⟩ := hprepared.storeValue hw₀ (hmoved.tended hu.tended) hT₂ hy hf' hp
        (fun element hs => by rw [hk] at hs; cases hs) hfit
      refine .of_ok (a := ()) ?_ (hmoved.passes.trans hpass) hu₃ trivial
      rw [forM_toList] at hrun₂
      rw [bind_of_ok hrun₁, bind_of_ok hrun₂, update_apply]
    · exact .of_error (bind_of_error hrun₁) hmoved₁.passes (hmoved₁.underway hu hloan₁)

/-! ## Splices -/

/-- Loose ends of one place are attached in order. -/
theorem lends_attachInOrder (hw₀ : w₀.Resting) {a : Attachment} (hpl : ¬ w₀.KnowsPlace a.place)
    (previous : NodeId) {is : List InstanceId} (his : ∀ i ∈ is, i ∈ w.occupants a.place)
    (hu : w₀.Underway (looseAt a.place is) w) :
    Lends w₀ tight (attachInOrder a previous is) w fun _ _ => True := by
  induction is generalizing w previous with
  | nil => exact .pure (hu.mono fun _ _ hl => List.not_mem_nil hl.2) trivial
  | cons i is ih =>
    unfold attachInOrder
    rcases hu.toLoan.attachAfter hw₀.toClosed hpl (his i List.mem_cons_self) previous with
      ⟨w₁, hrun, hmoved, hloan⟩ | ⟨e, w₁, hrun, hmoved, hloan⟩
    · refine .after hrun hmoved.passes ?_
      have hu₁ := hmoved.underway hu hloan
      refine .bind_read (keeps_theRoot (R := Eq) i w₁).symm hu₁ fun r _ => ih r (fun j hj => ?_) hu₁
      rw [hmoved.occupants]
      exact his j (List.mem_cons_of_mem _ hj)
    · exact .of_error (bind_of_error hrun) hmoved.passes (hmoved.underway hu (hloan _ _ hu.toLoan))

/-- A stretch of the items of a new collection is replaced by instances that are finished. -/
theorem lends_spliceItems (hw₀ : w₀.Resting) (hu : w₀.Underway tight w) (hT : w₀.Busy w T c)
    (hk : ¬ w₀.KnowsColl k) (hx : w.coll? k = some x) (howner : x.owner = T) (coll : Collection)
    (start count : Nat) {inserted : List InstanceId} (hinserted : ∀ i ∈ inserted, w₀.Whole w i) :
    Lends w₀ tight (spliceItems k coll start count inserted) w fun removed w' => ∀ i ∈ removed, w₀.Whole w' i := by
  have hpl : ¬ w₀.KnowsPlace (.sequence k) := hk
  have hownerOf : w.ownerOf? (.sequence k) = some T := by
    change (w.coll? k).map (·.owner) = _
    rw [hx, ← howner]
    rfl
  unfold spliceItems
  refine .bind_same (ask_apply _ _) ?_
  generalize hitems : w.itemsOf k = items
  rcases checkInserted_cases coll.anchor ((items.drop start).take count) [] inserted w with
    ⟨e, hcheck⟩ | ⟨hcheck, hnodup, hall⟩
  · exact .of_error (bind_of_error hcheck) .rfl hu
  · refine .bind_same hcheck ?_
    generalize hremoved : (items.drop start).take count = removed at hall
    have hsplit : (removed ++ (items.take start ++ items.drop (start + count))).Perm items := by
      refine (List.perm_append_comm_assoc _ _ _).trans (.of_eq ?_)
      rw [← hremoved, ← List.drop_drop, List.take_append_drop, List.take_append_drop]
    have hspliced : (spliced items start count inserted).Perm
        (inserted ++ (items.take start ++ items.drop (start + count))) := by
      unfold spliced
      rw [List.append_assoc]
      exact List.perm_append_comm_assoc _ _ _
    generalize items.take start ++ items.drop (start + count) = kept at hsplit hspliced
    have hocc : (removed ++ kept).Perm (w.occupants (.sequence k)) := by
      change (removed ++ kept).Perm (w.itemsOf k)
      rw [hitems]
      exact hsplit
    obtain ⟨w₁, hrun, hmoved, hloan, hfree⟩ := hu.toLoan.release_occupants hw₀ hT hpl hownerOf hocc
    refine .after hrun hmoved.passes ?_
    have hT₁ := hT.passes hmoved.passes
    have hx₁ : w₁.coll? k = some x := (hmoved.coll? k).trans hx
    have hkept (j : InstanceId) (hj : j ∈ kept) : ∃ a, w₁.attachment? j = some a ∧ a.place = .sequence k := by
      refine (hloan.ledger.stands _ j hpl ?_).resolve_right fun hl => hl.2
      rw [Function.update_self]
      exact hj
    have hentering (j : InstanceId) (hj : j ∈ inserted) : w₁.attachment? j = none := hfree j (hall j hj).2.1
    -- from here on the new items count as occupants, and are loose ends until they are attached
    have hledger : w₀.Ledger (looseAt (.sequence k) inserted) w₁.attachment?
        (Function.update (Function.update w.occupants (.sequence k) kept) (.sequence k)
          (spliced items start count inserted)) := by
      refine hloan.ledger.put ?_ (fun j _ _ _ hj => ?_) (fun j hj => ?_) fun _ _ _ hl => hl.elim
      · refine hspliced.nodup_iff.2 (List.nodup_append.2 ⟨hnodup, ?_, fun i hi j hj => ?_⟩)
        · have hnd := hloan.ledger.nodup _ hpl
          rw [Function.update_self] at hnd
          exact hnd
        · rintro rfl
          obtain ⟨a, ha, -⟩ := hkept i hj
          rw [hentering i hi] at ha
          cases ha
      · rw [Function.update_self] at hj
        exact hspliced.symm.subset (List.mem_append_right _ hj)
      · rcases List.mem_append.1 (hspliced.subset hj) with hj | hj
        · exact Or.inr ⟨hentering j hj, rfl, hj⟩
        · exact Or.inl (hkept j hj)
    have hput := hloan.put hledger hT₁.not_whole ((ownerOf?_congr hmoved.records.shape _).trans hownerOf)
      fun j hj => by
        rw [Function.update_self]
        refine (List.mem_append.1 (hspliced.subset hj)).symm.imp_right fun hj => ⟨?_, ?_⟩
        · exact (hinserted j hj).lasts hmoved.records.lasts
        · rw [hmoved.records.shape.rootOf?]
          exact (hall j hj).2.2
    rw [Function.update_idem, ← hmoved.occupants] at hput
    obtain ⟨hu₂, hpass⟩ := hput.setItems (hmoved.tended hu.tended) hk hx₁ (howner ▸ hT₁.alive)
    refine .after (update_apply _ _) hpass ?_
    have hgone (i : InstanceId) (hi : i ∈ removed) : w₀.Whole w i :=
      hu.whole _ i hpl (hocc.subset (List.mem_append_left _ hi))
    refine .bind_read (keeps_nodeBefore (R := Eq) _ _ _ _).symm hu₂ fun anchor _ => ?_
    refine (lends_attachInOrder hw₀ (a := ⟨.sequence k, coll.sink⟩) hpl anchor (fun i hi => ?_) hu₂).bind
      fun _ w' hu' hp' _ => .pure hu' fun i hi => ?_
    · change i ∈ (w₁.setItems k (spliced items start count inserted)).itemsOf k
      rw [itemsOf_setItems hx₁, if_pos rfl]
      exact hspliced.symm.subset (List.mem_append_left _ hi)
    · exact (hgone i hi).lasts ((hmoved.passes.trans hpass).trans hp').toLasts

/-! ## Coercion -/

section Coercion

variable {cb : Callbacks} {able : ClassId → Prop} (hcb : cb.Lending w₀ able)
  (hable : ∀ ref, element = .ofClass ref → able ref.id)

include hcb hable

theorem lends_coerce {v : Value} (hu : w₀.Underway tight w) (hv : w₀.Fit w v) :
    Lends w₀ tight (coerce cb element v) w fun i w' => w₀.Whole w' i := by
  cases v with
  | inst i =>
    cases hacc : w.accepts element i with
    | true => exact .of_ok (coerce_inst hacc) .rfl hu (hv i (List.mem_singleton_self i))
    | false => exact .of_error (coerce_inst_refused hacc) .rfl hu
  | object fields =>
    cases element with
    | any => exact .fail _ hu
    | ofClass ref =>
      refine (hcb ref.id (some (.object fields)) w (hable ref rfl) hu fun v hv' => ?_).imp fun _ => Or.inr
      obtain rfl := Option.some.inj hv'
      exact hv
  | _ => exact .fail _ hu

theorem lends_coerceAll {vs : List Value} (hu : w₀.Underway tight w) (hvs : ∀ v ∈ vs, w₀.Fit w v) :
    Lends w₀ tight (coerceAll cb element vs) w fun is w' => ∀ i ∈ is, w₀.Whole w' i := by
  induction vs generalizing w with
  | nil => exact .pure hu fun i hi => by cases hi
  | cons v vs ih =>
    refine (lends_coerce hcb hable hu (hvs v List.mem_cons_self)).bind fun i w₁ hu₁ hp₁ hi => ?_
    refine (ih hu₁ fun v hv => (hvs v (List.mem_cons_of_mem _ hv)).lasts hp₁.toLasts).bind
      fun is w₂ hu₂ hp₂ his => .pure hu₂ fun j hj => ?_
    rcases List.mem_cons.1 hj with rfl | hj
    · exact hi.lasts hp₂.toLasts
    · exact his j hj

theorem lends_slotChild {v : Value} (hu : w₀.Underway tight w) (hv : w₀.Fit w v) :
    Lends w₀ tight (slotChild cb element v) w fun child w' => ∀ j ∈ child, w₀.Whole w' j := by
  have hsome : Lends w₀ tight (some <$> coerce cb element v) w fun child w' => ∀ j ∈ child, w₀.Whole w' j :=
    (lends_coerce hcb hable hu hv).map some fun i w' hi j hj => by
      obtain rfl := Option.some.inj hj
      exact hi
  cases v with
  | null => exact .pure hu fun j hj => by cases hj
  | _ => exact hsome

end Coercion

/-! ## Writing properties -/

section Properties

variable {cb : Callbacks} {able : ClassId → Prop} (hw₀ : w₀.Resting) (hcb : cb.Lending w₀ able)

include hw₀ hcb

/-- A stretch of the items of a collection of an instance under construction is replaced. -/
theorem lends_splice (hu : w₀.Underway tight w) (hT : w₀.Busy w T c) (hx : w.coll? k = some x)
    (howner : x.owner = T) (hable : ∀ ref, x.element = .ofClass ref → able ref.id) (start count : Nat)
    {vs : List Value} (hvs : ∀ v ∈ vs, w₀.Fit w v) :
    Lends w₀ tight (splice cb k start count vs) w fun removed w' => ∀ i ∈ removed, w₀.Whole w' i := by
  have hk := hu.not_knowsColl_of_owner hw₀.toClosed hx (howner ▸ hT.new)
  rw [splice_eq]
  refine Lends.keeping hw₀ (Q := fun removed w' => ∀ i ∈ removed, w₀.Whole w' i) ?_ hu.pins
    fun removed w' w'' hremoved hl i hi => (hremoved i hi).lasts hl
  unfold spliceBody
  refine .bind_same (get_apply w) (.bind_same (theCollection_of hx) ?_)
  refine (lends_coerceAll hcb hable hu hvs).bind fun inserted w₁ hu₁ hp₁ hinserted => ?_
  obtain ⟨y, hy, hshape⟩ := hp₁.toExtends.coll k x hx
  exact lends_spliceItems hw₀ hu₁ (hT.passes hp₁) hk hy ((congrArg (·.2.2) hshape).trans howner) x _ _ hinserted

theorem lends_replaceAll (hu : w₀.Underway tight w) (hT : w₀.Busy w T c) (hx : w.coll? k = some x)
    (howner : x.owner = T) (hable : ∀ ref, x.element = .ofClass ref → able ref.id) {vs : List Value}
    (hvs : ∀ v ∈ vs, w₀.Fit w v) :
    Lends w₀ tight (replaceAll cb k vs) w fun removed w' => ∀ i ∈ removed, w₀.Whole w' i :=
  .bind_same (ask_apply _ w) (lends_splice hw₀ hcb hu hT hx howner hable 0 _ hvs)

theorem lends_setSlot (hu : w₀.Underway tight w) (hT : w₀.Busy w T c)
    (hp : c.descriptor.properties[n]? = some p) (hk : p.kind = .slot element)
    (hable : ∀ ref, element = .ofClass ref → able ref.id) {v : Value} (hv : w₀.Fit w v) :
    Lends w₀ tight (setSlot cb T n p.name element v) w fun _ _ => True := by
  refine Lends.inScope hw₀ ?_ hu.pins fun _ _ _ _ _ => trivial
  exact (lends_slotChild hcb hable hu hv).bind fun child w' hu' hp' hchild =>
    lends_replaceChild hw₀ hu' (hT.passes hp') hp hk hchild

theorem lends_setSequence (hu : w₀.Underway tight w) (hT : w₀.Busy w T c)
    (hp : c.descriptor.properties[n]? = some p) (hk : p.kind = .sequence element)
    (hable : ∀ ref, element = .ofClass ref → able ref.id) {v : Value} (hv : w₀.Fit w v) :
    Lends w₀ tight (setSequence cb T n v) w fun _ _ => True := by
  obtain ⟨y, view, hy, -, hf⟩ := hu.exists_record hT.toWorking hT.cls
  obtain ⟨k, x, hsite, -, hx, howner, rfl⟩ := hf.exists_sequence hp hk
  refine Lends.inScope hw₀ (.bind_same (theView_of hy hf.view) ?_) hu.pins fun _ _ _ _ _ => trivial
  rw [hsite]
  have hreplace {vs : List Value} (hvs : ∀ v ∈ vs, w₀.Fit w v) :
      Lends w₀ tight (replaceAll cb k vs >>= fun _ => pure ()) w fun _ _ => True :=
    (lends_replaceAll hw₀ hcb hu hT hx howner hable hvs).bind fun _ _ hu' _ _ => .pure hu' trivial
  cases v with
  | array items =>
    exact hreplace fun v hv' j hj => hv j (Value.instances_subset_items hv' hj)
  | coll other =>
    dsimp only
    split
    · refine .bind_same (ask_apply _ w) (hreplace fun v hv' j hj => ?_)
      obtain ⟨i, hi, rfl⟩ := List.mem_map.1 hv'
      rw [List.mem_singleton.1 hj]
      exact hu.whole_item hw₀.toClosed hi
    · exact .pure hu trivial
  | _ => exact .fail _ hu

section

variable (hable : ∀ p ∈ c.descriptor.properties, ∀ id, p.kind.Makes id → able id)

include hable

/-- A property of an instance under construction is written. -/
theorem lends_setProperty (hu : w₀.Underway tight w) (hT : w₀.Busy w T c) (name : String) {v : Value}
    (hv : w₀.Fit w v) : Lends w₀ tight (setProperty cb T name v) w fun _ _ => True := by
  obtain ⟨x, view, hx, -, hf⟩ := hu.exists_record hT.toWorking hT.cls
  refine .bind_read (keeps_propertyIndex (R := Eq) T name w).symm hu fun n hn => ?_
  obtain ⟨⟨y, d, hy, hd, hindex⟩, -⟩ := propertyIndex_eq_ok hn
  obtain rfl := Option.some.inj (hy.symm.trans hx)
  obtain rfl := Option.some.inj (hd.symm.trans hf.cls)
  obtain ⟨p, hp, rfl⟩ := Descriptor.propertyIndex?_some hindex
  have hmakes := hable p (List.mem_of_getElem? hp)
  refine .bind_same (theClassOf_of hx hf.cls) ?_
  rw [hp]
  refine .bind_same (ofOption_some _ w) ?_
  cases hk : p.kind with
  | primitive types =>
    exact .of_carries ((bears_carries hw₀).keeps_setPrimitive (hu.valid hw₀ hT) hp hk v) hu hT
  | slot element =>
    refine lends_setSlot hw₀ hcb hu hT hp hk (fun ref href => hmakes ref.id ?_) hv
    rw [hk, href]
    rfl
  | sequence element =>
    refine lends_setSequence hw₀ hcb hu hT hp hk (fun ref href => hmakes ref.id ?_) hv
    rw [hk, href]
    rfl

theorem lends_assign (hu : w₀.Underway tight w) (hT : w₀.Busy w T c) {v : Value} (hv : w₀.Fit w v) :
    Lends w₀ tight (assign cb T v) w fun _ _ => True := by
  cases v with
  | object fields =>
    refine .bind_read (keeps_checkKnown (R := Eq) T fields w).symm hu fun _ _ => ?_
    refine (Lends.forM (I := fun w => w₀.Busy w T c ∧ w₀.Fit w (.object fields)) hu ⟨hT, hv⟩
      fun e he w hu ⟨hT, hv⟩ => ?_).imp fun _ _ => trivial
    have hfit : w₀.Fit w e.2 := fun j hj => hv j (Value.instances_subset_fields he hj)
    have hset := lends_setProperty hw₀ hcb hable hu hT e.1 hfit
    exact hset.imp fun _ _ => ⟨hT.passes hset.passes, hv.lasts hset.passes.toLasts⟩
  | _ => exact .fail _ hu

end

end Properties

end Run

end ReactiveView
