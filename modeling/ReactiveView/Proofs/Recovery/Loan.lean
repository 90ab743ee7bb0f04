import ReactiveView.Proofs.Recovery.Ledger
import ReactiveView.Proofs.Ownership.Write
import ReactiveView.Proofs.Typing.Sound

/-!
# Worlds on loan

Seen from the world as it was before, a world in which instances are under construction is *on loan*
(`World.Loan`): what was there is as it was up to attachments (`World.Retains`), what is new has records that fit
its classes (`World.Drafts`), the ledger is kept, and no instance stands in a new place of an instance that
stands in a new place of itself. Whoever occupies a new place was there before or is fully constructed; so an
instance under construction is nobody's child, and taking in children closes no circle
(`transGen_of_into`).

The occupants in these statements are a parameter. Where the program records an instance in a place before it
stores it there, the occupants are ahead of what is stored; otherwise they are `World.occupants`.
-/

set_option autoImplicit false

namespace ReactiveView

open Relation

/-- A relation that is extended only into elements with no way out has no new ways between elements with one. -/
theorem transGen_of_into {α : Type} {r r' : α → α → Prop}
    (h : ∀ a b, r' a b → (∃ c, r' b c) → r a b) {a b : α} (hab : TransGen r' a b) (hb : ∃ c, r' b c) :
    TransGen r a b := by
  induction hab with
  | single hab => exact .single (h _ _ hab hb)
  | tail _ hbc ih => exact (ih ⟨_, hbc⟩).tail (h _ _ hbc hb)

/-- So it has no circles if there were none. -/
theorem acyclic_of_into {α : Type} {r r' : α → α → Prop} (hr : ∀ a, ¬ TransGen r a a)
    (h : ∀ a b, r' a b → (∃ c, r' b c) → r a b) (a : α) : ¬ TransGen r' a a := by
  intro ha
  obtain ⟨b, hab, -⟩ := TransGen.head'_iff.1 ha
  exact hr a (transGen_of_into h ha ⟨b, hab⟩)

namespace Forest

variable {f : Forest} {m n p q a : NodeId}

/-- A node that cannot be put somewhere is taken out of its place at most. -/
theorem recorded?_insertAfter_of_error {e : Error} (he : (f.insertAfter a n).1 = .error e) :
    (f.insertAfter a n).2.recorded? n = f.recorded? n ∨ (f.insertAfter a n).2.recorded? n = none := by
  unfold insertAfter at he ⊢
  split
  · exact Or.inl rfl
  · next hp =>
    rw [hp] at he
    dsimp only at he ⊢
    split
    · exact Or.inr (recorded?_unlink_self f n)
    · next hi =>
      rw [hi] at he
      cases he

end Forest

namespace World

variable {w₀ w w' : World} {loose loose' : Place → InstanceId → Prop} {occ : Place → List InstanceId}
  {i j P T : InstanceId} {pl : Place}

/-! ## What was there -/

/-- What was there is as it was, up to attachments. -/
structure Retains (w₀ w : World) : Prop where
  classes : w.classes = w₀.classes
  spaces : w.spaces = w₀.spaces
  registry : w.registry = w₀.registry
  pins : w₀.pins ⊆ w.pins
  size : w₀.forest.size ≤ w.forest.size
  inst : ∀ i x, w₀.inst? i = some x → ∃ a, w.inst? i = some { x with attachment := a }
  coll : ∀ c x, w₀.coll? c = some x → w.coll? c = some x

namespace Retains

theorem rfl : w.Retains w where
  classes := .refl _
  spaces := .refl _
  registry := .refl _
  pins := List.Subset.refl _
  size := Nat.le_refl _
  inst _ x h := ⟨x.attachment, h⟩
  coll _ _ h := h

variable (h : w₀.Retains w)

include h

/-- Only the screen, pins and the log may change, as long as no node is lost and no pin of before. -/
theorem of_same (hc : w'.classes = w.classes) (hn : w'.spaces = w.spaces) (hr : w'.registry = w.registry)
    (hi : w'.instances = w.instances) (hk : w'.collections = w.collections) (hpins : w₀.pins ⊆ w'.pins)
    (hsize : w'.forest.size = w.forest.size) : w₀.Retains w' where
  classes := hc.trans h.classes
  spaces := hn.trans h.spaces
  registry := hr.trans h.registry
  pins := hpins
  size := hsize ▸ h.size
  inst i x hx := by
    unfold inst?
    rw [hi]
    exact h.inst i x hx
  coll c x hx := by
    unfold coll?
    rw [hk]
    exact h.coll c x hx

theorem mapForest {g : Forest → Forest} (hg : (g w.forest).size = w.forest.size) :
    w₀.Retains (w.mapForest g) :=
  h.of_same (.refl _) (.refl _) (.refl _) (.refl _) (.refl _) h.pins hg

theorem modifyInstance (i : InstanceId) {f : Instance → Instance}
    (hf : w₀.Knows i → ∀ x, ∃ a, f x = { x with attachment := a }) : w₀.Retains (w.modifyInstance i f) where
  classes := h.classes
  spaces := h.spaces
  registry := h.registry
  pins := h.pins
  size := h.size
  inst j x hx := by
    obtain ⟨a, ha⟩ := h.inst j x hx
    by_cases hij : i = j
    · subst hij
      obtain ⟨b, hb⟩ := hf (knows_of_inst? hx) { x with attachment := a }
      refine ⟨b, ?_⟩
      rw [inst?_modifyInstance_self, ha, Option.map_some, hb]
    · exact ⟨a, (inst?_modifyInstance_of_ne w f hij).trans ha⟩
  coll := h.coll

theorem setAttachment (i : InstanceId) (a : Option Attachment) : w₀.Retains (w.setAttachment i a) :=
  h.modifyInstance i fun _ _ => ⟨a, .refl _⟩

theorem modifyCollection {c : CollectionId} (hc : ¬ w₀.KnowsColl c) (f : Collection → Collection) :
    w₀.Retains (w.modifyCollection c f) where
  classes := h.classes
  spaces := h.spaces
  registry := h.registry
  pins := h.pins
  size := h.size
  inst := h.inst
  coll d x hx := by
    have hne : c ≠ d := by
      rintro rfl
      exact hc (index_lt_of_coll? hx)
    exact (coll?_modifyCollection_of_ne w f hne).trans (h.coll d x hx)

end Retains

/-! ## What is new -/

/-- The records of new instances fit their classes, their roots are new, and new collections belong to new
instances. -/
structure Drafts (w₀ w : World) : Prop where
  formed : ∀ P x, ¬ w₀.Knows P → w.inst? P = some x → ∃ c v, w.Formed P x c v
  root : ∀ P r, ¬ w₀.Knows P → w.rootOf? P = some r → w₀.forest.size ≤ r.index
  owned : ∀ c x, ¬ w₀.KnowsColl c → w.coll? c = some x → ¬ w₀.Knows x.owner ∧
    ∃ y, w.inst? x.owner = some y ∧ Value.coll c ∈ y.values

namespace Drafts

variable (h : w₀.Drafts w)

include h

theorem congr (hs : w.SameShape w') (hvalues : ∀ i, (w'.inst? i).map (·.values) = (w.inst? i).map (·.values)) :
    w₀.Drafts w' where
  formed P y hP hy := by
    obtain ⟨x, hx, hshape⟩ := hs.exists_inst' hy
    obtain ⟨c, v, hf⟩ := h.formed P x hP hx
    have hval := hvalues P
    rw [hx, hy] at hval
    exact ⟨c, v, hf.congr (Extends.of_sameShape hs) hshape (Option.some.inj hval)⟩
  root P r hP hr := h.root P r hP ((hs.rootOf? P).symm.trans hr)
  owned c y hc hy := by
    obtain ⟨x, hx, hshape⟩ := hs.exists_coll' hy
    have howner : y.owner = x.owner := congrArg (·.2.2) hshape
    obtain ⟨hP, z, hz, hmem⟩ := h.owned c x hc hx
    have hval := hvalues x.owner
    rw [hz] at hval
    obtain ⟨z', hz', hzz⟩ := Option.map_eq_some_iff.1 hval
    rw [howner]
    exact ⟨hP, z', hz', hzz ▸ hmem⟩

/-- A new instance stores another value. -/
theorem storeValue {x : Instance} {c : Class} {view : View} {n : Nat} {p : PropertyDescriptor} {v : Value}
    (hx : w.inst? T = some x) (hf : w.Formed T x c view) (hp : c.descriptor.properties[n]? = some p)
    (hk : ∀ element, p.kind ≠ .sequence element)
    (hfit : ∀ s old, w.Fits T p.kind s old → w.Fits T p.kind s v) : w₀.Drafts (w.storeValue T n v) where
  formed P y hP hy := by
    by_cases hPT : P = T
    · subst hPT
      obtain rfl := Option.some.inj (hy.symm.trans (inst?_storeValue_self hx))
      exact ⟨c, view, hf.storeValue hp hfit⟩
    · rw [inst?_storeValue_of_ne w n v hPT] at hy
      obtain ⟨c', v', hf'⟩ := h.formed P y hP hy
      exact ⟨c', v', hf'.congr (Extends.of_sameShape (sameShape_storeValue w T n v)) rfl rfl⟩
  root P r hP hr := h.root P r hP (((sameShape_storeValue w T n v).rootOf? P).symm.trans hr)
  owned d y hd hy := by
    obtain ⟨hP, z, hz, hmem⟩ := h.owned d y hd hy
    refine ⟨hP, ?_⟩
    by_cases howner : y.owner = T
    · rw [howner] at hz ⊢
      obtain rfl := Option.some.inj (hz.symm.trans hx)
      exact ⟨_, inst?_storeValue_self hx, hf.coll_mem_storeValue hp hk hmem⟩
    · exact ⟨z, (inst?_storeValue_of_ne w n v howner).trans hz, hmem⟩

end Drafts

/-! ## The loan -/

theorem exists_inst_of_rootOf? {r : NodeId} (h : w.rootOf? i = some r) : ∃ x, w.inst? i = some x := by
  unfold rootOf? at h
  cases hx : w.inst? i with
  | none =>
    rw [hx] at h
    cases h
  | some x => exact ⟨x, rfl⟩

/-- The instance was there, or its construction has ended well. -/
def Whole (w₀ w : World) (i : InstanceId) : Prop := w₀.Knows i ∨ w.HasBuilt i

/-- The instance stands in a new place of another. -/
def LentTo (w₀ w : World) (occ : Place → List InstanceId) (i P : InstanceId) : Prop :=
  ∃ pl, ¬ w₀.KnowsPlace pl ∧ i ∈ occ pl ∧ w.ownerOf? pl = some P

/-- The node is the root of an instance that is recorded to stand in a new place. -/
def Outside (w₀ w : World) (n : NodeId) : Prop :=
  ∃ i a, w.attachment? i = some a ∧ ¬ w₀.KnowsPlace a.place ∧ w.rootOf? i = some n

/-- The node is the root of an instance that is recorded nowhere. -/
def RootsFree (w : World) (n : NodeId) : Prop := ∃ i, w.attachment? i = none ∧ w.rootOf? i = some n

/-- A world in which instances are under construction, seen from the world as it was before. -/
structure Loan (w₀ : World) (loose : Place → InstanceId → Prop) (occ : Place → List InstanceId) (w : World) :
    Prop extends Retains w₀ w where
  drafts : w₀.Drafts w
  ledger : w₀.Ledger loose w.attachment? occ
  whole : ∀ pl i, ¬ w₀.KnowsPlace pl → i ∈ occ pl → w₀.Whole w i
  rooted : ∀ pl i, ¬ w₀.KnowsPlace pl → i ∈ occ pl → ∃ r, w.rootOf? i = some r
  acyclic : ∀ i, ¬ TransGen (w₀.LentTo w occ) i i
  parents : ∀ n, n.index < w₀.forest.size → w.forest.recorded? n = w₀.forest.recorded? n ∨
    w₀.RootsFree n ∧ (w.forest.recorded? n = none ∨ w₀.Outside w n)

/-- At first nothing is lent. -/
theorem Loan.start (hocc : ∀ pl, ¬ w.KnowsPlace pl → occ pl = []) : w.Loan loose occ w where
  toRetains := .rfl
  drafts := by
    refine ⟨fun P x hP hx => absurd (knows_of_inst? hx) hP, fun P r hP hr => ?_, fun c x hc hx => ?_⟩
    · obtain ⟨x, hx⟩ := exists_inst_of_rootOf? hr
      exact absurd (knows_of_inst? hx) hP
    · exact absurd (index_lt_of_coll? hx) hc
  ledger := by
    refine ⟨fun _ => Or.inl rfl, fun pl i hpl hi => ?_, fun pl hpl => ?_⟩
    · rw [hocc pl hpl] at hi
      cases hi
    · rw [hocc pl hpl]
      exact List.nodup_nil
  whole pl i hpl hi := by
    rw [hocc pl hpl] at hi
    cases hi
  rooted pl i hpl hi := by
    rw [hocc pl hpl] at hi
    cases hi
  acyclic i hi := by
    obtain ⟨_, ⟨pl, hpl, hmem, -⟩, -⟩ := TransGen.head'_iff.1 hi
    rw [hocc pl hpl] at hmem
    cases hmem
  parents n _ := Or.inl rfl

namespace Loan

variable (h : w₀.Loan loose occ w)

include h

theorem mono (hloose : ∀ pl i, loose pl i → loose' pl i) : w₀.Loan loose' occ w :=
  { h with ledger := h.ledger.mono hloose }

/-- Records and links change, but neither who is recorded where nor who stands where. -/
theorem congr (hp : w₀.Retains w') (hs : w.SameShape w') (hdrafts : w₀.Drafts w')
    (hatt : w'.attachment? = w.attachment?) (hbuilt : ∀ i, w.HasBuilt i → w'.HasBuilt i)
    (hlinks : ∀ n, w'.forest.recorded? n = w.forest.recorded? n) : w₀.Loan loose occ w' where
  toRetains := hp
  drafts := hdrafts
  ledger := hatt ▸ h.ledger
  whole pl i hpl hi := (h.whole pl i hpl hi).imp_right (hbuilt i)
  rooted pl i hpl hi := by
    rw [hs.rootOf?]
    exact h.rooted pl i hpl hi
  acyclic := by
    have hlent : w₀.LentTo w' occ = w₀.LentTo w occ := by
      unfold LentTo
      simp only [ownerOf?_congr hs]
    rw [hlent]
    exact h.acyclic
  parents n hn := by
    rw [hlinks]
    refine (h.parents n hn).imp_right fun hfree => ⟨hfree.1, hfree.2.imp_right fun ⟨i, a, ha, hpl, hr⟩ => ?_⟩
    exact ⟨i, a, hatt ▸ ha, hpl, (hs.rootOf? i).trans hr⟩

/-- A place of an instance under construction gets other occupants. -/
theorem put {is : List InstanceId} (hledger : w₀.Ledger loose' w.attachment? (Function.update occ pl is))
    (hT : ¬ w₀.Whole w T) (howner : w.ownerOf? pl = some T)
    (his : ∀ j ∈ is, j ∈ occ pl ∨ w₀.Whole w j ∧ ∃ r, w.rootOf? j = some r) :
    w₀.Loan loose' (Function.update occ pl is) w := by
  have hmem (p : Place) (j : InstanceId) (hp : ¬ w₀.KnowsPlace p) (hj : j ∈ Function.update occ pl is p) :
      w₀.Whole w j ∧ ∃ r, w.rootOf? j = some r := by
    have hold (hj : j ∈ occ p) : w₀.Whole w j ∧ ∃ r, w.rootOf? j = some r :=
      ⟨h.whole p j hp hj, h.rooted p j hp hj⟩
    by_cases heq : p = pl
    · subst heq
      rw [Function.update_self] at hj
      rcases his j hj with hj | hj
      · exact hold hj
      · exact hj
    · rw [Function.update_of_ne heq] at hj
      exact hold hj
  refine ⟨h.toRetains, h.drafts, hledger, fun p j hp hj => (hmem p j hp hj).1,
    fun p j hp hj => (hmem p j hp hj).2, ?_, h.parents⟩
  -- `T` stands nowhere, so what it takes in closes no circle
  refine acyclic_of_into h.acyclic fun a b ⟨p, hp, ha, hb⟩ ⟨_, q, hq, hbq, _⟩ => ?_
  by_cases heq : p = pl
  · subst heq
    rw [howner] at hb
    obtain rfl := Option.some.inj hb
    exact absurd (hmem q _ hq hbq).1 hT
  · rw [Function.update_of_ne heq] at ha
    exact ⟨p, hp, ha, hb⟩

/-- New places where nobody is recorded are emptied. -/
theorem clear {occ' : Place → List InstanceId}
    (hocc : ∀ pl, ¬ w₀.KnowsPlace pl → (occ' pl = occ pl ∧ ∀ i, loose pl i → loose' pl i) ∨
      occ' pl = [] ∧ ∀ i ∈ occ pl, ∀ a, w.attachment? i = some a → a.place ≠ pl) :
    w₀.Loan loose' occ' w := by
  have hmem (pl : Place) (i : InstanceId) (hpl : ¬ w₀.KnowsPlace pl) (hi : i ∈ occ' pl) : i ∈ occ pl := by
    rcases hocc pl hpl with ⟨heq, -⟩ | ⟨hnil, -⟩
    · exact heq ▸ hi
    · rw [hnil] at hi
      cases hi
  refine ⟨h.toRetains, h.drafts, h.ledger.clear hocc, fun pl i hpl hi => h.whole pl i hpl (hmem pl i hpl hi),
    fun pl i hpl hi => h.rooted pl i hpl (hmem pl i hpl hi), fun i hi => ?_, h.parents⟩
  exact h.acyclic i (hi.lift id fun a b ⟨pl, hpl, ha, hb⟩ => ⟨pl, hpl, hmem pl a hpl ha, hb⟩)

end Loan

/-! ## Attaching and setting free -/

theorem attachment?_setAttachment_some (hi : ∃ x, w.inst? i = some x) (a : Attachment) :
    (w.setAttachment i (some a)).attachment? = Function.update w.attachment? i (some a) := by
  obtain ⟨x, hx⟩ := hi
  funext j
  by_cases hji : j = i
  · subst hji
    rw [Function.update_self]
    unfold attachment? setAttachment
    rw [inst?_modifyInstance_self, hx]
    rfl
  · rw [Function.update_of_ne hji]
    exact attachment?_modifyInstance_of_ne w hji

theorem HasBuilt.modifyInstance {f : Instance → Instance} (hf : ∀ x, x.built = true → (f x).built = true)
    (h : w.HasBuilt j) (i : InstanceId) : (w.modifyInstance i f).HasBuilt j := by
  obtain ⟨x, hx, hb⟩ := h
  by_cases hij : i = j
  · subst hij
    exact ⟨f x, by rw [inst?_modifyInstance_self, hx]; rfl, hf x hb⟩
  · exact ⟨x, (inst?_modifyInstance_of_ne w f hij).trans hx, hb⟩

theorem itemsOf_of_coll? {c : CollectionId} {x : Collection} (h : w.coll? c = some x) :
    w.itemsOf c = x.items := by
  unfold itemsOf
  rw [h]

/-- Who stands in a new place goes on to do so when somebody else is recorded elsewhere. -/
theorem Outside.setAttachment {a : Option Attachment} {n : NodeId} (h : w₀.Outside w n)
    (hne : ∀ b, w.attachment? i = some b → ¬ w₀.KnowsPlace b.place → w.rootOf? i ≠ some n) :
    w₀.Outside (w.setAttachment i a) n := by
  obtain ⟨j, b, hb, hpl, hj⟩ := h
  have hji : j ≠ i := by
    rintro rfl
    exact hne b hb hpl hj
  exact ⟨j, b, (attachment?_modifyInstance_of_ne w hji).trans hb, hpl,
    ((sameShape_setAttachment w i a).rootOf? j).trans hj⟩

namespace Loan

variable (h : w₀.Loan loose occ w)

include h

/-- What changes of a loan when the recorded place of an instance does. -/
theorem reattach {a : Option Attachment} {g : Forest → Forest}
    (hledger : w₀.Ledger loose' (w.setAttachment i a).attachment? occ)
    (hsize : (g w.forest).size = w.forest.size)
    (hlinks : ∀ n, n.index < w₀.forest.size → (g w.forest).recorded? n = w₀.forest.recorded? n ∨
      w₀.RootsFree n ∧ ((g w.forest).recorded? n = none ∨ w₀.Outside (w.setAttachment i a) n)) :
    w₀.Loan loose' occ ((w.setAttachment i a).mapForest g) := by
  have hs : w.SameShape ((w.setAttachment i a).mapForest g) :=
    ⟨rfl, (sameShape_setAttachment w i a).inst, fun _ => rfl, fun _ => rfl⟩
  refine ⟨(h.toRetains.setAttachment i a).mapForest hsize, ?_, hledger, fun pl j hpl hj => ?_,
    fun pl j hpl hj => ?_, h.acyclic, hlinks⟩
  · exact h.drafts.congr hs (map_inst?_setAttachment _ (fun _ _ => rfl) w i a)
  · refine (h.whole pl j hpl hj).imp_right fun hb => ?_
    exact hb.modifyInstance (f := fun x => { x with attachment := a }) (fun _ hb => hb) i
  · rw [hs.rootOf?]
    exact h.rooted pl j hpl hj

/-- An instance that is recorded nowhere known was recorded nowhere; if its root was there, it was its root. -/
theorem rootsFree (hw₀ : w₀.Closed) (hi : ∀ a, w.attachment? i = some a → ¬ w₀.KnowsPlace a.place) {n : NodeId}
    (hn : n.index < w₀.forest.size) (hr : w.rootOf? i = some n) : w₀.RootsFree n := by
  refine ⟨i, h.ledger.free_before (fun _ _ => hw₀.placed) hi, ?_⟩
  by_cases hknown : w₀.Knows i
  · obtain ⟨x, hx⟩ := hknown.exists_inst
    obtain ⟨a, ha⟩ := h.inst i x hx
    unfold rootOf? at hr ⊢
    rw [ha] at hr
    rw [hx]
    exact hr
  · exact absurd (h.drafts.root i n hknown hr) (Nat.not_le.2 hn)

/-- An instance that is recorded nowhere known is set free. -/
theorem taken (hw₀ : w₀.Closed) (hi : ∀ a, w.attachment? i = some a → ¬ w₀.KnowsPlace a.place)
    (hloose : ∀ p j, loose p j → loose' p j) (hfreed : ∀ a, w.attachment? i = some a → loose' a.place i)
    {r : NodeId} (hr : w.rootOf? i = some r) : w₀.Loan loose' occ (w.taken i r) := by
  refine h.reattach ?_ (Forest.size_unlink _ _) fun n hn => ?_
  · rw [attachment?_setAttachment_none]
    exact h.ledger.free (fun _ _ => hw₀.placed) hi hloose hfreed
  · by_cases hnr : n = r
    · subst hnr
      exact Or.inr ⟨h.rootsFree hw₀ hi hn hr, Or.inl (Forest.recorded?_unlink_self _ _)⟩
    · rw [Forest.recorded?_unlink_of_ne _ hnr]
      refine (h.parents n hn).imp_right fun hfree => ⟨hfree.1, hfree.2.imp_right fun ho => ?_⟩
      exact ho.setAttachment fun _ _ _ hn => hnr (Option.some.inj (hn.symm.trans hr))

/-- The same for an instance that has no root. -/
theorem taken_rootless (hw₀ : w₀.Closed) (hi : ∀ a, w.attachment? i = some a → ¬ w₀.KnowsPlace a.place)
    (hloose : ∀ p j, loose p j → loose' p j) (hfreed : ∀ a, w.attachment? i = some a → loose' a.place i)
    (hr : w.rootOf? i = none) : w₀.Loan loose' occ (w.setAttachment i none) := by
  refine h.reattach (g := id) ?_ rfl fun n hn => ?_
  · rw [attachment?_setAttachment_none]
    exact h.ledger.free (fun _ _ => hw₀.placed) hi hloose hfreed
  · refine (h.parents n hn).imp_right fun hfree => ⟨hfree.1, hfree.2.imp_right fun ho => ?_⟩
    exact ho.setAttachment fun _ _ _ hn => by cases hr.symm.trans hn

/-- A free occupant of a new place is recorded to stand there, and its root is put somewhere. -/
theorem taken_in (hw₀ : w₀.Closed) {a : Attachment} (hfree : w.attachment? i = none)
    (hpl : ¬ w₀.KnowsPlace a.place) (hi : i ∈ occ a.place)
    (honly : ∀ p, ¬ w₀.KnowsPlace p → i ∈ occ p → loose p i → p = a.place)
    (hloose : ∀ p j, j ≠ i → loose p j → loose' p j) {r : NodeId} (hr : w.rootOf? i = some r)
    (anchor : NodeId) :
    w₀.Loan loose' occ ((w.setAttachment i (some a)).mapForest fun f => (f.insertAfter anchor r).2) := by
  have hatt := attachment?_setAttachment_some (exists_inst_of_rootOf? hr) a
  have hnone (b : Attachment) (hb : w.attachment? i = some b) : ¬ w₀.KnowsPlace b.place := by
    rw [hfree] at hb
    cases hb
  refine h.reattach ?_ (Forest.size_insertAfter _ _ _) fun n hn => ?_
  · rw [hatt]
    exact h.ledger.take (fun _ _ => hw₀.placed) hfree hpl hi honly hloose
  · have hself : w₀.Outside (w.setAttachment i (some a)) r := by
      refine ⟨i, a, ?_, hpl, ((sameShape_setAttachment w i (some a)).rootOf? i).trans hr⟩
      rw [hatt, Function.update_self]
    by_cases hnr : n = r
    · subst hnr
      exact Or.inr ⟨h.rootsFree hw₀ hnone hn hr, Or.inr hself⟩
    · rw [Forest.recorded?_insertAfter_of_ne _ hnr]
      refine (h.parents n hn).imp_right fun hfree' => ⟨hfree'.1, hfree'.2.imp_right fun ho => ?_⟩
      exact ho.setAttachment fun b hb _ _ => by cases hfree.symm.trans hb

/-- Only roots of instances that are recorded nowhere are taken out of their places. -/
theorem uprooted (hw₀ : w₀.Closed) {g : Forest} (hsize : g.size = w.forest.size)
    (hlinks : ∀ n, g.recorded? n = w.forest.recorded? n ∨ w.RootsFree n ∧ g.recorded? n = none) :
    w₀.Loan loose occ (w.mapForest fun _ => g) := by
  refine ⟨h.toRetains.mapForest hsize, ?_, h.ledger, h.whole, h.rooted, h.acyclic, fun n hn => ?_⟩
  · exact h.drafts.congr ⟨rfl, fun _ => rfl, fun _ => rfl, fun _ => rfl⟩ fun _ => rfl
  · rcases hlinks n with hsame | ⟨⟨i, hfree, hr⟩, hnone⟩
    · change g.recorded? n = _ ∨ _ ∧ (g.recorded? n = _ ∨ _)
      rw [hsame]
      exact h.parents n hn
    · refine Or.inr ⟨h.rootsFree hw₀ (fun a ha => ?_) hn hr, Or.inl hnone⟩
      rw [hfree] at ha
      cases ha

end Loan

/-! ## Making an instance -/

theorem Joins.attachment? {id : ClassId} {c : Class} {view : View} {b b' : Building}
    (hj : w.Joins w' i id c view b b') : w'.attachment? = w.attachment? := by
  funext j
  unfold World.attachment?
  by_cases hji : j = i
  · subst hji
    obtain ⟨attrs, hself⟩ := hj.self
    rw [hself, hj.fresh]
    rfl
  · rw [hj.other j hji]

/-- A new instance is made: it is under construction, and its places are empty. -/
theorem Loan.create (h : w₀.Loan loose w.occupants w) {id : ClassId} {c : Class} {view : View}
    {b b' : Building} (hj : w.Joins w' i id c view b b') (hc : w.class? id = some c) :
    w₀.Loan loose w'.occupants w' := by
  have hother (k : InstanceId) (hk : ∃ x, w.inst? k = some x) : k ≠ i := by
    rintro rfl
    obtain ⟨x, hx⟩ := hk
    rw [hj.fresh] at hx
    cases hx
  have hold (k : InstanceId) (hk : ∃ x, w.inst? k = some x) : w'.inst? k = w.inst? k :=
    hj.other k (hother k hk)
  have hroot (k : InstanceId) (r : NodeId) (hr : w.rootOf? k = some r) : w'.rootOf? k = some r := by
    unfold rootOf?
    rw [hold k (exists_inst_of_rootOf? hr)]
    exact hr
  rw [hj.occupants]
  refine ⟨⟨?_, ?_, ?_, ?_, ?_, ?_, ?_⟩, ⟨?_, ?_, ?_⟩, ?_, ?_, ?_, ?_, ?_⟩
  · exact hj.classes.trans h.classes
  · exact hj.spaces.trans h.spaces
  · exact hj.handles.registry.trans h.registry
  · exact hj.handles.pins ▸ h.pins
  · rw [hj.forest]
    exact Nat.le_trans h.size hj.sturdy.grown.size_le
  · intro k x hx
    obtain ⟨a, ha⟩ := h.inst k x hx
    exact ⟨a, (hold k ⟨_, ha⟩).trans ha⟩
  · intro d x hx
    have hd := h.coll d x hx
    exact (hj.old d (index_lt_of_coll? hd)).trans hd
  · intro P x hP hx
    by_cases hPi : P = i
    · subst hPi
      exact ⟨c, view, hj.formed hc hx⟩
    · rw [hj.other P hPi] at hx
      obtain ⟨c', v', hf⟩ := h.drafts.formed P x hP hx
      exact ⟨c', v', hf.congr hj.toExtends rfl rfl⟩
  · intro P r hP hr
    by_cases hPi : P = i
    · subst hPi
      obtain ⟨attrs, hself⟩ := hj.self
      unfold rootOf? at hr
      rw [hself] at hr
      obtain rfl := Option.some.inj hr
      rw [hj.planted.index, hj.start]
      exact h.size
    · refine h.drafts.root P r hP ?_
      unfold rootOf? at hr ⊢
      rw [hj.other P hPi] at hr
      exact hr
  · intro d x hd hx
    rcases Nat.lt_or_ge d.index w.collections.size with hlt | hge
    · rw [hj.old d hlt] at hx
      obtain ⟨hP, y, hy, hmem⟩ := h.drafts.owned d x hd hx
      exact ⟨hP, y, (hold _ ⟨y, hy⟩).trans hy, hmem⟩
    · obtain ⟨rfl, -, -, n, -, -, -, hsite, -⟩ := hj.new_coll hge hx
      obtain ⟨attrs, hself⟩ := hj.self
      refine ⟨fun hknown => ?_, _, hself, List.mem_map.2 ⟨_, List.mem_of_getElem? hsite, rfl⟩⟩
      obtain ⟨y, hy⟩ := hknown.exists_inst
      obtain ⟨a, ha⟩ := h.inst _ y hy
      exact hother _ ⟨_, ha⟩ rfl
  · rw [hj.attachment?]
    exact h.ledger
  · refine fun pl k hpl hk => (h.whole pl k hpl hk).imp_right fun ⟨x, hx, hb⟩ => ?_
    exact ⟨x, (hold k ⟨x, hx⟩).trans hx, hb⟩
  · intro pl k hpl hk
    obtain ⟨r, hr⟩ := h.rooted pl k hpl hk
    exact ⟨r, hroot k r hr⟩
  · refine fun k hk => h.acyclic k (TransGen.mono ?_ _ _ hk)
    rintro a P ⟨pl, hpl, ha, hP⟩
    refine ⟨pl, hpl, ha, ?_⟩
    cases pl with
    | slot Q name => exact hP
    | sequence d =>
      change a ∈ w.itemsOf d at ha
      unfold World.itemsOf at ha
      cases hd : w.coll? d with
      | none =>
        rw [hd] at ha
        cases ha
      | some x =>
        have hd' : w'.coll? d = w.coll? d := hj.old d (index_lt_of_coll? hd)
        change (w'.coll? d).map (·.owner) = some P at hP
        rw [hd'] at hP
        exact hP
  · intro n hn
    have hlt : n.index < w.forest.size := Nat.lt_of_lt_of_le hn h.size
    rw [hj.forest, hj.sturdy.grown.old_recorded n hlt]
    refine (h.parents n hn).imp_right fun hfree => ⟨hfree.1, hfree.2.imp_right fun ⟨k, a, ha, hpl, hr⟩ => ?_⟩
    exact ⟨k, a, by rw [hj.attachment?]; exact ha, hpl, hroot k n hr⟩

end World

end ReactiveView
