import ReactiveView.Proofs.Ownership.Construct
import ReactiveView.Proofs.Recovery.Loan

/-!
# Instances that nobody names

A construction takes in only instances that its initial state names. What carries this through the steps of a
construction is that an instance that is *apart* stands nowhere and is on no list (`World.Apart`), so that a
program cannot come across it: the children of a slot and the items of a list are made from values that do not
name it, or are taken from lists that it is not on. A run *shuns* the instance when it leaves it apart and does
not give it as its result (`Run.Shuns`); constructions do, however deeply they nest (`Callbacks.shuns_ofDepth`).
-/

set_option autoImplicit false

namespace ReactiveView

namespace World

variable {w w' : World} {j : InstanceId}

/-- The instance is there, stands nowhere and is on no list. Classes are plain, and nobody listens. -/
structure Apart (w : World) (j : InstanceId) : Prop where
  compiled : Compiled w.classes
  plain : PlainClasses w.classes
  unheard : ∀ i x, w.inst? i = some x → x.mutationListeners = []
  known : ∃ x, w.inst? j = some x
  free : w.attachment? j = none
  unlisted : ∀ k, j ∉ w.itemsOf k

/-- A free instance of an orderly world is apart. -/
theorem Orderly.apart (hw : w.Orderly) {x : Instance} (hx : w.inst? j = some x) (hfree : w.attachment? j = none) :
    w.Apart j where
  compiled := hw.compiled
  plain := hw.plain
  unheard i y hy := by
    obtain ⟨c, view, hf⟩ := hw.inst i y hy
    exact hf.unheard
  known := ⟨x, hx⟩
  free := hfree
  unlisted k := by
    have hnowhere := placeOf?_eq_none_iff_attachment?.2 hfree
    exact (Run.placeOf?_eq_none_iff hw.linked).1 hnowhere (.sequence k)

theorem Apart.congr (h : w.Apart j) (hclasses : w'.classes = w.classes)
    (hheard : ∀ i, (w'.inst? i).map (·.mutationListeners) = (w.inst? i).map (·.mutationListeners))
    (hfree : w'.attachment? j = none) (hunlisted : ∀ k, j ∉ w'.itemsOf k) : w'.Apart j where
  compiled := hclasses ▸ h.compiled
  plain := hclasses ▸ h.plain
  unheard i x hx := by
    have hi := hheard i
    rw [hx] at hi
    obtain ⟨y, hy, hsame⟩ := Option.map_eq_some_iff.1 hi.symm
    exact hsame.symm.trans (h.unheard i y hy)
  known := by
    obtain ⟨x, hx⟩ := h.known
    have hj := hheard j
    rw [hx] at hj
    obtain ⟨y, hy, -⟩ := Option.map_eq_some_iff.1 hj
    exact ⟨y, hy⟩
  free := hfree
  unlisted := hunlisted

/-- The instance is apart afterwards if it was before. -/
def StaysApart (j : InstanceId) (w w' : World) : Prop := w.Apart j → w'.Apart j

theorem staysApart_of_same (hc : w'.classes = w.classes) (hi : w'.instances = w.instances)
    (hk : w'.collections = w.collections) : StaysApart j w w' := by
  intro h
  have hinst (i : InstanceId) : w'.inst? i = w.inst? i := by
    unfold inst?
    rw [hi]
  refine h.congr hc (fun i => congrArg _ (hinst i)) ?_ fun k => ?_
  · unfold attachment?
    rw [hinst]
    exact h.free
  · unfold itemsOf coll?
    rw [hk]
    exact h.unlisted k

theorem staysApart_modifyInstance (w : World) (i : InstanceId) {f : Instance → Instance}
    (hheard : ∀ x, (f x).mutationListeners = x.mutationListeners)
    (hfree : i = j → ∀ x : Instance, x.attachment = none → (f x).attachment = none) :
    StaysApart j w (w.modifyInstance i f) := by
  intro h
  refine h.congr rfl (map_inst?_modifyInstance _ hheard w i) ?_ h.unlisted
  by_cases hij : j = i
  · obtain ⟨x, hx⟩ := h.known
    have hnone := h.free
    unfold attachment? at hnone ⊢
    rw [← hij, inst?_modifyInstance_self, hx]
    rw [hx] at hnone
    exact hfree hij.symm x hnone
  · rw [attachment?_modifyInstance_of_ne w hij]
    exact h.free

theorem staysApart_modifyCollection (w : World) (k : CollectionId) {f : Collection → Collection}
    (hunlisted : ∀ x : Collection, j ∉ x.items → j ∉ (f x).items) : StaysApart j w (w.modifyCollection k f) := by
  intro h
  refine h.congr rfl (fun _ => rfl) h.free fun d => ?_
  have hd := h.unlisted d
  unfold itemsOf at hd ⊢
  by_cases hkd : k = d
  · subst hkd
    rw [coll?_modifyCollection_self]
    cases hx : w.coll? k with
    | none => exact List.not_mem_nil
    | some x =>
      rw [hx] at hd
      exact hunlisted x hd
  · rw [coll?_modifyCollection_of_ne w f hkd]
    exact hd

theorem staysApart_mapScreen (w : World) (f : Screen → Screen) : StaysApart j w (w.mapScreen f) :=
  staysApart_of_same rfl rfl rfl

theorem staysApart_storeValue (i : InstanceId) (n : Nat) (w : World) (v : Value) :
    StaysApart j w (w.storeValue i n v) :=
  staysApart_modifyInstance w i (fun _ => rfl) fun _ _ hnone => hnone

instance : IsLettingGo (StaysApart j) where
  refl _ h := h
  trans _ _ _ h h' hw := h' (h hw)
  unlink w _ := staysApart_mapScreen w _
  sweep w _ := staysApart_mapScreen w _
  free w i := staysApart_modifyInstance w i (fun _ => rfl) fun _ _ _ => rfl
  retire w i := staysApart_modifyInstance w i (fun _ => rfl) fun _ _ hnone => hnone
  retireColl w k := staysApart_modifyCollection w k fun _ hj => hj
  retireSpace _ _ := staysApart_of_same rfl rfl rfl
  clear w k := staysApart_modifyCollection w k fun _ _ => List.not_mem_nil

/-- An instance that is made stands nowhere, and neither do its lists hold anything. -/
theorem Joins.apart {i : InstanceId} {id : ClassId} {c : Class} {view : View} {b b' : Building}
    (hj : w.Joins w' i id c view b b') (h : w.Apart j) : w'.Apart j ∧ i ≠ j := by
  obtain ⟨x, hx⟩ := h.known
  have hij : i ≠ j := by
    rintro rfl
    rw [hj.fresh] at hx
    cases hx
  refine ⟨⟨hj.classes ▸ h.compiled, hj.classes ▸ h.plain, fun k y hy => ?_, ⟨x, ?_⟩, ?_, fun k => ?_⟩, hij⟩
  · by_cases hki : k = i
    · obtain ⟨attrs, hself⟩ := hj.self
      rw [hki, hself] at hy
      obtain rfl := Option.some.inj hy
      rfl
    · rw [hj.other k hki] at hy
      exact h.unheard k y hy
  · rw [hj.other j hij.symm, hx]
  · rw [hj.attachment?]
    exact h.free
  · rw [hj.itemsOf]
    exact h.unlisted k

end World

namespace Run

open World

variable {α β : Type} {j : InstanceId} {cb : Callbacks} {T : InstanceId}

/-! ## Shunning an instance -/

/-- The run leaves the instance apart, and its result is of a certain kind. -/
def Shuns (j : InstanceId) (m : Run α) (Q : α → Prop) : Prop :=
  ∀ w, w.Apart j → (m w).2.Apart j ∧ ∀ a, (m w).1 = .ok a → Q a

namespace Shuns

variable {m : Run α} {Q : α → Prop}

theorem keeps (h : Shuns j m Q) : Keeps (StaysApart j) m := fun w hw => (h w hw).1

theorem of_error {w : World} {e : Halt} (hrun : m w = (.error e, w)) (hw : w.Apart j) :
    (m w).2.Apart j ∧ ∀ a, (m w).1 = .ok a → Q a := by
  rw [hrun]
  exact ⟨hw, fun _ h => nomatch h⟩

theorem pure {a : α} (ha : Q a) : Shuns j (Pure.pure a) Q := fun _ hw =>
  ⟨hw, fun _ h => Except.ok.inj h ▸ ha⟩

/-- What follows may use what is known of the result. -/
theorem bind {R : β → Prop} {f : α → Run β} (hm : Shuns j m Q) (hf : ∀ a, Q a → Shuns j (f a) R) :
    Shuns j (m >>= f) R := by
  intro w hw
  obtain ⟨hw', hresult⟩ := hm w hw
  rcases hrun : m w with ⟨e | a, w'⟩
  · rw [hrun] at hw'
    rw [bind_of_error hrun]
    exact ⟨hw', fun _ h => nomatch h⟩
  · rw [hrun] at hw' hresult
    rw [bind_of_ok hrun]
    exact hf a (hresult a rfl) w' hw'

theorem of_keeps (h : Keeps (StaysApart j) m) : Shuns j m fun _ => True := fun w hw => ⟨h w hw, fun _ _ => trivial⟩

theorem bind_keeps {f : α → Run β} (hm : Shuns j m Q) (hf : ∀ a, Q a → Keeps (StaysApart j) (f a)) :
    Keeps (StaysApart j) (m >>= f) :=
  (hm.bind fun a ha => of_keeps (hf a ha)).keeps

theorem scope {keep : α → List Held} (hm : Shuns j m Q) : Shuns j (Run.keeping keep m) Q := by
  intro w hw
  obtain ⟨hw', hresult⟩ := hm w hw
  rw [keeping_apply]
  have hpins : StaysApart j (m w).2 { (m w).2 with pins := keptBy keep (m w).1 ++ w.pins } :=
    staysApart_of_same rfl rfl rfl
  have hsettle := upkeep_settle (R := StaysApart j) { (m w).2 with pins := keptBy keep (m w).1 ++ w.pins }
  exact ⟨hsettle (hpins hw'), hresult⟩

end Shuns

theorem staysApart_scope {keep : α → List Held} {m : Run α} (hm : Keeps (StaysApart j) m) :
    Keeps (StaysApart j) (Run.keeping keep m) :=
  hm.keeping (fun _ _ => staysApart_of_same rfl rfl rfl) upkeep_settle

/-- What is read is on no list that the instance is on, for there is none. -/
theorem staysApart_ask_bind {g : World → β} {f : β → Run α}
    (hf : ∀ w, w.Apart j → Keeps (StaysApart j) (f (g w))) : Keeps (StaysApart j) (ask g >>= f) := by
  intro w hw
  rw [bind_of_ok (ask_apply g w)]
  exact hf w hw w hw

end Run

/-- Constructions take in no instance that their initial states do not name, and give another one. -/
def Callbacks.Shuns (cb : Callbacks) (j : InstanceId) : Prop :=
  ∀ id (init : Option Value), (∀ v ∈ init, j ∉ v.instances) → Run.Shuns j (cb.construct id init) (· ≠ j)

namespace Run

open World

variable {α : Type} {j T : InstanceId} {cb : Callbacks} {v : Value}

/-! ## Attaching -/

theorem staysApart_attachAfter {i : InstanceId} (hij : i ≠ j) (anchor : NodeId) (a : Attachment) :
    Keeps (StaysApart j) (attachAfter i anchor a) := by
  refine .attachAfter (fun w r _ => ?_) fun w => staysApart_modifyInstance w i (fun _ => rfl) fun h => absurd h hij
  rw [edit_apply]
  exact upkeep_trans (staysApart_mapScreen w _) (keeps_ofExcept _ _)

theorem staysApart_attachInOrder (a : Attachment) (previous : NodeId) {is : List InstanceId} (his : j ∉ is) :
    Keeps (StaysApart j) (attachInOrder a previous is) :=
  .attachInOrder (fun _ hi anchor => staysApart_attachAfter (ne_of_mem_of_not_mem hi his) anchor a) previous

theorem staysApart_replaceChild (n : Nat) (name : String) {child : Option InstanceId} (hchild : child ≠ some j) :
    Keeps (StaysApart j) (replaceChild T n name child) :=
  .replaceChild (fun _ hi anchor _ => staysApart_attachAfter (by rintro rfl; exact hchild hi) anchor _)
    (staysApart_storeValue T n)

/-! ## Writing -/

theorem staysApart_announce (i : InstanceId) (name : String) (old new : Value) :
    Keeps (StaysApart j) (announce cb i name old new) := by
  intro w hw
  unfold announce
  rcases hrun : theInstance i w with ⟨e | x, w'⟩
  · have hkeeps := keeps_theInstance (R := StaysApart j) i w
    rw [hrun] at hkeeps
    rw [bind_of_error hrun]
    exact hkeeps hw
  · obtain ⟨hx, rfl⟩ := theInstance_eq_ok hrun
    rw [bind_of_ok hrun, hw.unheard i x hx]
    exact hw

theorem staysApart_recomputeBinding (i : InstanceId) (name : String) :
    Keeps (StaysApart j) (recomputeBinding cb i name) :=
  .recomputeBinding (fun w _ _ _ _ => staysApart_mapScreen w _) (staysApart_storeValue i) (staysApart_announce i) name

theorem staysApart_setAttribute (i : InstanceId) (name : String) (v : Value) :
    Keeps (StaysApart j) (setAttribute i name v) := by
  refine (keeps_attributeIndex i name).bind fun n => (keeps_theClassOf i).bind fun c => ?_
  refine (keeps_ofOption _).bind fun a => (keeps_ofExcept _).bind fun _ => (keeps_theView i).bind fun view w => ?_
  refine upkeep_trans ?_ (staysApart_modifyInstance _ i (fun _ => rfl) fun _ _ hnone => hnone)
  exact upkeep_trans (staysApart_mapScreen w _) (staysApart_mapScreen _ _)

theorem staysApart_flushQueue (q : QueueId) : Keeps (StaysApart j) (flushQueue q) := fun w =>
  staysApart_mapScreen w fun s => (s.flush q).2

section Construct

variable (hcb : cb.Shuns j)

include hcb

theorem shuns_coerce (element : ElementType) (hv : j ∉ v.instances) : Shuns j (coerce cb element v) (· ≠ j) := by
  cases v with
  | inst i =>
    intro w hw
    cases hacc : w.accepts element i with
    | false => exact Shuns.of_error (coerce_inst_refused hacc) hw
    | true =>
      rw [coerce_inst hacc]
      refine ⟨hw, fun a ha => ?_⟩
      obtain rfl := Except.ok.inj ha
      rintro rfl
      exact hv (List.mem_singleton_self _)
  | object fields =>
    cases element with
    | any => exact fun w hw => Shuns.of_error rfl hw
    | ofClass ref =>
      refine hcb ref.id (some (.object fields)) fun v hv' => ?_
      obtain rfl := Option.some.inj hv'
      exact hv
  | _ => exact fun w hw => Shuns.of_error rfl hw

theorem shuns_coerceAll (element : ElementType) {vs : List Value} (hvs : ∀ v ∈ vs, j ∉ v.instances) :
    Shuns j (coerceAll cb element vs) (j ∉ ·) := by
  induction vs with
  | nil => exact .pure List.not_mem_nil
  | cons v vs ih =>
    refine (shuns_coerce hcb element (hvs v List.mem_cons_self)).bind fun i hi => ?_
    refine (ih fun u hu => hvs u (List.mem_cons_of_mem v hu)).bind fun is his => .pure fun hmem => ?_
    exact (List.mem_cons.1 hmem).elim (fun h => hi h.symm) his

theorem shuns_slotChild (element : ElementType) (hv : j ∉ v.instances) :
    Shuns j (slotChild cb element v) (· ≠ some j) := by
  have hsome : Shuns j (some <$> coerce cb element v) (· ≠ some j) := by
    rw [← bind_pure_comp]
    exact (shuns_coerce hcb element hv).bind fun i hi => .pure fun h => hi (Option.some.inj h)
  cases v with
  | null => exact .pure nofun
  | _ => exact hsome

theorem staysApart_splice (k : CollectionId) (start count : Nat) {vs : List Value} (hvs : ∀ v ∈ vs, j ∉ v.instances) :
    Keeps (StaysApart j) (splice cb k start count vs) := by
  refine staysApart_scope (keeps_get.bind fun w => (keeps_theCollection k).bind fun coll => ?_)
  refine (shuns_coerceAll hcb coll.element hvs).bind_keeps fun inserted hinserted => ?_
  refine staysApart_ask_bind fun w₁ hw₁ => (keeps_checkInserted _ _ _ inserted).bind fun _ => ?_
  refine (Keeps.forM keeps_release _).bind fun _ => Keeps.bind (fun w₂ => ?_) fun _ => ?_
  · refine staysApart_modifyCollection w₂ k fun _ _ hmem => ?_
    have hitems := hw₁.unlisted k
    unfold spliced at hmem
    rcases List.mem_append.1 hmem with hmem | hmem
    · rcases List.mem_append.1 hmem with hmem | hmem
      · exact hitems (List.mem_of_mem_take hmem)
      · exact hinserted hmem
    · exact hitems (List.mem_of_mem_drop hmem)
  · refine (keeps_nodeBefore _ _ _).bind fun node => ?_
    exact (staysApart_attachInOrder _ node hinserted).bind fun _ => keeps_pure _

theorem staysApart_replaceAll (k : CollectionId) {vs : List Value} (hvs : ∀ v ∈ vs, j ∉ v.instances) :
    Keeps (StaysApart j) (replaceAll cb k vs) :=
  (keeps_ask _).bind fun _ => staysApart_splice hcb k 0 _ hvs

theorem staysApart_setSequence (n : Nat) (hv : j ∉ v.instances) : Keeps (StaysApart j) (setSequence cb T n v) := by
  refine staysApart_scope ((keeps_theView T).bind fun view => ?_)
  split
  · split
    · refine (staysApart_replaceAll hcb _ fun v hv' hj => hv ?_).bind fun _ => keeps_pure _
      exact Value.instances_subset_items hv' hj
    · next other =>
      split
      · -- the items of another collection, where the instance is not either
        refine staysApart_ask_bind fun w hw => (staysApart_replaceAll hcb _ fun v hv' hj => ?_).bind fun _ => keeps_pure _
        obtain ⟨i, hi, rfl⟩ := List.mem_map.1 hv'
        exact hw.unlisted other (List.mem_singleton.1 hj ▸ hi)
      · exact keeps_pure _
    · exact keeps_fail _
  · exact keeps_fail _

theorem staysApart_setProperty (name : String) (hv : j ∉ v.instances) :
    Keeps (StaysApart j) (setProperty cb T name v) := by
  refine (keeps_propertyIndex T name).bind fun n => (keeps_theClassOf T).bind fun c => ?_
  refine (keeps_ofOption _).bind fun p => ?_
  split
  · exact .setPrimitive (fun w _ _ _ _ => staysApart_mapScreen w _) (staysApart_storeValue T) (staysApart_announce T)
      n name _ v
  · refine staysApart_scope ((shuns_slotChild hcb _ hv).bind_keeps fun child hchild => ?_)
    exact staysApart_replaceChild n name hchild
  · exact staysApart_setSequence hcb n hv

/-! ## Constructing -/

theorem staysApart_releaseChildren : Keeps (StaysApart j) (releaseChildren cb T) := by
  refine (keeps_theInstance T).bind fun x => Keeps.forM (fun e => ?_) _
  unfold releaseChild
  split
  · exact (keeps_release _).tolerate.bind fun _ w => staysApart_storeValue T _ w _
  · next k _ =>
    have hempty : Keeps (StaysApart j) (replaceAll cb k []) := staysApart_replaceAll hcb k fun _ h => nomatch h
    exact (hempty.bind fun _ => keeps_pure _).tolerate
  · exact keeps_pure _

theorem staysApart_initializeProperty {fields : Dict String Value} (hfields : j ∉ Value.instancesOfFields fields)
    {p : PropertyDescriptor} (hp : p.default.Plain) : Keeps (StaysApart j) (initializeProperty cb T fields p) := by
  unfold initializeProperty
  cases hget : fields.get? p.name with
  | none =>
    refine staysApart_setProperty hcb p.name ?_
    rw [hp.instances]
    exact List.not_mem_nil
  | some given =>
    dsimp only
    cases hinit : initialValue p given with
    | error e => exact fun _ hw => hw
    | ok v =>
      refine staysApart_setProperty hcb p.name fun hj => hfields ?_
      exact mem_instancesOfFields.2 ⟨_, Dict.mem_of_get? hget, instances_initialValue hp hinit hj⟩

/-- Giving a new instance its initial state. -/
theorem shuns_populate (hTj : T ≠ j) {c : Class} (hvalid : c.Valid) (hplain : c.constructors = [])
    {fields : Dict String Value} (hfields : j ∉ Value.instancesOfFields fields) :
    Shuns j (populate cb T c fields) (· ≠ j) := by
  have hgive : Keeps (StaysApart j) (giveInitialState cb T c fields) := by
    refine (Keeps.forM (fun a => staysApart_setAttribute T _ _) _).bind fun _ => ?_
    refine Keeps.bind ?_ fun _ => (Keeps.forM (staysApart_recomputeBinding T) _).bind fun _ => ?_
    · exact .forM_of_mem fun p hp =>
        staysApart_initializeProperty hcb hfields (hvalid.descriptor.sound p hp).default
    · rw [hplain]
      exact keeps_pure _
  have hkeeps : Keeps (StaysApart j) (populate cb T c fields) := by
    refine Keeps.bind (hgive.tryCatch fun h => ?_) fun _ => (staysApart_flushQueue _).bind fun _ => ?_
    · refine (staysApart_releaseChildren hcb).bind fun _ => ?_
      exact (staysApart_flushQueue _).bind fun _ => keeps_throw _
    · refine Keeps.bind (fun w => ?_) fun _ => keeps_pure _
      exact staysApart_modifyInstance w T (fun _ => rfl) fun _ _ hnone => hnone
  intro w hw
  refine ⟨hkeeps w hw, fun i hi => ?_⟩
  rcases hrun : populate cb T c fields w with ⟨r, w'⟩
  rw [hrun] at hi
  obtain rfl : r = .ok i := hi
  rw [populate_eq_ok hrun]
  exact hTj

omit hcb in
theorem shuns_create (id : ClassId) (c : Class) : Shuns j (create id c) (· ≠ j) := by
  intro w hw
  unfold create
  rw [bind_of_ok (get_apply w)]
  cases hcreate : w.createInstance id c.descriptor with
  | error e => exact Shuns.of_error rfl hw
  | ok made =>
    obtain ⟨i, w₁⟩ := made
    obtain ⟨-, view, b, b', hjoins⟩ := createInstance_joins hcreate
    obtain ⟨hw₁, hij⟩ := hjoins.apart hw
    have hpinned : StaysApart j w₁ { w₁ with pins := .inst i :: w₁.pins } := staysApart_of_same rfl rfl rfl
    refine ⟨hpinned hw₁, fun a ha => ?_⟩
    obtain rfl := Except.ok.inj ha
    exact hij

theorem shuns_constructConcrete {c : Class} (hvalid : c.Valid) (hplain : c.constructors = []) (id : ClassId)
    {init : Option Value} (hinit : ∀ v ∈ init, j ∉ v.instances) : Shuns j (constructConcrete cb id c init) (· ≠ j) := by
  unfold constructConcrete
  cases hfields : initialFields c.name init with
  | error e => exact fun w hw => Shuns.of_error rfl hw
  | ok fields =>
    have hnot : j ∉ Value.instancesOfFields fields := by
      rcases (initialFields_eq_ok_iff c.name init fields).1 hfields with ⟨rfl, -⟩ | rfl
      · exact List.not_mem_nil
      · exact hinit (.object fields) rfl
    intro w hw
    rw [bind_of_ok (ofExcept_ok fields w)]
    cases fields.keys.find? fun k => (c.descriptor.property? k).isNone with
    | some k => exact Shuns.of_error rfl hw
    | none => exact (shuns_create id c).bind (fun i hi => shuns_populate hcb hi hvalid hplain hnot) w hw

theorem shuns_constructInstance (id : ClassId) {init : Option Value} (hinit : ∀ v ∈ init, j ∉ v.instances) :
    Shuns j (constructInstance cb id init) (· ≠ j) := by
  refine Shuns.scope fun w hw => ?_
  cases hc : w.class? id with
  | none =>
    exact Shuns.of_error (bind_of_error (theClass_of_none hc)) hw
  | some c =>
    rw [bind_of_ok (theClass_of hc)]
    split
    · rw [(hw.plain _ c hc).2]
      exact Shuns.of_error rfl hw
    · exact shuns_constructConcrete hcb (hw.compiled.valid hc) (hw.plain _ c hc).1 id hinit w hw

end Construct

end Run

/-- Among plain classes a construction takes in nobody whom its initial state does not name, however deeply
constructions nest. -/
theorem Callbacks.shuns_ofDepth (depth : Nat) (j : InstanceId) : (Callbacks.ofDepth depth).Shuns j := by
  induction depth with
  | zero => exact fun id init _ w hw => Run.Shuns.of_error rfl hw
  | succ depth ih => exact fun id init hinit => Run.shuns_constructInstance ih id hinit

end ReactiveView
