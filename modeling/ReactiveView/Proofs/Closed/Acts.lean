import ReactiveView.Proofs.Outliving.Still
import ReactiveView.Proofs.Ownership.Calls

/-!
# Acts leave nothing idle

An operation ends by letting go, or it only writes values, texts and attributes, which nothing holds on to. So what
letting go brings about lasts (`World.IsNeat`, `World.Upholds`): that no collection and no namespace is in use that
nothing holds, and no node (`World.Kempt`, `World.Swept`). This is so however the operation ends and whatever is
called back (`Run.upholds_runScript`); the operations of a program also leave worlds regular
(`World.Permits.regrows`). So in a world in which a program acts from a fresh start nothing is in use that nothing
holds (`World.Idle.resting_of_acts`), and letting go once more changes nothing (`World.Idle.still_of_acts`).
-/

set_option autoImplicit false

namespace ReactiveView

namespace World

variable {w w' : World}

/-! ## What letting go brings about -/

/-- A property that settling brings about, and that lasts while what was held is held. -/
class IsNeat (A : World → Prop) : Prop where
  settle : ∀ w : World, A w.settle
  holdsOn : ∀ {w w' : World}, w.HoldsOn w' → A w → A w'

/-- The property lasts. -/
def Upholds (A : World → Prop) (w w' : World) : Prop := A w → A w'

instance {A : World → Prop} : IsPreorder World (Upholds A) where
  refl _ h := h
  trans _ _ _ h h' hw := h' (h hw)

/-- Collections and namespaces are the same, and no node is moved. -/
theorem holdsOn_of_same (hcoll : w'.collections = w.collections) (hspace : w'.spaces = w.spaces)
    (hregistry : w'.registry = w.registry) (hpins : w.pins ⊆ w'.pins)
    (halive : ∀ i, w.isAlive i = true → w'.isAlive i = true) (hnodes : w.heldNodes ⊆ w'.heldNodes)
    (hlinks : w.forest.SameLinks w'.forest) : w.HoldsOn w' where
  spaces := hspace
  registry := hregistry
  pins := hpins
  coll k := by
    unfold coll?
    rw [hcoll]
  alive := halive
  nodes := hnodes
  inUse := hlinks.isAlive
  listed n _ := by
    unfold Forest.isListed
    rw [hlinks.parent?, funext hlinks.children]

/-- A change of the screen that moves no node. -/
theorem holdsOn_mapScreen {f : Screen → Screen} (hf : w.forest.SameLinks (w.mapScreen f).forest) :
    w.HoldsOn (w.mapScreen f) :=
  holdsOn_of_same rfl rfl rfl (List.Subset.refl _) (fun _ h => h) (List.Subset.refl _) hf

/-- A change of a record that leaves the instance in use and with the nodes that it holds. -/
theorem holdsOn_modifyInstance (w : World) (i : InstanceId) {f : Instance → Instance}
    (hf : ∀ x, (f x).alive = x.alive) (hnodes : ∀ x, (f x).nodesHeld = x.nodesHeld) :
    w.HoldsOn (w.modifyInstance i f) := by
  refine holdsOn_of_same rfl rfl rfl (List.Subset.refl _) (fun j hj => ?_) (fun n hn => ?_) .rfl
  · rw [isAlive_congr (map_inst?_modifyInstance (·.alive) hf w i j)]
    exact hj
  · unfold heldNodes at hn ⊢
    simp only [List.mem_append] at hn ⊢
    refine hn.imp_left (Or.imp_left (Or.imp_right fun hn => ?_))
    obtain ⟨x, hx, hmem⟩ := List.mem_flatMap.1 hn
    obtain ⟨j, hx, halive⟩ := mem_liveInstances_iff.1 hx
    by_cases hji : j = i
    · subst hji
      refine List.mem_flatMap.2 ⟨f x, mem_liveInstances_iff.2 ⟨j, ?_, (hf x).trans halive⟩, ?_⟩
      · rw [inst?_modifyInstance_self, hx, Option.map_some]
      · rw [hnodes]
        exact hmem
    · refine List.mem_flatMap.2 ⟨x, mem_liveInstances_iff.2 ⟨j, ?_, halive⟩, hmem⟩
      rw [inst?_modifyInstance_of_ne w _ (Ne.symm hji), hx]

/-- No collection and no namespace is in use that nothing holds. -/
structure Kempt (w : World) : Prop where
  collections : w.idleCollections = []
  spaces : w.idleSpaces = []

instance : IsNeat Kempt where
  settle w := ⟨(idle_settle w).2, idleSpaces_settle w⟩
  holdsOn h hw := by
    constructor
    · exact List.subset_nil.1 (hw.collections ▸ h.idleCollections_subset)
    · exact List.subset_nil.1 (hw.spaces ▸ h.idleSpaces_subset)

/-- No node is in use that nothing holds. -/
def Swept (w : World) : Prop := w.forest.unheld w.heldNodes.contains = []

instance : IsNeat Swept where
  settle := unheld_settle
  holdsOn h hw := List.subset_nil.1 (hw ▸ h.unheld_subset)

end World

namespace Run

open World

variable {α : Type} {A : World → Prop} [IsNeat A] {cb : Callbacks} {i : InstanceId} {k : CollectionId}

/-! ## Operations -/

theorem upholds_renderIn (w : World) (c : Class) (places : NodeSet) (source : Source) (text : String) :
    w.Upholds A (w.renderIn c places source text) :=
  IsNeat.holdsOn (holdsOn_mapScreen (Screen.sameLinks_render _ _ _ _ _))

theorem upholds_storeValue (i : InstanceId) (n : Nat) (w : World) (v : Value) : w.Upholds A (w.storeValue i n v) :=
  IsNeat.holdsOn (holdsOn_modifyInstance w i (fun _ => rfl) fun _ => rfl)

/-- A scope ends by letting go. -/
theorem upholds_keeping (keep : α → List Held) (m : Run α) : Keeps (Upholds A) (keeping keep m) :=
  fun _ _ => IsNeat.settle _

/-- A script lets go behind each of its actions. -/
theorem upholds_runScript (frame : Frame) (script : List Host.Action) :
    Keeps (Upholds A) (runScript cb frame script) := by
  induction script with
  | nil =>
    unfold runScript
    exact keeps_pure _
  | cons a rest ih =>
    unfold runScript
    refine (upholds_keeping _ _).bind fun o => ?_
    split
    · exact keeps_pure _
    · exact ih.bind fun _ => keeps_pure _

theorem upholds_setAttribute (i : InstanceId) (name : String) (v : Value) :
    Keeps (Upholds A) (setAttribute i name v) := by
  refine (keeps_attributeIndex i name).bind fun n => (keeps_theClassOf i).bind fun c => ?_
  refine (keeps_ofOption _).bind fun a => (keeps_ofExcept _).bind fun _ => (keeps_theView i).bind fun view w => ?_
  have hrender : w.Upholds A (w.renderIn c (view.attributeNodes[n]?.getD []) (.attr name) v.outputText) :=
    upholds_renderIn w _ _ _ _
  have hattr := holdsOn_mapScreen (w := w.renderIn c (view.attributeNodes[n]?.getD []) (.attr name) v.outputText)
    (f := fun s => s.mapForest fun f => f.setAttr view.root (dataName name) v.outputText)
    (Forest.sameLinks_setAttr _ _ _ _)
  exact fun hw => IsNeat.holdsOn (holdsOn_modifyInstance _ i (fun _ => rfl) fun _ => rfl)
    (IsNeat.holdsOn hattr (hrender hw))

theorem upholds_setAttributes (i : InstanceId) (values : Dict String Value) :
    Keeps (Upholds A) (setAttributes i values) := by
  refine Keeps.bind (Keeps.forM (fun e => ?_) values) fun _ => Keeps.forM (fun e => ?_) values
  · exact (keeps_attributeIndex i e.1).bind fun _ => keeps_pure _
  · exact upholds_setAttribute i e.1 e.2

theorem upholds_flushQueue (q : QueueId) : Keeps (Upholds A) (flushQueue q) := fun w =>
  IsNeat.holdsOn (holdsOn_mapScreen (f := fun s => (s.flush q).2) (w.screen.sameLinks_flush q))

theorem upholds_splice (k : CollectionId) (start count : Nat) (values : List Value) :
    Keeps (Upholds A) (splice cb k start count values) :=
  upholds_keeping _ _

theorem upholds_push (k : CollectionId) (v : Value) : Keeps (Upholds A) (push cb k v) :=
  (keeps_ask _).bind fun _ => (upholds_splice k _ 0 [v]).bind fun _ => keeps_ask _

theorem upholds_removeItem (k : CollectionId) (position : Nat) : Keeps (Upholds A) (removeItem cb k position) := by
  refine (keeps_ask _).bind fun size => ?_
  dsimp only
  split
  · exact keeps_fail_bind _ _
  · refine (upholds_splice k position 1 []).bind fun removed => ?_
    split
    · exact keeps_pure _
    · exact keeps_fail _

theorem upholds_edit (e : ListEdit) (k : CollectionId) : Keeps (Upholds A) ((e.operation k).run cb) := by
  cases e with
  | splice start count values => exact (upholds_splice k start count values).map _
  | replaceAll values => exact Keeps.map ((keeps_ask _).bind fun _ => upholds_splice k _ _ values) _
  | push v => exact (upholds_push k v).map _
  | unshift v => exact Keeps.map ((upholds_splice k _ _ _).bind fun _ => keeps_ask _) _
  | pop =>
    refine Keeps.map ((keeps_ask _).bind fun size => ?_) _
    cases size with
    | zero => exact keeps_pure _
    | succ n => exact (upholds_splice k n 1 []).bind fun _ => keeps_pure _
  | shift =>
    refine Keeps.map ((keeps_ask _).bind fun size => ?_) _
    cases size with
    | zero => exact keeps_pure _
    | succ n => exact (upholds_splice k 0 1 []).bind fun _ => keeps_pure _
  | insert position v =>
    refine (keeps_ask _).bind fun size => ?_
    dsimp only
    split
    · exact keeps_fail_bind _ _
    · exact (upholds_splice k position 0 [v]).bind fun _ => keeps_pure _
  | remove position => exact (upholds_removeItem k position).map _
  | move source target =>
    refine (keeps_ask _).bind fun size => ?_
    dsimp only
    split
    · exact keeps_fail_bind _ _
    · split
      · refine (upholds_removeItem k source).bind fun i => ?_
        exact (upholds_splice k target 0 [.inst i]).bind fun _ => keeps_pure _
      · exact keeps_pure _

section Writing

variable (hscript : ∀ frame script, Keeps (Upholds A) (cb.script frame script))

include hscript

theorem upholds_announce (i : InstanceId) (name : String) (old new : Value) :
    Keeps (Upholds A) (announce cb i name old new) := by
  refine (keeps_theInstance i).bind fun x => Keeps.forM (fun l => ?_) _
  refine Keeps.bind (fun w => ?_) fun _ => (hscript _ _).bind fun _ => keeps_pure _
  exact IsNeat.holdsOn (holdsOn_of_same rfl rfl rfl (List.Subset.refl _) (fun _ h => h) (List.Subset.refl _) .rfl)

/-- A write of a property lets go of what it does not keep, or stores a primitive value. -/
theorem upholds_setProperty (i : InstanceId) (name : String) (v : Value) :
    Keeps (Upholds A) (setProperty cb i name v) := by
  refine (keeps_propertyIndex i name).bind fun n => (keeps_theClassOf i).bind fun c => ?_
  refine (keeps_ofOption _).bind fun p => ?_
  split
  · exact .setPrimitive upholds_renderIn (upholds_storeValue i) (upholds_announce hscript i) n name _ v
  · exact upholds_keeping _ _
  · exact upholds_keeping _ _

theorem upholds_assign (i : InstanceId) (v : Value) : Keeps (Upholds A) (assign cb i v) := by
  unfold assign
  split
  · exact (keeps_checkKnown i _).bind fun _ => Keeps.forM (fun e => upholds_setProperty hscript i _ _) _
  · exact keeps_fail _

theorem upholds_attach (i parent : InstanceId) (name : String) : Keeps (Upholds A) (attach cb i parent name) := by
  refine (keeps_propertyIndex parent name).bind fun n => (keeps_theClassOf parent).bind fun c => ?_
  refine (keeps_ofOption _).bind fun p => ?_
  split
  · refine keeps_get.bind fun w => ?_
    dsimp only
    split
    · exact keeps_get.bind fun _ => keeps_fail_bind _ _
    · exact upholds_setProperty hscript parent name _
  · refine (keeps_getProperty parent name).bind fun v => ?_
    split
    · exact (upholds_push _ _).bind fun _ => keeps_pure _
    · exact keeps_fail _
  · exact keeps_fail _

end Writing

end Run

/-- The scripts of callbacks let go behind each action, however deeply they nest. -/
theorem Callbacks.upholds_ofDepth {A : World → Prop} [World.IsNeat A] (depth : Nat) (frame : Frame)
    (script : Host.Script) : Run.Keeps (World.Upholds A) ((Callbacks.ofDepth depth).script frame script) := by
  cases depth with
  | zero => exact Run.keeps_throw _
  | succ depth => exact Run.upholds_runScript frame script

namespace World

variable {A : World → Prop} [IsNeat A] {w w' w₀ : World} {op : Operation}

open Run

/-! ## Acts -/

/-- What a program may do leaves what settling brings about. -/
theorem Permits.upholds (h : w.Permits op) (depth : Nat) : w.Upholds A (op.run (Callbacks.ofDepth depth) w).2 := by
  have hscript := Callbacks.upholds_ofDepth (A := A) depth
  cases h with
  | @construct id init hinit => exact Keeps.map (upholds_keeping _ _) _ w
  | @set i name v hi hv => exact upholds_setProperty hscript i name v w
  | @assign i v hi hv => exact upholds_assign hscript i v w
  | setAttribute i name v => exact upholds_setAttribute i name v w
  | setAttributes i values => exact upholds_setAttributes i values w
  | @recompute i name hi =>
    exact Keeps.recomputeBinding upholds_renderIn (upholds_storeValue i) (upholds_announce hscript i) name w
  | @edit k x e hx hP hv => exact upholds_edit e k w
  | @attach i parent name hi hP => exact upholds_attach hscript i parent name w
  | detach i => exact upholds_keeping _ _ w
  | flush q => exact (upholds_flushQueue q).map _ w
  | poll q delta =>
    refine Keeps.map (fun w => ?_) _ w
    refine IsNeat.holdsOn (holdsOn_mapScreen (f := fun s => (s.pollAfterDeadline q delta).2) ?_)
    change w.forest.SameLinks (w.screen.pollAfterDeadline q delta).2.forest
    rcases w.screen.pollAfterDeadline_eq q delta with h | h
    · rw [h]
      exact .rfl
    · rw [h]
      exact Screen.sameLinks_flush _ _
  | drop h => exact fun _ => IsNeat.settle _

/-- What a program may do leaves a regular world regular. -/
theorem Permits.regrows (h : w.Permits op) (depth : Nat) : w.Regrows (op.run (Callbacks.ofDepth depth) w).2 := by
  have hcb := Callbacks.careful_ofDepth depth
  cases h with
  | @construct id init hinit => exact Keeps.map (Stays.keeps fun _ => stays_constructInstance hcb id init) _ w
  | @set i name v hi hv => exact regrows_setProperty hcb i name v w
  | @assign i v hi hv => exact regrows_assign hcb i v w
  | setAttribute i name v => exact regrows_setAttribute i name v w
  | setAttributes i values => exact regrows_setAttributes i values w
  | @recompute i name hi => exact regrows_recomputeBinding hcb i name w
  | @edit k x e hx hP hv =>
    cases e with
    | splice start count values => exact (regrows_splice hcb k start count values).map _ w
    | replaceAll values => exact (regrows_replaceAll hcb k values).map _ w
    | push v => exact (regrows_push hcb k v).map _ w
    | unshift v => exact (regrows_unshift hcb k v).map _ w
    | pop => exact Keeps.map (Stays.keeps fun _ => stays_pop hcb k) _ w
    | shift => exact Keeps.map (Stays.keeps fun _ => stays_shift hcb k) _ w
    | insert position v => exact regrows_insertItem hcb k position v w
    | remove position => exact Keeps.map (Stays.keeps fun _ => stays_removeItem hcb k position) _ w
    | move source target => exact regrows_moveItem hcb k source target w
  | @attach i parent name hi hP => exact regrows_attach hcb i parent name w
  | detach i => exact regrows_detach hcb i w
  | flush q => exact (regrows_flushQueue q).map _ w
  | poll q delta => exact (regrows_poll q delta).map _ w
  | drop h => exact regrows_unpin h w

/-- A fresh start in a world without nodes and namespaces has nothing idle. -/
theorem Idle.resting (h : w.Idle) (hforest : w.forest = {}) (hspaces : w.spaces = {}) : w.Resting where
  inst i x hx := by
    rw [h.inst? i] at hx
    cases hx
  owner c x hx := by
    rw [h.coll? c] at hx
    cases hx
  item c x hx := by
    rw [h.coll? c] at hx
    cases hx
  handled i hi := by
    rw [h.unheld] at hi
    cases hi
  object n ns hns e he := by
    rw [h.noObjects n ns hns] at he
    cases he
  bounded := by
    rw [hforest]
    exact resting_empty.bounded
  compiled := h.compiled
  idleInstances := by
    unfold idleInstances
    rw [h.instances]
    rfl
  idleCollections := by
    unfold idleCollections
    rw [h.collections]
    rfl
  idleSpaces := by
    unfold idleSpaces
    rw [hspaces]
    rfl

/-- In a world at rest no instance is in use that nothing holds. -/
theorem AtRest.idleInstances (hw : w.AtRest) : w.idleInstances = [] := by
  refine List.eq_nil_iff_forall_not_mem.2 fun i hi => ?_
  obtain ⟨-, htest⟩ := List.mem_filter.1 hi
  rw [Bool.and_eq_true, Bool.not_eq_true'] at htest
  obtain ⟨halive, hnot⟩ := htest
  have hheld : i ∈ w.heldInstances := by
    obtain ⟨-, hhandle | ⟨pl, P, m, hocc, -, -⟩⟩ := hw.settled i halive
    · exact mem_heldInstances_of_handle hhandle
    · exact hw.orderly.mem_heldInstances_of_place ((Layout.Linked.place_iff hw.orderly.linked i pl).2 hocc)
  rw [List.contains_iff_mem.2 hheld] at hnot
  cases hnot

/-- What settling brings about lasts from act to act. -/
theorem Acts.upholds (h : w.Acts w') : w.Upholds A w' := by
  cases h with
  | @does depth op hop => exact hop.upholds depth
  | @holds h halive =>
    have hpins := List.subset_cons_self h w.pins
    refine IsNeat.holdsOn (holdsOn_of_same rfl rfl rfl hpins (fun _ h => h) (fun n hn => ?_) .rfl)
    unfold heldNodes at hn ⊢
    simp only [List.mem_append] at hn ⊢
    exact hn.imp_left (Or.imp_left (Or.imp_left fun hn => List.filterMap_subset _ hpins hn))

/-- An act leaves nothing idle. -/
theorem Acts.resting (h : w.Acts w') (hw : w.AtRest) (hr : w.Resting) : w'.Resting := by
  have hw' := h.atRest hw
  have hkempt : w'.Kempt := h.upholds ⟨hr.idleCollections, hr.idleSpaces⟩
  refine ⟨?_, hw'.idleInstances, hkempt.collections, hkempt.spaces⟩
  cases h with
  | @does depth op hop => exact (hop.regrows depth hr.toRegular).1
  | @holds h halive =>
    have hknown : w.Regular → ∀ j, Held.inst j ∈ h :: w.pins → w.Knows j := by
      intro hw j hj
      rcases List.mem_cons.1 hj with heq | hj
      · exact knows_of_isAlive (halive j heq.symm)
      · exact hw.pinned hj
    exact (regrows_pins hknown hr.toRegular).1

/-- Whatever a program does after a fresh start in a world in which nothing is idle, nothing becomes idle. -/
theorem Idle.resting_of_acts (h : w₀.Idle) (hrest : w₀.Resting) (hacts : Relation.ReflTransGen Acts w₀ w) :
    w.Resting := by
  induction hacts with
  | refl => exact hrest
  | tail hacts hact ih => exact hact.resting (h.atRest_of_acts hacts) ih

/-- If there is nothing to let go of at the start, then there never is between two acts. -/
theorem Idle.still_of_acts (h : w₀.Idle) (hstill : w₀.settle = w₀) (hacts : Relation.ReflTransGen Acts w₀ w) :
    w.settle = w := by
  obtain ⟨hspaces, -, hcolls, hnodes⟩ := settle_eq_iff.1 hstill
  obtain ⟨hneat, hswept⟩ : w.Kempt ∧ w.Swept := by
    clear h
    induction hacts with
    | refl => exact ⟨⟨hcolls, hspaces⟩, hnodes⟩
    | tail _ hact ih => exact ⟨hact.upholds ih.1, hact.upholds ih.2⟩
  exact settle_eq_iff.2 ⟨hneat.spaces, (h.atRest_of_acts hacts).idleInstances, hneat.collections, hswept⟩

end World

end ReactiveView
