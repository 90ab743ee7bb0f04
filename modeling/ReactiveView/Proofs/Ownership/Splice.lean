import ReactiveView.Proofs.Ownership.Outcome
import ReactiveView.Proofs.Ownership.Refill
import Mathlib.Data.List.Forall2

/-!
# Splicing

The values handed to a splice are instances that exist or plain objects, from which instances are
constructed on the way (`World.Denotes`). Constructions are taken to be *mild*: they are harmless, and give
a new instance that the code in progress keeps hold of (`Callbacks.Mild`). A splice then ends in one of
three ways (`Run.Splices`): a value is refused, or the instances are, with the items as they were; or the
items are spliced.
-/

set_option autoImplicit false

namespace ReactiveView

/-- An item refers to no more instances than all items do. -/
theorem Value.instances_subset_items {items : List Value} {v : Value} (hv : v ∈ items) :
    v.instances ⊆ instancesOfItems items := by
  induction items with
  | nil => cases hv
  | cons u items ih =>
    rcases List.mem_cons.1 hv with rfl | hv
    · exact List.subset_append_left _ _
    · exact List.subset_append_of_subset_right _ (ih hv)

/-- An entry refers to no more instances than all entries do. -/
theorem Value.instances_subset_fields {fields : List (String × Value)} {e : String × Value}
    (he : e ∈ fields) : e.2.instances ⊆ instancesOfFields fields := by
  induction fields with
  | nil => cases he
  | cons f fields ih =>
    rcases List.mem_cons.1 he with rfl | he
    · exact List.subset_append_left _ _
    · exact List.subset_append_of_subset_right _ (ih he)

open Relation

/-- Constructions yield a new instance of the class, which a handle refers to. -/
def Callbacks.Mild (cb : Callbacks) : Prop :=
  ∀ (id : ClassId) (init : Option Value) (w : World),
    w.Orderly → (∀ v ∈ init, v.instances ⊆ w.handles) →
      (cb.construct id init).Yields w fun i w' =>
        i ∈ w'.handles ∧ w.inst? i = none ∧ ∃ x, w'.inst? i = some x ∧ x.classId = id

namespace World

variable {w w' w'' : World} {H : List InstanceId} {v : Value} {i : InstanceId} {c : CollectionId}
  {x : Collection}

/-- The instance that a value stands for: itself, or a new one. -/
def Denotes (w : World) (v : Value) (i : InstanceId) : Prop :=
  v = .inst i ∨ (∃ fields, v = .object fields) ∧ w.inst? i = none

theorem Denotes.of_extends (h : w'.Denotes v i) (he : w.Extends w') : w.Denotes v i := by
  refine h.imp_right fun ⟨hv, hnone⟩ => ⟨hv, ?_⟩
  cases hx : w.inst? i with
  | none => rfl
  | some x =>
    obtain ⟨y, hy, -⟩ := he.inst i x hx
    rw [hnone] at hy
    cases hy

/-! ## The row of a collection -/

/-- The row behind the marker of a collection follows its items; what stands before and behind the row
stays. -/
def Follows (c : CollectionId) (w w' : World) : Prop :=
  ∃ x e s t, w.coll? c = some x ∧
    w.forest.children e = s ++ x.anchor :: (w.itemsOf c).filterMap w.layout.root ++ t ∧
    w'.forest.children e = s ++ x.anchor :: (w'.itemsOf c).filterMap w'.layout.root ++ t

theorem Follows.trans (h : w.Follows c w') (h' : w'.Follows c w'') (ht : w'.forest.Tidy)
    (he : w.Extends w') : w.Follows c w'' := by
  obtain ⟨x, e, s, t, hx, hbefore, hafter⟩ := h
  obtain ⟨y, e', s', t', hy, hbefore', hafter'⟩ := h'
  have hxy : y.anchor = x.anchor := by
    obtain ⟨z, hz, hshape⟩ := he.coll c x hx
    obtain rfl := Option.some.inj (hy.symm.trans hz)
    exact congrArg (·.2.1) hshape
  rw [hxy] at hbefore' hafter'
  have hmem {q : NodeId} {a b : List NodeId} (hq : w'.forest.children q = a ++ x.anchor :: b) :
      x.anchor ∈ w'.forest.children q := by
    rw [hq]
    exact List.mem_append_right _ List.mem_cons_self
  rw [List.append_assoc, List.cons_append] at hafter hbefore'
  obtain rfl := ht.parent_unique (hmem hafter) (hmem hbefore')
  have hnd := ht.nodup e
  rw [hafter] at hnd
  obtain ⟨rfl, htail⟩ := Layout.split_unique hnd (hafter.symm.trans hbefore')
  obtain rfl := List.append_cancel_left htail
  exact ⟨x, e, s, t, hx, hbefore, hafter'⟩

theorem Respects.itemsOf {K : InstanceId → Prop} (hr : w.Respects K w') (hx : w.coll? c = some x)
    (hK : K x.owner) : w'.itemsOf c = w.itemsOf c :=
  hr.occ (.sequence c) x.owner x.anchor hK (spot_of_coll? hx)

/-- What respects the owner leaves the row as it is. -/
theorem Respects.follows {K : InstanceId → Prop} (hr : w.Respects K w') (hw : w.Orderly)
    (hx : w.coll? c = some x) (hK : K x.owner) (halive : w.isAlive x.owner = true) : w.Follows c w' := by
  have hspot := spot_of_coll? hx
  obtain ⟨e, he⟩ := Layout.Linked.row hw.linked _ _ _ halive hspot
  obtain ⟨s, t, hst⟩ := he
  have hm : x.anchor ∈ w.forest.children e := by
    rw [← hst]
    simp
  obtain ⟨r, hroot, hwithin⟩ := Layout.Linked.within_list hw.linked halive hspot hm
  refine ⟨x, e, s, t, hx, hst.symm, ?_⟩
  have hroots : (w'.itemsOf c).filterMap w'.layout.root = (w.itemsOf c).filterMap w.layout.root := by
    rw [hr.itemsOf hx hK]
    refine List.filterMap_congr fun i hi => ?_
    obtain ⟨q, hq⟩ := Layout.Linked.rooted hw.linked i (Layout.Linked.live_item hw.linked i (.sequence c) hi)
    rw [hq, hr.root hq]
  rw [(hr.view x.owner hK r e hroot hwithin).2, hroots]
  exact hst.symm

theorem Refills.follows {P : InstanceId} {m : NodeId} {is : List InstanceId}
    (h : w.Refills (.sequence c) P m is w') (hw : w.Orderly) (hx : w.coll? c = some x)
    (halive : w.isAlive P = true) (hspot : w.layout.spot (.sequence c) = some (P, m)) :
    w.Follows c w' ∧ w'.itemsOf c = is := by
  have hitems : w'.itemsOf c = is := by
    change w'.occupants (.sequence c) = is
    rw [h.occupants, Function.update_self]
  refine ⟨?_, hitems⟩
  obtain ⟨e, hm, -, hrow⟩ := h.row
  obtain ⟨e', s, t, hst⟩ := Layout.Linked.row hw.linked _ _ _ halive hspot
  obtain rfl := (Layout.Linked.tidy hw.linked).parent_unique hm (by rw [← hst]; simp)
  obtain ⟨-, rfl⟩ := Prod.mk.inj (Option.some.inj (hspot.symm.trans (spot_of_coll? hx)))
  refine ⟨x, e, s, t, hx, hst.symm, ?_⟩
  rw [hitems, h.edits.shape.layout]
  exact hrow s t hst.symm

end World

namespace Run

open World

variable {cb : Callbacks} {w : World} {H : List InstanceId} {element : ElementType}

/-! ## Coercion -/

/-- An instance of the element class stands for itself. -/
theorem coerce_inst {i : InstanceId} (h : w.accepts element i = true) :
    coerce cb element (.inst i) w = (.ok i, w) := by
  unfold coerce
  dsimp only
  rw [bind_of_ok (get_apply w), h]
  rfl

theorem coerce_inst_refused {i : InstanceId} (h : w.accepts element i = false) :
    coerce cb element (.inst i) w =
      (.error (.failed (.wrongClass element.name (w.className i))), w) := by
  unfold coerce
  dsimp only
  rw [bind_of_ok (get_apply w), h]
  rfl

/-- Finding out what a value stands for. -/
theorem yields_coerce (hcb : cb.Mild) (v : Value) (hw : w.Orderly) (hv : v.instances ⊆ w.handles) :
    Yields (coerce cb element v) w fun i w' =>
      w.Denotes v i ∧ i ∈ w'.handles ∧ w'.accepts element i = true := by
  cases v with
  | inst i =>
    cases hacc : w.accepts element i with
    | false => exact .of_error hw (coerce_inst_refused hacc) (unranged_failed fun h => by cases h)
    | true => exact .of_ok hw (coerce_inst hacc) ⟨Or.inl rfl, hv (List.mem_singleton_self i), hacc⟩
  | object fields =>
    cases element with
    | any => exact .of_error hw rfl (unranged_failed fun h => by cases h)
    | ofClass ref =>
      have hinit : ∀ v' ∈ some (Value.object fields), v'.instances ⊆ w.handles := by
        intro v' hv'
        obtain rfl := Option.some.inj hv'
        exact hv
      refine (hcb ref.id (some (.object fields)) w hw hinit).imp ?_
      rintro i ⟨hhandle, hnew, x, hx, hid⟩
      refine ⟨Or.inr ⟨⟨fields, rfl⟩, hnew⟩, hhandle, ?_⟩
      unfold accepts
      dsimp only
      rw [hx]
      dsimp only
      rw [hid, isA_self]
  | null => exact .of_error hw rfl (unranged_failed fun h => by cases h)
  | bool b => exact .of_error hw rfl (unranged_failed fun h => by cases h)
  | number x => exact .of_error hw rfl (unranged_failed fun h => by cases h)
  | text s => exact .of_error hw rfl (unranged_failed fun h => by cases h)
  | coll c => exact .of_error hw rfl (unranged_failed fun h => by cases h)
  | array items => exact .of_error hw rfl (unranged_failed fun h => by cases h)

theorem yields_coerceAll (hcb : cb.Mild) {values : List Value} (hw : w.Orderly)
    (hvs : Value.instancesOfItems values ⊆ w.handles) :
    Yields (coerceAll cb element values) w fun is w' => List.Forall₂ w.Denotes values is ∧
      ∀ i ∈ is, i ∈ w'.handles ∧ w'.accepts element i = true := by
  induction values generalizing w with
  | nil => exact .of_ok hw rfl ⟨.nil, fun i hi => by cases hi⟩
  | cons v vs ih =>
    have hv := List.Subset.trans (List.subset_append_left _ _) hvs
    have hvs := List.Subset.trans (List.subset_append_right _ _) hvs
    refine (yields_coerce hcb v hw hv).bind fun i w₁ ⟨hdenotes, hhandle, haccepts⟩ hw₁ hr₁ => ?_
    have hrest := ih hw₁ (List.Subset.trans hvs hr₁.handles)
    refine hrest.and_respects.bind fun is w₂ ⟨⟨hall, his⟩, hr₂⟩ hw₂ _ => ?_
    refine .of_ok hw₂ rfl ⟨.cons hdenotes (hall.imp fun _ _ h => h.of_extends hr₁.toExtends), ?_⟩
    intro j hj
    rcases List.mem_cons.1 hj with rfl | hj
    · exact ⟨hr₂.handles hhandle, hr₂.toExtends.accepts haccepts⟩
    · exact his j hj

/-- The values stand for instances that are in use and accepted. -/
def Coerces (cb : Callbacks) (element : ElementType) (values : List Value) (w : World) : Prop :=
  Yields (coerceAll cb element values) w fun is w' => List.Forall₂ w.Denotes values is ∧
    ∀ i ∈ is, w'.isAlive i = true ∧ w'.accepts element i = true

/-- Values that refer to instances held by handles. -/
theorem coerces_of_handles (hcb : cb.Mild) {values : List Value} (hw : w.Orderly)
    (hvs : Value.instancesOfItems values ⊆ w.handles) : Coerces cb element values w := by
  have h : Yields (coerceAll cb element values) w _ := yields_coerceAll hcb hw hvs
  exact h.imp fun is ⟨hall, his⟩ => ⟨hall, fun i hi => ⟨h.orderly.handled i (his i hi).1, (his i hi).2⟩⟩

/-- Instances stand for themselves, if they are accepted. -/
theorem coerceAll_insts (is : List InstanceId) :
    coerceAll cb element (is.map Value.inst) w = (.ok is, w) ∧ (∀ i ∈ is, w.accepts element i = true) ∨
      ∃ e : Error, e.kind ≠ .rangeKind ∧
        coerceAll cb element (is.map Value.inst) w = (.error (.failed e), w) := by
  induction is with
  | nil => exact Or.inl ⟨rfl, fun i hi => by cases hi⟩
  | cons i is ih =>
    rw [List.map_cons]
    unfold coerceAll
    cases hacc : w.accepts element i with
    | false =>
      rw [bind_of_error (coerce_inst_refused hacc)]
      exact Or.inr ⟨_, fun h => (by cases h), rfl⟩
    | true =>
      rw [bind_of_ok (coerce_inst hacc)]
      rcases ih with ⟨hrun', hall⟩ | ⟨e, hkind, hrun'⟩
      · rw [bind_of_ok hrun', pure_apply]
        refine Or.inl ⟨rfl, fun j hj => ?_⟩
        rcases List.mem_cons.1 hj with rfl | hj
        · exact hacc
        · exact hall j hj
      · rw [bind_of_error hrun']
        exact Or.inr ⟨e, hkind, rfl⟩

theorem coerceAll_of_accepts {is : List InstanceId} (his : ∀ i ∈ is, w.accepts element i = true) :
    coerceAll cb element (is.map Value.inst) w = (.ok is, w) := by
  induction is with
  | nil => rfl
  | cons i is ih =>
    rw [List.map_cons]
    unfold coerceAll
    rw [bind_of_ok (coerce_inst (his i List.mem_cons_self)),
      bind_of_ok (ih fun j hj => his j (List.mem_cons_of_mem i hj)), pure_apply]

/-- Instances in use. -/
theorem coerces_of_alive {is : List InstanceId} (his : ∀ i ∈ is, w.isAlive i = true) (hw : w.Orderly) :
    Coerces cb element (is.map Value.inst) w := by
  have hcases := @coerceAll_insts cb w element is
  rcases hcases with ⟨hrun, hall⟩ | ⟨e, hkind, hrun⟩
  · refine .of_ok hw hrun ⟨?_, fun i hi => ⟨his i hi, hall i hi⟩⟩
    rw [List.forall₂_map_left_iff]
    exact List.forall₂_same.2 fun i _ => Or.inl rfl
  · exact .of_error hw hrun (unranged_failed hkind)

/-! ## The splice as a whole -/

/-- What a splice does before it lets go. -/
def spliceBody (cb : Callbacks) (c : CollectionId) (start count : Nat) (values : List Value) :
    Run (List InstanceId) := do
  let size := ((← get).itemsOf c).length
  let coll ← theCollection c
  let inserted ← coerceAll cb coll.element values
  spliceItems c coll (min start size) (min count (size - min start size)) inserted

theorem splice_eq (cb : Callbacks) (c : CollectionId) (start count : Nat) (values : List Value) :
    splice cb c start count values =
      keeping (fun removed => removed.map Held.inst) (spliceBody cb c start count values) :=
  rfl

variable {c : CollectionId} {x : Collection} {cls : Class} {start count : Nat} {values : List Value}

theorem splice_of_ok {removed : List InstanceId} {w' : World}
    (h : spliceBody cb c start count values w = (.ok removed, w')) :
    splice cb c start count values w =
      (.ok removed, ({ w' with pins := removed.map Held.inst ++ w.pins } : World).settle) := by
  rw [splice_eq, keeping_apply, h]
  dsimp only [keptBy]

theorem splice_of_error {e : Halt} {w' : World} (h : spliceBody cb c start count values w = (.error e, w')) :
    splice cb c start count values w = (.error e, ({ w' with pins := w.pins } : World).settle) := by
  rw [splice_eq, keeping_apply, h]
  dsimp only [keptBy, List.nil_append]

theorem spliceBody_apply (hx : w.coll? c = some x) :
    spliceBody cb c start count values w = (coerceAll cb x.element values >>= fun inserted =>
      spliceItems c x (min start (w.itemsOf c).length)
        (min count ((w.itemsOf c).length - min start (w.itemsOf c).length)) inserted) w := by
  unfold spliceBody
  rw [bind_of_ok (get_apply w), bind_of_ok (theCollection_of hx)]

/-- How a splice within the items of a collection ends. -/
inductive Splices (cb : Callbacks) (w : World) (c : CollectionId) (x : Collection) (start count : Nat)
    (values : List Value) : Except Halt (List InstanceId) → World → Prop where
  | refusedValue {e : Halt} {w' : World} : (coerceAll cb x.element values w).1 = .error e →
      w'.itemsOf c = w.itemsOf c → Splices cb w c x start count values (.error e) w'
  | refused {is : List InstanceId} {e : Error} {w' : World} :
      (coerceAll cb x.element values w).1 = .ok is →
      ¬ Insertable (coerceAll cb x.element values w).2 x.anchor (((w.itemsOf c).drop start).take count) []
        is →
      e.kind = .referenceKind → w'.itemsOf c = w.itemsOf c →
      Splices cb w c x start count values (.error (.failed e)) w'
  | done {is : List InstanceId} {w' : World} : (coerceAll cb x.element values w).1 = .ok is →
      w'.itemsOf c = spliced (w.itemsOf c) start count is →
      Splices cb w c x start count values (.ok (((w.itemsOf c).drop start).take count)) w'

theorem Splices.congr {r : Except Halt (List InstanceId)} {w' w'' : World}
    (h : Splices cb w c x start count values r w') (hitems : w''.itemsOf c = w'.itemsOf c) :
    Splices cb w c x start count values r w'' := by
  cases h with
  | refusedValue he hsame => exact .refusedValue he (hitems.trans hsame)
  | refused his hnot hkind hsame => exact .refused his hnot hkind (hitems.trans hsame)
  | done his hnew => exact .done his (hitems.trans hnew)

theorem Splices.unranged {r : Except Halt (List InstanceId)} {w' : World}
    (h : Splices cb w c x start count values r w')
    (hcoerce : Unranged (coerceAll cb x.element values w).1) : Unranged r := by
  cases h with
  | refusedValue he _ =>
    rw [he] at hcoerce
    exact hcoerce.error
  | refused _ _ hkind _ => exact unranged_failed (by rw [hkind]; exact fun h => by cases h)
  | done _ _ => exact unranged_ok _

theorem filterMap_inst?_map_inst (is : List InstanceId) : (is.map Held.inst).filterMap Held.inst? = is := by
  rw [List.filterMap_map]
  exact List.filterMap_some

section

variable (hw : w.Orderly) (hx : w.coll? c = some x) (hT : w.Safe x.owner)
  (hcoerce : Coerces cb x.element values w)

include hw hx hT hcoerce

omit hw in
/-- How a splice ends before it lets go. A value is refused, or the instances are, and nothing has happened since
the values were coerced; or the stretch is replaced. -/
theorem spliceBody_cases (start count : Nat) :
    (∃ e w₁, coerceAll cb x.element values w = (.error e, w₁) ∧
      spliceBody cb c start count values w = (.error e, w₁)) ∨
    (∃ is w₁ e, coerceAll cb x.element values w = (.ok is, w₁) ∧
      ¬ Insertable w₁ x.anchor (((w.itemsOf c).drop (min start (w.itemsOf c).length)).take
        (min count ((w.itemsOf c).length - min start (w.itemsOf c).length))) [] is ∧
      e.kind = .referenceKind ∧ spliceBody cb c start count values w = (.error (.failed e), w₁)) ∨
    ∃ is w₁ w₂, coerceAll cb x.element values w = (.ok is, w₁) ∧
      Insertable w₁ x.anchor (((w.itemsOf c).drop (min start (w.itemsOf c).length)).take
        (min count ((w.itemsOf c).length - min start (w.itemsOf c).length))) [] is ∧
      spliceBody cb c start count values w = (.ok (((w.itemsOf c).drop (min start (w.itemsOf c).length)).take
        (min count ((w.itemsOf c).length - min start (w.itemsOf c).length))), w₂) ∧
      w₁.Refills (.sequence c) x.owner x.anchor (spliced (w.itemsOf c) (min start (w.itemsOf c).length)
        (min count ((w.itemsOf c).length - min start (w.itemsOf c).length)) is) w₂ := by
  rw [spliceBody_apply hx]
  have hsafe := hcoerce.respects w.Safe w.anchored_safe
  have hitems := hsafe.itemsOf hx hT
  have hw₁ := hcoerce.orderly
  have hresult := hcoerce.result
  rcases hcoerced : coerceAll cb x.element values w with ⟨e | is, w₁⟩
  · exact Or.inl ⟨e, w₁, rfl, bind_of_error hcoerced⟩
  right
  rw [hcoerced] at hsafe hitems hw₁ hresult
  rw [bind_of_ok hcoerced]
  dsimp only at hsafe hitems hw₁ hresult
  have hins := (hresult is rfl).2
  obtain ⟨y, hy, hyx⟩ := hsafe.coll c x hx
  have howner : y.owner = x.owner := congrArg (·.2.2) hyx
  have hanchor : y.anchor = x.anchor := congrArg (·.2.1) hyx
  have helement : y.element = x.element := congrArg (·.1) hyx
  have halive : w₁.isAlive y.owner = true := by
    rw [howner]
    exact hsafe.alive _ hT
  have hle : min start (w.itemsOf c).length +
      min count ((w.itemsOf c).length - min start (w.itemsOf c).length) ≤ (w₁.itemsOf c).length := by
    rw [hitems]
    omega
  rcases spliceItems_spec hw₁ hy hyx.symm halive hle (by rw [helement]; exact hins) with
    ⟨hok, w₂, hrun₂, hrefills⟩ | ⟨hnot, e, hkind, hrun₂⟩
  · rw [hitems, hanchor] at hok
    rw [hitems] at hrun₂
    rw [hitems, howner, hanchor] at hrefills
    exact Or.inr ⟨is, w₁, w₂, rfl, hok, hrun₂, hrefills⟩
  · rw [hitems, hanchor] at hnot
    exact Or.inl ⟨is, w₁, e, rfl, hnot, hkind, hrun₂⟩

theorem spliceBody_spec (start count : Nat) :
    w.Tends x.owner cls H (spliceBody cb c start count values w).2 ∧
      w.Follows c (spliceBody cb c start count values w).2 ∧
      (∀ removed, (spliceBody cb c start count values w).1 = .ok removed →
        ∀ i ∈ removed, (spliceBody cb c start count values w).2.isAlive i = true) ∧
      Splices cb w c x (min start (w.itemsOf c).length)
        (min count ((w.itemsOf c).length - min start (w.itemsOf c).length)) values
        (spliceBody cb c start count values w).1 (spliceBody cb c start count values w).2 := by
  have hsafe := hcoerce.respects w.Safe w.anchored_safe
  have hitems := hsafe.itemsOf hx hT
  have hfollows := hsafe.follows hw hx hT hT.isAlive
  have htends : w.Tends x.owner cls H (coerceAll cb x.element values w).2 := hcoerce.harmless.tends
  have hw₁ := hcoerce.orderly
  rcases spliceBody_cases hx hT hcoerce start count with ⟨e, w₁, hcoerced, hrun⟩ |
      ⟨is, w₁, e, hcoerced, hnot, hkind, hrun⟩ | ⟨is, w₁, w₂, hcoerced, -, hrun, hrefills⟩
  all_goals
    rw [hcoerced] at hsafe hitems hfollows htends hw₁
    rw [hrun]
    dsimp only at hsafe hitems hfollows htends hw₁
  · exact ⟨htends, hfollows, (fun _ h => by cases h), .refusedValue (by rw [hcoerced]) hitems⟩
  · refine ⟨htends, hfollows, (fun _ h => by cases h), .refused (by rw [hcoerced]) ?_ hkind hitems⟩
    rw [hcoerced]
    exact hnot
  · obtain ⟨y, hy, hyx⟩ := hsafe.coll c x hx
    have howner : y.owner = x.owner := congrArg (·.2.2) hyx
    have hanchor : y.anchor = x.anchor := congrArg (·.2.1) hyx
    have halive : w₁.isAlive x.owner = true := hsafe.alive _ hT
    have hspot := spot_of_coll? hy
    rw [howner, hanchor] at hspot
    obtain ⟨hfollows₂, hitems₂⟩ := hrefills.follows hw₁ hy halive hspot
    have hedits := hrefills.edits
    refine ⟨IsTrans.trans _ _ _ htends (hedits.tends hrefills.orderly),
      hfollows.trans hfollows₂ (Layout.Linked.tidy hw₁.linked) hsafe.toExtends, ?_,
      .done (by rw [hcoerced]) hitems₂⟩
    intro removed hremoved i hi
    obtain rfl := Except.ok.inj hremoved
    rw [hedits.alive]
    refine Layout.Linked.live_item hw₁.linked i (.sequence c) ?_
    change i ∈ w₁.itemsOf c
    rw [hitems]
    exact List.mem_of_mem_drop (List.mem_of_mem_take hi)

/-- A splice tends the owner of the collection. It replaces the items and the row with them, or leaves
them. -/
theorem splice_spec (start count : Nat) (hH : H ⊆ w.handles) (hc : w.classOf? x.owner = some cls) :
    Tending x.owner cls H (splice cb c start count values) w ∧
      w.Follows c (splice cb c start count values w).2 ∧
      (∀ removed, (splice cb c start count values w).1 = .ok removed →
        removed ⊆ (splice cb c start count values w).2.handles) ∧
      Splices cb w c x (min start (w.itemsOf c).length)
        (min count ((w.itemsOf c).length - min start (w.itemsOf c).length)) values
        (splice cb c start count values w).1 (splice cb c start count values w).2 := by
  obtain ⟨htends, hfollows, halive, hsplices⟩ : w.Tends x.owner cls H _ ∧ _ :=
    spliceBody_spec hw hx hT hcoerce start count
  rw [splice_eq]
  have hkept : ∀ i ∈ (keptBy (fun removed => removed.map Held.inst)
      (spliceBody cb c start count values w).1).filterMap Held.inst?,
      (spliceBody cb c start count values w).2.isAlive i = true := by
    cases hrun : (spliceBody cb c start count values w).1 with
    | error e => exact fun i hi => by cases hi
    | ok removed =>
      intro i hi
      change i ∈ (removed.map Held.inst).filterMap Held.inst? at hi
      rw [filterMap_inst?_map_inst] at hi
      exact halive removed hrun i hi
  -- what has happened to the items and to the row outlives the letting go
  obtain ⟨hw₂, hT₂⟩ := htends.letGo ⟨hw, hH, hT, hc⟩ hkept
  have hext := htends.extends ⟨hw, hH, hT, hc⟩
  obtain ⟨y, hy, hyx⟩ := hext.coll c x hx
  have howner : y.owner = x.owner := congrArg (·.2.2) hyx
  rw [← howner] at hT₂
  obtain ⟨hw₃, hsettle, -⟩ := hw₂.settle
  have hsettle := hsettle _ (anchored_safe _)
  have hitems₃ := hsettle.itemsOf hy hT₂
  have hunranged := hsplices.unranged hcoerce.unranged
  refine ⟨⟨tends_keeping htends fun _ => hkept, fun _ => ?_⟩, ?_, ?_, ?_⟩
  · rw [keeping_apply]
    exact hunranged
  · rw [keeping_apply]
    exact Follows.trans hfollows (hsettle.follows hw₂ hy hT₂ hT₂.isAlive)
      (Layout.Linked.tidy hw₂.linked) hext
  · intro removed hremoved i hi
    refine List.mem_append_left _ (List.mem_filterMap.2 ⟨Held.inst i, ?_, rfl⟩)
    rw [pins_keeping, hremoved]
    exact List.mem_append_left _ (List.mem_map_of_mem hi)
  · rw [keeping_apply]
    exact hsplices.congr hitems₃

end

end Run

end ReactiveView
