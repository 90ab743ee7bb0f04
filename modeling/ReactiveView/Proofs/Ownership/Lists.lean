import ReactiveView.Proofs.Ownership.Property
import ReactiveView.Proofs.Ownership.Thin
import ReactiveView.Proofs.Steps.Runs

/-!
# Collections as lists

The edits of a collection (`ListEdit`) are edits of a plain list (`ListEdit.apply`), of which some name a
position that may be out of range (`ListEdit.OutOfRange`). Performed on a collection whose owner is safe, an
edit raises a range error if and only if it is out of range, leaves the items if it fails, and otherwise
does to the items what it does to a list, where the values stand for instances; the row behind the marker
follows the items in any case (`ListEdit.Refines`, `ListEdit.refines`).

All edits are splices. Moving an item is two of them, and the second cannot fail: what has been taken out of
a collection is free, and does not stand above it (`Run.insertable_removed`).
-/

set_option autoImplicit false

namespace ReactiveView

open Relation

/-- An edit of a collection. -/
inductive ListEdit where
  | splice (start count : Nat) (values : List Value)
  | replaceAll (values : List Value)
  | push (v : Value)
  | unshift (v : Value)
  | pop
  | shift
  | insert (position : Nat) (v : Value)
  | remove (position : Nat)
  | move (source target : Nat)

namespace ListEdit

/-- The operation that performs an edit on a collection. -/
def operation (k : CollectionId) : ListEdit → Operation
  | splice start count values => .splice k start count values
  | replaceAll values => .replaceAll k values
  | push v => .push k v
  | unshift v => .unshift k v
  | pop => .pop k
  | shift => .shift k
  | insert position v => .insert k position v
  | remove position => .remove k position
  | move source target => .move k source target

/-- Performs an edit on a collection. -/
def run (cb : Callbacks) (k : CollectionId) (e : ListEdit) : Run Unit := (e.operation k).run cb

/-- The values that an edit puts in. -/
def values : ListEdit → List Value
  | splice _ _ values => values
  | replaceAll values => values
  | push v => [v]
  | unshift v => [v]
  | insert _ v => [v]
  | pop => []
  | shift => []
  | remove _ => []
  | move _ _ => []

/-- The edit names a position that a list of `size` items does not have. -/
def OutOfRange (size : Nat) : ListEdit → Prop
  | insert position _ => size < position
  | remove position => size ≤ position
  | move source target => size ≤ source ∨ size ≤ target
  | _ => False

/-- The edit of a plain list, where `new` is put in. -/
def apply {α : Type} (items new : List α) : ListEdit → List α
  | splice start count _ => items.take start ++ new ++ items.drop (start + count)
  | replaceAll _ => new
  | push _ => items ++ new
  | unshift _ => new ++ items
  | pop => items.dropLast
  | shift => items.tail
  | insert position _ => items.take position ++ new ++ items.drop position
  | remove position => items.eraseIdx position
  | move source target =>
    match items[source]? with
    | some a => (items.eraseIdx source).insertIdx target a
    | none => items

/-- An item that is moved is at its new position afterwards. -/
theorem getElem?_apply_move {α : Type} {items new : List α} {source target : Nat}
    (hs : source < items.length) (ht : target < items.length) :
    (apply items new (.move source target))[target]? = items[source]? := by
  unfold apply
  dsimp only
  rw [List.getElem?_eq_getElem hs]
  have hlen := List.length_eraseIdx_of_lt hs
  rw [List.getElem?_insertIdx_self, if_pos (by omega)]

/-- How performing an edit on the collection `k` ends. -/
structure Refines (e : ListEdit) (k : CollectionId) (w : World) (r : Except Halt Unit) (w' : World) :
    Prop where
  range : (∃ err : Error, r = .error (.failed err) ∧ err.kind = .rangeKind) ↔
    e.OutOfRange (w.itemsOf k).length
  done : r = .ok () → ∃ new, List.Forall₂ w.Denotes e.values new ∧
    w'.itemsOf k = e.apply (w.itemsOf k) new
  failed : ∀ h, r = .error h → w'.itemsOf k = w.itemsOf k
  /-- An edit that puts nothing in succeeds wherever it is in range. -/
  total : e.values = [] → ¬ e.OutOfRange (w.itemsOf k).length → r = .ok ()
  row : w.Follows k w'

end ListEdit

/-! ## Lists -/

theorem take_drop_clamped {α : Type} (items : List α) (start count : Nat) :
    (items.drop (min start items.length)).take (min count (items.length - min start items.length)) =
      (items.drop start).take count := by
  rcases Nat.le_total start items.length with h | h
  · rw [Nat.min_eq_left h, ← List.length_drop, ← List.take_eq_take_min]
  · rw [Nat.min_eq_right h, List.drop_length, List.drop_eq_nil_of_le h, List.take_nil, List.take_nil]

/-- Clamping changes nothing about a splice. -/
theorem spliced_clamped {α : Type} (items new : List α) (start count : Nat) :
    spliced items (min start items.length) (min count (items.length - min start items.length)) new =
      items.take start ++ new ++ items.drop (start + count) := by
  unfold spliced
  rw [← List.take_eq_take_min]
  congr 1
  rcases Nat.le_total (start + count) items.length with h | h
  · congr 1
    omega
  · rw [List.drop_eq_nil_of_le h, List.drop_eq_nil_of_le (by omega)]

theorem insertIdx_eq_append {α : Type} {items : List α} {n : Nat} (a : α) (h : n ≤ items.length) :
    items.insertIdx n a = items.take n ++ [a] ++ items.drop n := by
  induction n generalizing items with
  | zero => simp
  | succ n ih =>
    cases items with
    | nil => cases h
    | cons b items => simpa using ih (Nat.le_of_succ_le_succ h)

namespace Run

open World

variable {α β : Type} {cb : Callbacks} {w w' : World} {H : List InstanceId} {c : Class} {k : CollectionId}
  {x : Collection} {start count : Nat} {values : List Value}

/-! ## One splice -/

/-- What is left of a run that is followed by something that neither fails nor changes anything. -/
theorem bind_then_same {m : Run α} {f : α → Run Unit}
    (hf : ∀ a w', m w = (.ok a, w') → f a w' = (.ok (), w')) :
    (m >>= f) w = ((m w).1.map fun _ => (), (m w).2) := by
  rw [bind_apply]
  rcases hrun : m w with ⟨e | a, w'⟩
  · rfl
  · exact hf a w' hrun

/-- The same where the result is not looked at. -/
theorem discard_of_eq {m : Run β} {g : Run α} {f : α → Run β} (hm : m w = (g >>= f) w)
    (hf : ∀ a w', g w = (.ok a, w') → ∃ b, f a w' = (.ok b, w')) :
    discard m w = ((g w).1.map fun _ => (), (g w).2) := by
  have hdiscard : discard m = m >>= fun _ => pure () := (bind_pure_comp _ m).symm
  rw [hdiscard, bind_apply, hm, bind_apply]
  rcases hrun : g w with ⟨e | a, w'⟩
  · rfl
  · obtain ⟨b, hb⟩ := hf a w' hrun
    dsimp only
    rw [hb]
    rfl

theorem discard_of_error {m : Run β} {e : Halt} (hm : m w = (.error e, w')) :
    discard m w = (.error e, w') := by
  have hdiscard : discard m = m >>= fun _ => pure () := (bind_pure_comp _ m).symm
  rw [hdiscard, bind_of_error hm]

theorem sizeOf_apply (k : CollectionId) (w : World) : sizeOf k w = (.ok (w.itemsOf k).length, w) := rfl

/-- How a splice ends, seen from the items. -/
structure Splicing (k : CollectionId) (start count : Nat) (values : List Value) (w : World)
    (r : Except Halt (List InstanceId)) (w' : World) : Prop where
  unranged : Unranged r
  done : ∀ removed, r = .ok removed → removed = ((w.itemsOf k).drop start).take count ∧
    ∃ new, List.Forall₂ w.Denotes values new ∧
      w'.itemsOf k = (w.itemsOf k).take start ++ new ++ (w.itemsOf k).drop (start + count)
  failed : ∀ h, r = .error h → w'.itemsOf k = w.itemsOf k
  total : values = [] → ∃ removed, r = .ok removed
  row : w.Follows k w'

theorem insertable_nil (w : World) (m : NodeId) (removed : List InstanceId) :
    Insertable w m removed [] [] :=
  ⟨List.nodup_nil, fun i hi => by cases hi⟩

theorem splicing_splice (hw : w.Ready x.owner c H) (hx : w.coll? k = some x)
    (hcoerce : Coerces cb x.element values w) (start count : Nat) :
    Splicing k start count values w (splice cb k start count values w).1
      (splice cb k start count values w).2 := by
  obtain ⟨htending, hfollows, -, hsplices⟩ :=
    splice_spec hw.orderly hx hw.safe hcoerce start count hw.handles hw.cls
  have hunranged := htending.unranged hw
  have hresult := hcoerce.result
  generalize splice cb k start count values w = out at *
  obtain ⟨r, w'⟩ := out
  dsimp only at *
  refine ⟨hunranged, fun removed hr => ?_, fun e hr => ?_, fun hvalues => ?_, hfollows⟩
  · subst hr
    cases hsplices with
    | done his hitems =>
      rw [take_drop_clamped]
      refine ⟨rfl, _, (hresult _ his).1, ?_⟩
      rw [hitems, spliced_clamped]
  · subst hr
    cases hsplices with
    | refusedValue _ hsame => exact hsame
    | refused _ _ _ hsame => exact hsame
  · subst hvalues
    cases hsplices with
    | refusedValue he _ => cases he
    | refused his hnot _ _ =>
      obtain rfl := Except.ok.inj his
      exact absurd (insertable_nil _ _ _) hnot
    | done _ _ => exact ⟨_, rfl⟩

/-! ## Two splices -/

/-- Without values there is nothing to coerce. -/
theorem spliceBody_nil (cb : Callbacks) (hx : w.coll? k = some x) (start count : Nat) :
    spliceBody cb k start count [] w = spliceItems k x (min start (w.itemsOf k).length)
      (min count ((w.itemsOf k).length - min start (w.itemsOf k).length)) [] w := by
  unfold spliceBody
  rw [bind_of_ok (get_apply w), bind_of_ok (theCollection_of hx)]
  exact bind_of_ok (pure_apply _ w)

/-- What a splice without values leaves behind: nobody stands anywhere anew, and nothing new stands above
the marker. -/
theorem splice_nil_takes (cb : Callbacks) (hw : w.Ready x.owner c H) (hx : w.coll? k = some x) (start count : Nat) :
    (∀ i pl, (splice cb k start count [] w).2.placeOf? i = some pl → w.placeOf? i = some pl) ∧
      ∀ n, ReflTransGen (splice cb k start count [] w).2.forest.Up x.anchor n →
        ReflTransGen w.forest.Up x.anchor n := by
  rw [splice_eq, keeping_apply, spliceBody_nil cb hx]
  have hle : min start (w.itemsOf k).length +
      min count ((w.itemsOf k).length - min start (w.itemsOf k).length) ≤ (w.itemsOf k).length := by
    omega
  generalize min start (w.itemsOf k).length = s at *
  generalize min count ((w.itemsOf k).length - s) = n at *
  obtain ⟨w₂, hrun, hrefills⟩ := spliceItems_ok hw.orderly hx rfl hw.safe.isAlive hle
    (fun i hi => by cases hi) (insertable_nil _ _ _)
  rw [hrun]
  dsimp only
  have hthins := thins_settle { w₂ with pins := ((((w.itemsOf k).drop s).take n).map Held.inst) ++ w.pins }
  refine ⟨fun i pl hi => ?_, fun m hm => hrefills.above m (hthins.above hm)⟩
  have hplace : w₂.placeOf? i = some pl := hthins.place i pl hi
  rw [Layout.Linked.place_iff hrefills.orderly.linked, hrefills.occupants] at hplace
  rw [Layout.Linked.place_iff hw.orderly.linked]
  by_cases hpl : pl = .sequence k
  · subst hpl
    rw [Function.update_self] at hplace
    unfold spliced at hplace
    rw [List.append_nil] at hplace
    rcases List.mem_append.1 hplace with hmem | hmem
    · exact List.mem_of_mem_take hmem
    · exact List.mem_of_mem_drop hmem
  · rw [Function.update_of_ne hpl] at hplace
    exact hplace

/-- The marker of a collection does not stand below the roots of its items. -/
theorem not_above_item (hw : w.Orderly) (hx : w.coll? k = some x) (howner : w.isAlive x.owner = true)
    {i : InstanceId} (hi : i ∈ w.itemsOf k) {r : NodeId} (hr : w.layout.root i = some r) :
    ¬ ReflTransGen w.forest.Up x.anchor r := by
  have htidy := Layout.Linked.tidy hw.linked
  have hspot := spot_of_coll? hx
  obtain ⟨e, he⟩ := Layout.Linked.row hw.linked _ _ _ howner hspot
  have hanchor : w.forest.Up x.anchor e :=
    htidy.parent_of_mem _ _ (he.subset List.mem_cons_self)
  have hroot : w.forest.Up r e := by
    refine htidy.parent_of_mem _ _ (he.subset (List.mem_cons_of_mem _ ?_))
    exact List.mem_filterMap.2 ⟨i, hi, hr⟩
  intro hup
  rcases hup.cases_head with heq | ⟨e', hstep, hrest⟩
  · exact (Layout.Linked.sound hw.linked).marker_not_root _ _ _ hspot ⟨i, heq ▸ hr⟩
  · obtain rfl := hanchor.unique hstep
    exact htidy.acyclic e (TransGen.tail' hrest hroot)

/-- What has been taken out of a collection can be put into it again. -/
theorem insertable_removed (hw : w.Ready x.owner c H) (hx : w.coll? k = some x) {n : Nat} {i : InstanceId}
    (hi : (w.itemsOf k)[n]? = some i) (hw' : (splice cb k n 1 [] w).2.Orderly)
    (hext : w.Extends (splice cb k n 1 [] w).2)
    (hitems : (splice cb k n 1 [] w).2.itemsOf k = (w.itemsOf k).eraseIdx n) :
    Insertable (splice cb k n 1 [] w).2 x.anchor [] [] [i] := by
  obtain ⟨hplace, habove⟩ := splice_nil_takes cb hw hx n 1
  generalize (splice cb k n 1 [] w).2 = w' at *
  have hlinked := hw.orderly.linked
  have hmem := List.mem_of_getElem? hi
  refine ⟨List.nodup_singleton i, fun j hj => ?_⟩
  obtain rfl := List.mem_singleton.1 hj
  refine ⟨List.not_mem_nil, Or.inl ?_, fun r hr hup => ?_⟩
  · cases hnew : w'.placeOf? j with
    | none => rfl
    | some pl =>
      -- it stood in the collection only, and there it is no longer
      have hold := hplace j pl hnew
      rw [(Layout.Linked.place_iff hlinked j (.sequence k)).2 hmem] at hold
      obtain rfl := Option.some.inj hold
      have hstill : j ∈ w'.itemsOf k := (Layout.Linked.place_iff hw'.linked j (.sequence k)).1 hnew
      have hnodup : (w.itemsOf k).Nodup := Layout.Linked.nodup hlinked (.sequence k)
      obtain ⟨hlt, rfl⟩ := List.getElem?_eq_some_iff.1 hi
      rw [hitems, ← hnodup.erase_getElem n hlt] at hstill
      exact absurd hstill hnodup.not_mem_erase
  · obtain ⟨r', hr'⟩ := Layout.Linked.rooted hlinked j (Layout.Linked.live_item hlinked j (.sequence k) hmem)
    obtain rfl := Option.some.inj (hr.symm.trans (hext.root hr'))
    exact not_above_item hw.orderly hx hw.safe.isAlive hmem hr' (habove r hup)

/-- Taking out an item that is there. -/
theorem removeItem_ok (cb : Callbacks) (hw : w.Ready x.owner c H) (hx : w.coll? k = some x) {n : Nat}
    (hn : n < (w.itemsOf k).length) :
    ∃ i w', (w.itemsOf k)[n]? = some i ∧ splice cb k n 1 [] w = (.ok [i], w') ∧
      removeItem cb k n w = (.ok i, w') := by
  have hsplicing : Splicing k n 1 [] w (splice cb k n 1 [] w).1 (splice cb k n 1 [] w).2 :=
    splicing_splice hw hx (coerces_nil hw.orderly) n 1
  obtain ⟨removed, hok⟩ := hsplicing.total rfl
  obtain ⟨hremoved, -⟩ := hsplicing.done removed hok
  rw [List.drop_eq_getElem_cons hn] at hremoved
  obtain rfl : removed = [(w.itemsOf k)[n]] := hremoved
  rcases hrun : splice cb k n 1 [] w with ⟨r, w'⟩
  rw [hrun] at hok
  obtain rfl : r = .ok [(w.itemsOf k)[n]] := hok
  refine ⟨_, w', List.getElem?_eq_getElem hn, rfl, ?_⟩
  unfold removeItem
  rw [bind_of_ok (sizeOf_apply k w), if_neg (Nat.not_le.2 hn)]
  dsimp only
  rw [bind_of_ok hrun]
  rfl

/-- Putting in an instance that is in use, of the element class and insertable. -/
theorem splice_inst_ok (cb : Callbacks) (hw : w.Ready x.owner c H) (hx : w.coll? k = some x)
    {i : InstanceId} (halive : w.isAlive i = true) (haccepts : w.accepts x.element i = true)
    (hinsert : Insertable w x.anchor [] [] [i]) (n : Nat) :
    ∃ w', splice cb k n 0 [.inst i] w = (.ok [], w') ∧ w.Follows k w' ∧
      w'.itemsOf k = (w.itemsOf k).take n ++ [i] ++ (w.itemsOf k).drop n := by
  have hcoerced : coerceAll cb x.element [.inst i] w = (.ok [i], w) := by
    unfold coerceAll
    rw [bind_of_ok (coerce_inst haccepts)]
    rfl
  have hall : ∀ j ∈ [i], w.isAlive j = true := fun j hj => List.mem_singleton.1 hj ▸ halive
  have hcoerce : Coerces cb x.element [.inst i] w := coerces_of_alive hall hw.orderly
  obtain ⟨-, hfollows, -, hsplices⟩ :=
    splice_spec hw.orderly hx hw.safe hcoerce n 0 hw.handles hw.cls
  rcases hrun : splice cb k n 0 [.inst i] w with ⟨r, w'⟩
  rw [hrun] at hfollows hsplices
  dsimp only at hfollows hsplices
  rw [Nat.zero_min] at hsplices
  cases hsplices with
  | refusedValue he _ =>
    rw [hcoerced] at he
    cases he
  | refused his hnot _ _ =>
    rw [hcoerced] at his hnot
    obtain rfl := Except.ok.inj his
    exact absurd hinsert hnot
  | done his hitems =>
    rw [hcoerced] at his
    obtain rfl := Except.ok.inj his
    refine ⟨w', rfl, hfollows, ?_⟩
    have hclamped := spliced_clamped (w.itemsOf k) [i] n 0
    rw [Nat.zero_min] at hclamped
    rw [hitems, hclamped, Nat.add_zero]

/-- Moving an item takes it out and puts it in at its new position. -/
theorem moveItem_ok (cb : Callbacks) (hw : w.Ready x.owner c H) (hx : w.coll? k = some x)
    {source target : Nat} (hs : source < (w.itemsOf k).length) (ht : target < (w.itemsOf k).length)
    (hne : source ≠ target) :
    ∃ i w₁ w₂, splice cb k source 1 [] w = (.ok [i], w₁) ∧ i ∈ w₁.handles ∧
      splice cb k target 0 [.inst i] w₁ = (.ok [], w₂) ∧
      moveItem cb k source target w = (.ok (), w₂) ∧ w.Follows k w₂ ∧
      w₂.itemsOf k = ListEdit.apply (w.itemsOf k) [] (.move source target) := by
  obtain ⟨i, w₁, hi, hsplice, hremove⟩ := removeItem_ok cb hw hx hs
  have hcoerce : Coerces cb x.element [] w := coerces_nil hw.orderly
  obtain ⟨htending, hfollows, hheld, -⟩ :=
    splice_spec hw.orderly hx hw.safe hcoerce source 1 hw.handles hw.cls
  have hready := htending.tends.ready hw
  have hext := htending.tends.extends hw
  obtain ⟨-, new, hnew, hitems⟩ :=
    (splicing_splice hw hx hcoerce source 1).done [i] (by rw [hsplice])
  cases hnew
  rw [List.append_nil, ← List.eraseIdx_eq_take_drop_succ] at hitems
  have hinsert := insertable_removed hw hx hi hready.orderly hext hitems
  have hheld := hheld [i] (by rw [hsplice])
  rw [hsplice] at hfollows hready hext hitems hinsert hheld
  dsimp only at hfollows hready hext hitems hinsert hheld
  obtain ⟨y, hy, hyx⟩ := hext.coll k x hx
  have howner : y.owner = x.owner := congrArg (·.2.2) hyx
  have hanchor : y.anchor = x.anchor := congrArg (·.2.1) hyx
  have helement : y.element = x.element := congrArg (·.1) hyx
  rw [← howner] at hready
  rw [← hanchor] at hinsert
  -- the item is in use and of the element class
  have halive := hready.orderly.handled i (hheld List.mem_cons_self)
  have haccepts : w₁.accepts y.element i = true := by
    rw [helement]
    refine hext.accepts (hw.orderly.accepted k x i hx ?_)
    have hmem := List.mem_of_getElem? hi
    unfold itemsOf at hmem
    rw [hx] at hmem
    exact hmem
  obtain ⟨w₂, hsplice₁, hfollows₁, hitems₁⟩ := splice_inst_ok cb hready hy halive haccepts hinsert target
  refine ⟨i, w₁, w₂, hsplice, hheld List.mem_cons_self, hsplice₁, ?_,
    hfollows.trans hfollows₁ (Layout.Linked.tidy hready.orderly.linked) hext, ?_⟩
  · unfold moveItem
    rw [bind_of_ok (sizeOf_apply k w), if_neg (by omega)]
    dsimp only
    rw [if_pos hne, bind_of_ok hremove, bind_of_ok hsplice₁]
    rfl
  · have hlen := List.length_eraseIdx_of_lt hs
    unfold ListEdit.apply
    dsimp only
    rw [hi]
    dsimp only
    rw [hitems₁, hitems, insertIdx_eq_append i (by omega)]

end Run

/-! ## The edits -/

namespace ListEdit

open Run World

/-- What performing an edit comes down to: it is out of range, or there is nothing to do, or it is one
splice, or an item is taken out and put in elsewhere. -/
inductive Form (cb : Callbacks) (k : CollectionId) (w : World) (e : ListEdit) : Prop where
  | outOfRange {r : Error} : e.OutOfRange (w.itemsOf k).length → r.kind = .rangeKind →
      e.run cb k w = (.error (.failed r), w) → Form cb k w e
  | same : ¬ e.OutOfRange (w.itemsOf k).length → e.values = [] →
      e.apply (w.itemsOf k) [] = w.itemsOf k → e.run cb k w = (.ok (), w) → Form cb k w e
  | splice (start count : Nat) : ¬ e.OutOfRange (w.itemsOf k).length →
      (∀ new, List.Forall₂ w.Denotes e.values new → e.apply (w.itemsOf k) new =
        (w.itemsOf k).take start ++ new ++ (w.itemsOf k).drop (start + count)) →
      e.run cb k w = ((Run.splice cb k start count e.values w).1.map fun _ => (),
        (Run.splice cb k start count e.values w).2) → Form cb k w e
  | move {source target : Nat} : source < (w.itemsOf k).length → target < (w.itemsOf k).length →
      source ≠ target → e = .move source target → Form cb k w e

variable {cb : Callbacks} {w : World} {H : List InstanceId} {c : Class} {k : CollectionId} {x : Collection}

theorem form_splice (start count : Nat) (vs : List Value) : Form cb k w (splice start count vs) := by
  refine .splice start count (fun h => h) (fun _ _ => rfl) ?_
  exact discard_of_eq (f := fun removed => pure removed) (by rw [bind_pure]; rfl) fun removed _ _ => ⟨_, rfl⟩

theorem form_replaceAll (vs : List Value) : Form cb k w (replaceAll vs) := by
  refine .splice 0 (w.itemsOf k).length (fun h => h) (fun new _ => ?_) ?_
  · change new = _
    rw [Nat.zero_add, List.drop_length, List.take_zero, List.append_nil, List.nil_append]
  · refine discard_of_eq (f := fun removed => pure removed) ?_ fun removed _ _ => ⟨_, rfl⟩
    rw [bind_pure]
    exact bind_of_ok (sizeOf_apply k w)

theorem form_push (v : Value) : Form cb k w (push v) := by
  refine .splice (w.itemsOf k).length 0 (fun h => h) (fun new _ => ?_) ?_
  · change w.itemsOf k ++ new = _
    rw [List.take_length, Nat.add_zero, List.drop_length, List.append_nil]
  · refine discard_of_eq (f := fun _ => sizeOf k) ?_ fun _ w' _ => ⟨_, sizeOf_apply k w'⟩
    exact bind_of_ok (sizeOf_apply k w)

theorem form_unshift (v : Value) : Form cb k w (unshift v) := by
  refine .splice 0 0 (fun h => h) (fun _ _ => rfl) ?_
  exact discard_of_eq (f := fun _ => sizeOf k) rfl fun _ w' _ => ⟨_, sizeOf_apply k w'⟩

theorem form_pop : Form cb k w pop := by
  cases hsize : (w.itemsOf k).length with
  | zero =>
    have hnil := List.length_eq_zero_iff.1 hsize
    refine .same (fun h => h) rfl (by rw [hnil]; rfl) ?_
    refine discard_of_eq (g := pure ()) (f := fun _ => pure none) ?_ fun _ _ _ => ⟨none, rfl⟩
    unfold Run.pop
    rw [bind_of_ok (sizeOf_apply k w), hsize]
    rfl
  | succ n =>
    refine .splice n 1 (fun h => h) (fun new hnew => ?_) ?_
    · cases hnew
      change (w.itemsOf k).dropLast = _
      rw [List.dropLast_eq_take, hsize, List.append_nil, List.drop_eq_nil_of_le hsize.le, List.append_nil]
      rfl
    · refine discard_of_eq (f := fun removed => pure removed.getLast?) ?_ fun removed w' _ => ⟨_, rfl⟩
      unfold Run.pop
      rw [bind_of_ok (sizeOf_apply k w), hsize]
      rfl

theorem form_shift : Form cb k w shift := by
  cases hsize : (w.itemsOf k).length with
  | zero =>
    have hnil := List.length_eq_zero_iff.1 hsize
    refine .same (fun h => h) rfl (by rw [hnil]; rfl) ?_
    refine discard_of_eq (g := pure ()) (f := fun _ => pure none) ?_ fun _ _ _ => ⟨none, rfl⟩
    unfold Run.shift
    rw [bind_of_ok (sizeOf_apply k w), hsize]
    rfl
  | succ n =>
    refine .splice 0 1 (fun h => h) (fun new hnew => ?_) ?_
    · cases hnew
      change (w.itemsOf k).tail = _
      rw [List.drop_one.symm, Nat.zero_add]
      rfl
    · refine discard_of_eq (f := fun removed => pure removed.getLast?) ?_ fun removed w' _ => ⟨_, rfl⟩
      unfold Run.shift
      rw [bind_of_ok (sizeOf_apply k w), hsize]
      rfl

theorem form_insert (n : Nat) (v : Value) : Form cb k w (insert n v) := by
  by_cases hout : (w.itemsOf k).length < n
  · have hrun : insertItem cb k n v w = (.error (.failed (.insertRange n (w.itemsOf k).length)), w) := by
      unfold insertItem
      rw [bind_of_ok (sizeOf_apply k w), if_pos hout, bind_of_error (fail_apply _ w)]
    exact .outOfRange hout rfl hrun
  · refine .splice n 0 hout (fun _ _ => rfl) ?_
    change insertItem cb k n v w = _
    unfold insertItem
    rw [bind_of_ok (sizeOf_apply k w), if_neg hout]
    exact bind_then_same fun _ _ _ => rfl

theorem form_move (source target : Nat) : Form cb k w (move source target) := by
  by_cases hout : (w.itemsOf k).length ≤ source ∨ (w.itemsOf k).length ≤ target
  · have hrun : moveItem cb k source target w =
        (.error (.failed (.moveRange source target (w.itemsOf k).length)), w) := by
      unfold moveItem
      rw [bind_of_ok (sizeOf_apply k w), if_pos hout, bind_of_error (fail_apply _ w)]
    exact .outOfRange hout rfl hrun
  · obtain ⟨hs, ht⟩ := not_or.1 hout
    by_cases hne : source = target
    · subst hne
      have hlt := Nat.lt_of_not_le hs
      refine .same hout rfl ?_ ?_
      · unfold apply
        dsimp only
        rw [List.getElem?_eq_getElem hlt]
        exact List.insertIdx_eraseIdx_getElem hlt
      · change moveItem cb k source source w = _
        unfold moveItem
        rw [bind_of_ok (sizeOf_apply k w), if_neg hout]
        dsimp only
        rw [if_neg fun h => h rfl]
        rfl
    · exact .move (Nat.lt_of_not_le hs) (Nat.lt_of_not_le ht) hne rfl

section

variable (hw : w.Ready x.owner c H) (hx : w.coll? k = some x)

include hw hx

theorem form_remove (n : Nat) : Form cb k w (remove n) := by
  rcases Nat.lt_or_ge n (w.itemsOf k).length with hn | hn
  · obtain ⟨i, w', hi, hsplice, hremove⟩ := removeItem_ok cb hw hx hn
    refine .splice n 1 (Nat.not_le.2 hn) (fun new hnew => ?_) ?_
    · cases hnew
      change (w.itemsOf k).eraseIdx n = _
      rw [List.eraseIdx_eq_take_drop_succ, List.append_nil]
    · refine discard_of_eq (f := fun _ => pure i) ?_ fun _ _ _ => ⟨i, rfl⟩
      have hvalues : (remove n).values = [] := rfl
      rw [hvalues, bind_of_ok hsplice]
      exact hremove
  · have hremove : removeItem cb k n w = (.error (.failed (.removeRange n (w.itemsOf k).length)), w) := by
      unfold removeItem
      rw [bind_of_ok (sizeOf_apply k w), if_pos hn, bind_of_error (fail_apply _ w)]
    exact .outOfRange hn rfl (discard_of_error hremove)

theorem form (cb : Callbacks) (e : ListEdit) : Form cb k w e := by
  cases e with
  | splice start count vs => exact form_splice start count vs
  | replaceAll vs => exact form_replaceAll vs
  | push v => exact form_push v
  | unshift v => exact form_unshift v
  | pop => exact form_pop
  | shift => exact form_shift
  | insert n v => exact form_insert n v
  | remove n => exact form_remove hw hx n
  | move source target => exact form_move source target

theorem follows_self : w.Follows k w :=
  (Respects.refl w.anchored_safe).follows hw.orderly hx hw.safe hw.safe.isAlive

/-- An edit that is one splice. -/
theorem refines_of_splice {e : ListEdit} {start count : Nat} (hcoerce : Coerces cb x.element e.values w)
    (hin : ¬ e.OutOfRange (w.itemsOf k).length)
    (happly : ∀ new, List.Forall₂ w.Denotes e.values new → e.apply (w.itemsOf k) new =
      (w.itemsOf k).take start ++ new ++ (w.itemsOf k).drop (start + count)) :
    e.Refines k w ((Run.splice cb k start count e.values w).1.map fun _ => ())
      (Run.splice cb k start count e.values w).2 := by
  have h := splicing_splice hw hx hcoerce start count
  generalize Run.splice cb k start count e.values w = out at *
  obtain ⟨r, w'⟩ := out
  dsimp only at *
  refine ⟨⟨?_, fun hout => absurd hout hin⟩, fun hr => ?_, fun e' hr => ?_, fun hnil _ => ?_, h.row⟩
  · rintro ⟨err, hr, hkind⟩
    cases r with
    | error e' =>
      obtain rfl := Except.error.inj hr
      exact absurd hkind (h.unranged err rfl)
    | ok removed => cases hr
  · cases r with
    | error e' => cases hr
    | ok removed =>
      obtain ⟨-, new, hnew, hitems⟩ := h.done removed rfl
      exact ⟨new, hnew, by rw [happly new hnew, hitems]⟩
  · cases r with
    | error e'' => exact h.failed e'' rfl
    | ok removed => cases hr
  · obtain ⟨removed, rfl⟩ := h.total hnil
    rfl

variable (hcb : cb.Mild) (e : ListEdit) (hv : Value.instancesOfItems e.values ⊆ w.handles)

include hcb hv

/-- Every edit of a collection refines the same edit of a list. -/
theorem refines : e.Refines k w (e.run cb k w).1 (e.run cb k w).2 := by
  cases form hw hx cb e with
  | outOfRange hout hkind hrun =>
    rw [hrun]
    exact ⟨⟨fun _ => hout, fun _ => ⟨_, rfl, hkind⟩⟩, fun h => (by cases h), fun _ _ => rfl,
      fun _ hin => absurd hout hin, follows_self hw hx⟩
  | same hin hvalues happly hrun =>
    rw [hrun]
    refine ⟨⟨?_, fun hout => absurd hout hin⟩, fun _ => ⟨[], by rw [hvalues]; exact .nil, happly.symm⟩,
      fun _ h => (by cases h), fun _ _ => rfl, follows_self hw hx⟩
    rintro ⟨_, h, -⟩
    cases h
  | splice start count hin happly hrun =>
    rw [hrun]
    exact refines_of_splice hw hx (coerces_of_handles hcb hw.orderly hv) hin happly
  | @move source target hs ht hne he =>
    subst he
    obtain ⟨i, w₁, w₂, -, -, -, hmove, hfollows, hitems⟩ := moveItem_ok cb hw hx hs ht hne
    have hrun : (move source target).run cb k w = (.ok (), w₂) := hmove
    rw [hrun]
    have hin : ¬ ((w.itemsOf k).length ≤ source ∨ (w.itemsOf k).length ≤ target) := by omega
    refine ⟨⟨?_, fun hout => absurd hout hin⟩, fun _ => ⟨[], .nil, hitems⟩, fun _ h => (by cases h),
      fun _ _ => rfl, hfollows⟩
    rintro ⟨_, h, -⟩
    cases h

/-- Every edit of a collection tends its owner, and lets go of what it has taken. -/
theorem closes (hs : w.Settled) :
    (e.run cb k w).2.Ready x.owner c H ∧ (e.run cb k w).2.Settled := by
  cases form hw hx cb e with
  | outOfRange _ _ hrun =>
    rw [hrun]
    exact ⟨hw, hs⟩
  | same _ _ _ hrun =>
    rw [hrun]
    exact ⟨hw, hs⟩
  | splice start count _ _ hrun =>
    rw [hrun]
    have hclosing := closing_splice hw hx rfl (coerces_of_handles hcb hw.orderly hv) start count
    exact ⟨hclosing.tends.ready hw, hclosing.settled hw hs⟩
  | @move source target hlt ht hne he =>
    subst he
    obtain ⟨i, w₁, w₂, hsplice, hheld, hsplice₁, hmove, -⟩ := moveItem_ok cb hw hx hlt ht hne
    have hrun : (move source target).run cb k w = (.ok (), w₂) := hmove
    rw [hrun]
    have hclosing : Closing x.owner c H (Run.splice cb k source 1 []) w :=
      closing_splice hw hx rfl (coerces_nil hw.orderly) source 1
    have hready := hclosing.tends.ready hw
    have hsettled := hclosing.settled hw hs
    have hext := hclosing.tends.extends hw
    rw [hsplice] at hready hsettled hext
    obtain ⟨y, hy, hyx⟩ := hext.coll k x hx
    have howner : y.owner = x.owner := congrArg (·.2.2) hyx
    have hheld : Value.instancesOfItems [.inst i] ⊆ w₁.handles := fun j hj => by
      obtain rfl := List.mem_singleton.1 hj
      exact hheld
    have hclosing₁ := closing_splice hready hy howner (coerces_of_handles hcb hready.orderly hheld) target 0
    have hready₁ := hclosing₁.tends.ready hready
    have hsettled₁ := hclosing₁.settled hready hsettled
    rw [hsplice₁] at hready₁ hsettled₁
    exact ⟨hready₁, hsettled₁⟩

end

end ListEdit

end ReactiveView
