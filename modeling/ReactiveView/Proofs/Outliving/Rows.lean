import ReactiveView.Proofs.Ownership.Splice
import ReactiveView.Proofs.Recovery.Loan

/-!
# Rows behind a marker

Whether a splice can be carried out does not depend on the owner of the collection: all that matters is the row
behind the marker. Instances are *lined up* behind a marker when they carry the same record, and their roots
stand in order directly behind it on the list of some node (`World.Lined`). Releasing one of them leaves the
others lined up (`World.Lined.release`), and so does attaching an instance that is free and does not stand above
the marker (`World.Lined.attachAfter`). Either step concerns the record and the root of one instance only
(`World.Reseats`).

A splice of a collection whose items are lined up is carried out if the new instances can be inserted, and they
are lined up with the others then (`Run.spliceItems_lined`). When the marker stands on no list, everything that
has been checked holds all the same, and the first new instance cannot be placed (`Run.spliceItems_unlisted`).
-/

set_option autoImplicit false

namespace ReactiveView

open Relation

namespace Forest

variable {f f' f'' : Forest} {S S' : NodeId → Prop} {n a e : NodeId}

/-- Nodes outside the set are listed where they were. -/
structure Reseats (S : NodeId → Prop) (f f' : Forest) : Prop where
  size : f'.size = f.size
  isAlive : ∀ n, f'.isAlive n = f.isAlive n
  parent : ∀ n, ¬ S n → f'.parent? n = f.parent? n
  listed : ∀ q n, ¬ S n → (n ∈ f'.children q ↔ n ∈ f.children q)

namespace Reseats

theorem rfl : f.Reseats S f := ⟨.refl _, fun _ => .refl _, fun _ _ => .refl _, fun _ _ _ => .rfl⟩

theorem trans (h : f.Reseats S f') (h' : f'.Reseats S f'') : f.Reseats S f'' where
  size := h'.size.trans h.size
  isAlive n := (h'.isAlive n).trans (h.isAlive n)
  parent n hn := (h'.parent n hn).trans (h.parent n hn)
  listed q n hn := (h'.listed q n hn).trans (h.listed q n hn)

theorem mono (h : f.Reseats S f') (hS : ∀ n, S n → S' n) : f.Reseats S' f' where
  size := h.size
  isAlive := h.isAlive
  parent n hn := h.parent n fun hs => hn (hS n hs)
  listed q n hn := h.listed q n fun hs => hn (hS n hs)

theorem isListed (h : f.Reseats S f') (hn : ¬ S n) : f'.isListed n = f.isListed n := by
  unfold Forest.isListed
  rw [h.parent n hn]
  cases f.parent? n with
  | none => exact .refl _
  | some p =>
    have hmem := h.listed p n hn
    rw [← List.contains_iff_mem, ← List.contains_iff_mem] at hmem
    exact Bool.eq_iff_iff.2 hmem

end Reseats

theorem Tidy.reseats_unlink (ht : f.Tidy) (n : NodeId) : f.Reseats (· = n) (f.unlink n) where
  size := size_unlink f n
  isAlive m := isAlive_unlink f n m
  parent m hm := parent?_unlink_of_ne f hm
  listed q m hm := by
    rw [ht.children_unlink]
    exact List.mem_erase_of_ne hm

theorem PutBehind.reseats (h : f.PutBehind f' e a n) : f.Reseats (· = n) f' where
  size := h.size
  isAlive := h.isAlive
  parent := h.parent_other
  listed _ _ hm := h.mem_children_iff hm

end Forest

namespace Layout

variable {L : Layout} {f : Forest} {att : InstanceId → Option Attachment} {live : InstanceId → Prop}
  {b : Attachment} {m a r : NodeId} {is A B : List InstanceId} {x : InstanceId}

/-- The instances `is` carry the record `b`, and their roots stand in order directly behind the node `m` of a
tidy forest. Roots of free instances stand on no list. -/
structure Rowed (L : Layout) (f : Forest) (att : InstanceId → Option Attachment) (live : InstanceId → Prop)
    (b : Attachment) (m : NodeId) (is : List InstanceId) : Prop where
  tidy : f.Tidy
  root_lt : ∀ i r, L.root i = some r → r.index < f.size
  root_inj : ∀ i j r, L.root i = some r → L.root j = some r → i = j
  marker : ¬ L.IsRoot m
  rooted : ∀ i, live i → ∃ r, L.root i = some r
  unlisted : ∀ i r q, att i = none → L.root i = some r → r ∉ f.children q
  nodup : is.Nodup
  live_item : ∀ i ∈ is, live i
  record : ∀ i ∈ is, att i = some b
  row : ∃ e s t, f.children e = s ++ m :: is.filterMap L.root ++ t

namespace Rowed

/-- One of the instances is taken out. -/
theorem detach (h : L.Rowed f att live b m (A ++ x :: B)) (hr : L.root x = some r) :
    L.Rowed (f.unlink r) (Function.update att x none) live b m (A ++ B) where
  tidy := h.tidy.unlink r
  root_lt i q hq := by
    rw [Forest.size_unlink]
    exact h.root_lt i q hq
  root_inj := h.root_inj
  marker := h.marker
  rooted := h.rooted
  unlisted i q p hi hq hmem := by
    rw [h.tidy.children_unlink] at hmem
    obtain ⟨hne, hmem⟩ := (h.tidy.nodup p).mem_erase_iff.1 hmem
    by_cases hix : i = x
    · subst hix
      exact hne (Option.some.inj (hq.symm.trans hr))
    · rw [Function.update_of_ne hix] at hi
      exact h.unlisted i q p hi hq hmem
  nodup := (List.nodup_cons.1 (List.perm_middle.nodup_iff.1 h.nodup)).2
  live_item i hi := h.live_item i (List.perm_middle.mem_iff.2 (List.mem_cons_of_mem x hi))
  record i hi := by
    have hnot := (List.nodup_cons.1 (List.perm_middle.nodup_iff.1 h.nodup)).1
    have hne : i ≠ x := fun hix => hnot (hix ▸ hi)
    rw [Function.update_of_ne hne]
    exact h.record i (List.perm_middle.mem_iff.2 (List.mem_cons_of_mem x hi))
  row := by
    obtain ⟨e, s, t, hst⟩ := h.row
    exact ⟨e, s, t, row_unlink h.tidy hr hst⟩

variable {pre post : List InstanceId} {init : List NodeId}

/-- What does not stand above the marker does not stand above a node of the row either, unless it is one. -/
theorem not_above (h : L.Rowed f att live b m (pre ++ post)) (hfree : att x = none) (hr : L.root x = some r)
    (ha : m :: pre.filterMap L.root = init ++ [a]) (hout : ¬ ReflTransGen f.Up m r) :
    ¬ ReflTransGen f.Up a r := by
  obtain ⟨e, s, t, hst⟩ := h.row
  rw [List.filterMap_append, ← List.cons_append, ha] at hst
  have hlisted (q : NodeId) (hq : q ∈ init ++ [a]) : q ∈ f.children e := by
    rw [hst]
    exact List.mem_append_left _ (List.mem_append_right _ (List.mem_append_left _ hq))
  have hm := hlisted m (ha ▸ List.mem_cons_self)
  have hae := hlisted a (List.mem_append_right _ (List.mem_singleton_self a))
  intro hup
  rcases ReflTransGen.cases_head hup with rfl | ⟨q, hq, hup⟩
  · exact h.unlisted x a e hfree hr hae
  · obtain rfl := Forest.Up.unique hq (h.tidy.parent_of_mem a e hae)
    exact hout (.head (h.tidy.parent_of_mem m q hm) hup)

/-- A free instance that does not stand above the marker is put behind the first ones. -/
theorem attach (h : L.Rowed f att live b m (pre ++ post)) (hx : live x) (hr : L.root x = some r)
    (hfree : att x = none) (ha : m :: pre.filterMap L.root = init ++ [a])
    (hout : ¬ ReflTransGen f.Up m r) :
    ∃ f', f.insertAfter a r = (.ok (), f') ∧ f.Reseats (· = r) f' ∧
      (∀ n, ReflTransGen f'.Up m n → ReflTransGen f.Up m n) ∧
      L.Rowed f' (Function.update att x (some b)) live b m (pre ++ x :: post) := by
  obtain ⟨e, s, t, hst⟩ := h.row
  have hsplit := hst
  rw [List.filterMap_append, ← List.cons_append, ha] at hsplit
  have hlisted (q : NodeId) (hq : q ∈ init ++ [a]) : q ∈ f.children e := by
    rw [hsplit]
    exact List.mem_append_left _ (List.mem_append_right _ (List.mem_append_left _ hq))
  have hm := hlisted m (ha ▸ List.mem_cons_self)
  have hae := hlisted a (List.mem_append_right _ (List.mem_singleton_self a))
  have hnone (q : NodeId) : r ∉ f.children q := h.unlisted x r q hfree hr
  have hup_m := h.tidy.parent_of_mem m e hm
  have hout_e : ¬ ReflTransGen f.Up e r := fun hup => hout (.head hup_m hup)
  have hmr : m ≠ r := by
    rintro rfl
    exact hout .refl
  obtain ⟨f', hf', hput⟩ := h.tidy.insertAfter (h.root_lt x r hr) hnone hae
  have hnot : x ∉ pre ++ post := fun hmem => by
    rw [h.record x hmem] at hfree
    cases hfree
  refine ⟨f', hf', hput.reseats, fun n hn => ?_, ?_⟩
  · rcases ReflTransGen.cases_head hn with rfl | ⟨q, hq, hqn⟩
    · exact .refl
    · rcases hput.transGen_cases hout_e (TransGen.head' hq hqn) with hold | ⟨habove, -⟩
      · exact hold.to_reflTransGen
      · exact absurd habove hout
  · refine ⟨hput.tidy h.tidy hnone hout_e, fun i q hq => ?_, h.root_inj, h.marker, h.rooted,
      fun i q p hi hq hmem => ?_, List.perm_middle.nodup_iff.2 (List.nodup_cons.2 ⟨hnot, h.nodup⟩),
      fun i hi => ?_, fun i hi => ?_, e, s, t, row_putBehind h.tidy hput hr ha hst⟩
    · rw [hput.size]
      exact h.root_lt i q hq
    · by_cases hix : i = x
      · subst hix
        rw [Function.update_self] at hi
        cases hi
      · rw [Function.update_of_ne hix] at hi
        have hqr : q ≠ r := by
          rintro rfl
          exact hix (h.root_inj i x q hq hr)
        exact h.unlisted i q p hi hq ((hput.mem_children_iff hqr).1 hmem)
    · rcases List.mem_cons.1 (List.perm_middle.mem_iff.1 hi) with rfl | hi
      · exact hx
      · exact h.live_item i hi
    · by_cases hix : i = x
      · subst hix
        exact Function.update_self _ _ _
      · rw [Function.update_of_ne hix]
        exact h.record i ((List.mem_cons.1 (List.perm_middle.mem_iff.1 hi)).resolve_left hix)

end Rowed

end Layout

/-- An instance without its record. -/
def Instance.unattached (x : Instance) : Instance := { x with attachment := none }

/-- A collection without its items. -/
def Collection.emptied (x : Collection) : Collection := { x with items := [] }

namespace World

variable {w w' w'' : World} {S S' : InstanceId → Prop} {i : InstanceId} {m anchor r : NodeId} {b : Attachment}
  {A B R is pre post : List InstanceId} {init : List NodeId} {c : CollectionId} {x : Collection}

/-! ## Instances that change their seats -/

/-- Only the items of collections, and of the instances in a set the records and the places of their roots, are
different. -/
structure Reseats (S : InstanceId → Prop) (w w' : World) : Prop where
  classes : w'.classes = w.classes
  spaces : w'.spaces = w.spaces
  registry : w'.registry = w.registry
  pins : w'.pins = w.pins
  inst : ∀ i, (w'.inst? i).map Instance.unattached = (w.inst? i).map Instance.unattached
  coll : ∀ d, (w'.coll? d).map Collection.emptied = (w.coll? d).map Collection.emptied
  attachment : ∀ i, ¬ S i → w'.attachment? i = w.attachment? i
  forest : w.forest.Reseats (fun n => ∃ i, S i ∧ w.rootOf? i = some n) w'.forest

namespace Reseats

theorem shape (h : w.Reseats S w') : w.SameShape w' where
  classes := h.classes
  inst i := by
    have hi := congrArg (Option.map Instance.shape) (h.inst i)
    rwa [Option.map_map, Option.map_map] at hi
  coll d := by
    have hd := congrArg (Option.map Collection.shape) (h.coll d)
    rwa [Option.map_map, Option.map_map] at hd
  objects n := by
    unfold space?
    rw [h.spaces]

theorem isAlive (h : w.Reseats S w') (i : InstanceId) : w'.isAlive i = w.isAlive i := by
  have hi := congrArg (Option.map (·.alive)) (h.inst i)
  rw [Option.map_map, Option.map_map] at hi
  exact isAlive_congr hi

theorem rfl : w.Reseats S w :=
  ⟨.refl _, .refl _, .refl _, .refl _, fun _ => .refl _, fun _ => .refl _, fun _ _ => .refl _, .rfl⟩

theorem trans (h : w.Reseats S w') (h' : w'.Reseats S w'') : w.Reseats S w'' where
  classes := h'.classes.trans h.classes
  spaces := h'.spaces.trans h.spaces
  registry := h'.registry.trans h.registry
  pins := h'.pins.trans h.pins
  inst i := (h'.inst i).trans (h.inst i)
  coll d := (h'.coll d).trans (h.coll d)
  attachment i hi := (h'.attachment i hi).trans (h.attachment i hi)
  forest := h.forest.trans (h'.forest.mono fun _ ⟨i, hi, hr⟩ => ⟨i, hi, (h.shape.rootOf? i).symm.trans hr⟩)

theorem mono (h : w.Reseats S w') (hS : ∀ i, S i → S' i) : w.Reseats S' w' where
  classes := h.classes
  spaces := h.spaces
  registry := h.registry
  pins := h.pins
  inst := h.inst
  coll := h.coll
  attachment i hi := h.attachment i fun hs => hi (hS i hs)
  forest := h.forest.mono fun _ ⟨i, hi, hr⟩ => ⟨i, hS i hi, hr⟩

theorem exists_inst (h : w.Reseats S w') {x : Instance} (hx : w.inst? i = some x) :
    ∃ a, w'.inst? i = some { x with attachment := a } := by
  have hi := h.inst i
  rw [hx] at hi
  obtain ⟨y, hy, hyx⟩ := Option.map_eq_some_iff.1 hi
  refine ⟨y.attachment, hy.trans (congrArg some ?_)⟩
  exact congrArg (fun z : Instance => { z with attachment := y.attachment }) hyx

theorem exists_coll (h : w.Reseats S w') (hx : w.coll? c = some x) :
    ∃ items, w'.coll? c = some { x with items := items } := by
  have hc := h.coll c
  rw [hx] at hc
  obtain ⟨y, hy, hyx⟩ := Option.map_eq_some_iff.1 hc
  refine ⟨y.items, hy.trans (congrArg some ?_)⟩
  exact congrArg (fun z : Collection => { z with items := y.items }) hyx

/-- One instance is attached or set free. -/
theorem reattach (w : World) (i : InstanceId) (a : Option Attachment) {g : Forest → Forest}
    (hr : w.rootOf? i = some r) (hg : w.forest.Reseats (· = r) (g w.forest)) :
    w.Reseats (· = i) ((w.setAttachment i a).mapForest g) where
  classes := .refl _
  spaces := .refl _
  registry := .refl _
  pins := .refl _
  inst j := map_inst?_setAttachment Instance.unattached (fun _ _ => .refl _) w i a j
  coll _ := .refl _
  attachment _ hj := attachment?_modifyInstance_of_ne w hj
  forest := hg.mono fun _ hn => ⟨i, .refl _, hn ▸ hr⟩

theorem setItems (w : World) (c : CollectionId) (items : List InstanceId) :
    w.Reseats S (w.setItems c items) where
  classes := .refl _
  spaces := .refl _
  registry := .refl _
  pins := .refl _
  inst _ := .refl _
  coll d := map_coll?_modifyCollection Collection.emptied (f := fun x => { x with items := items })
    (fun _ => .refl _) w c d
  attachment _ _ := .refl _
  forest := .rfl

end Reseats

/-! ## Instances in line -/

/-- The instances `is` carry the record `b`, and their roots stand in order behind the node `m`. -/
def Lined (w : World) (b : Attachment) (m : NodeId) (is : List InstanceId) : Prop :=
  w.layout.Rowed w.forest w.attachment? (fun i => w.isAlive i = true) b m is

/-- What a line is read off, apart from the records and the forest. -/
theorem Reseats.lined (h : w.Reseats S w')
    (hrow : w.layout.Rowed w'.forest w'.attachment? (fun i => w.isAlive i = true) b m is) : w'.Lined b m is := by
  unfold Lined
  rw [h.shape.layout, funext h.isAlive]
  exact hrow

/-- One of the instances is released. -/
theorem Lined.release (h : w.Lined b m (A ++ i :: B)) :
    ∃ w', Run.release i w = (.ok (), w') ∧ w'.collections = w.collections ∧ w.Reseats (· = i) w' ∧
      w'.attachment? = Function.update w.attachment? i none ∧
      (∀ n, ReflTransGen w'.forest.Up m n → ReflTransGen w.forest.Up m n) ∧ w'.Lined b m (A ++ B) := by
  have hi : i ∈ A ++ i :: B := List.mem_append_right A List.mem_cons_self
  obtain ⟨r, hr⟩ := h.rooted i (h.live_item i hi)
  have hreseats : w.Reseats (· = i) (w.taken i r) := .reattach w i none hr (h.tidy.reseats_unlink r)
  have hatt : (w.taken i r).attachment? = Function.update w.attachment? i none :=
    attachment?_setAttachment_none w i
  refine ⟨w.taken i r, ?_, rfl, hreseats, hatt, fun n hn => ?_, hreseats.lined ?_⟩
  · refine Run.release_of ?_ hr
    unfold isAttached
    rw [h.record i hi]
    rfl
  · exact ReflTransGen.mono (fun _ _ hup => (Forest.up_of_unlink hup).2) _ _ hn
  · rw [hatt]
    exact Layout.Rowed.detach h hr

/-- A free instance that does not stand above the marker is attached behind the first ones. -/
theorem Lined.attachAfter (h : w.Lined b m (pre ++ post)) (hi : w.isAlive i = true)
    (hr : w.layout.root i = some r) (hfree : w.attachment? i = none)
    (hlast : m :: pre.filterMap w.layout.root = init ++ [anchor]) (hout : ¬ ReflTransGen w.forest.Up m r) :
    ∃ w', Run.attachAfter i anchor b w = (.ok (), w') ∧ w'.collections = w.collections ∧ w.Reseats (· = i) w' ∧
      w'.attachment? = Function.update w.attachment? i (some b) ∧
      (∀ n, ReflTransGen w'.forest.Up m n → ReflTransGen w.forest.Up m n) ∧ w'.Lined b m (pre ++ i :: post) := by
  obtain ⟨f', hf', hreseat, habove, hrow⟩ := Layout.Rowed.attach h hi hr hfree hlast hout
  have hreseats : w.Reseats (· = i) ((w.setAttachment i (some b)).mapForest fun _ => f') :=
    .reattach w i (some b) hr hreseat
  have hatt : ((w.setAttachment i (some b)).mapForest fun _ => f').attachment? =
      Function.update w.attachment? i (some b) :=
    attachment?_setAttachment_some (exists_inst_of_rootOf? hr) b
  have hnot : w.isAttached i = false := by
    unfold isAttached
    rw [hfree]
    rfl
  have hrun := Run.attachAfter_of (a := b) h.tidy hnot hr (Layout.Rowed.not_above h hfree hr hlast hout) hf'
  exact ⟨_, hrun, rfl, hreseats, hatt, habove, hreseats.lined (hatt ▸ hrow)⟩

/-! ## Several instances -/

/-- Some of the instances are released one after the other. -/
theorem Lined.forM_release (h : w.Lined b m (A ++ R ++ B)) :
    ∃ w', R.forM Run.release w = (.ok (), w') ∧ w'.collections = w.collections ∧ w.Reseats (· ∈ R) w' ∧
      (∀ i, w.attachment? i = none ∨ i ∈ R → w'.attachment? i = none) ∧
      (∀ n, ReflTransGen w'.forest.Up m n → ReflTransGen w.forest.Up m n) ∧ w'.Lined b m (A ++ B) := by
  induction R generalizing w with
  | nil =>
    rw [List.append_nil] at h
    exact ⟨w, rfl, rfl, .rfl, fun i hi => hi.resolve_right List.not_mem_nil, fun _ => id, h⟩
  | cons j R ih =>
    rw [List.append_assoc, List.cons_append] at h
    obtain ⟨w₁, hrun, hcolls, hreseats, hatt, habove, hlined⟩ := h.release
    rw [← List.append_assoc] at hlined
    obtain ⟨w₂, hrun', hcolls', hreseats', hatt', habove', hlined'⟩ := ih hlined
    refine ⟨w₂, ?_, hcolls'.trans hcolls, ?_, fun i hi => hatt' i ?_, fun n hn => habove n (habove' n hn), hlined'⟩
    · rw [Run.forM_cons, Run.bind_of_ok hrun, hrun']
    · refine (hreseats.mono fun i hi => ?_).trans (hreseats'.mono fun i hi => List.mem_cons_of_mem j hi)
      rw [hi]
      exact List.mem_cons_self
    · rw [hatt]
      by_cases hij : i = j
      · subst hij
        exact Or.inl (Function.update_self _ _ _)
      · rw [Function.update_of_ne hij]
        exact hi.imp_right (List.mem_of_ne_of_mem hij)

/-- Free instances that do not stand above the marker are attached one behind the other. -/
theorem Lined.attachInOrder (h : w.Lined b m (pre ++ post))
    (hlast : m :: pre.filterMap w.layout.root = init ++ [anchor]) (hnd : is.Nodup)
    (his : ∀ i ∈ is, w.isAlive i = true ∧ w.attachment? i = none ∧
      ∀ r, w.layout.root i = some r → ¬ ReflTransGen w.forest.Up m r) :
    ∃ w', Run.attachInOrder b anchor is w = (.ok (), w') ∧ w'.collections = w.collections ∧
      w.Reseats (· ∈ is) w' ∧ w'.Lined b m (pre ++ is ++ post) := by
  induction is generalizing w pre init anchor with
  | nil =>
    rw [List.append_nil]
    exact ⟨w, rfl, rfl, .rfl, h⟩
  | cons i is ih =>
    obtain ⟨hi, hfree, hout⟩ := his i List.mem_cons_self
    obtain ⟨r, hr⟩ := h.rooted i hi
    obtain ⟨w₁, hrun, hcolls, hreseats, hatt, habove, hlined⟩ :=
      h.attachAfter hi hr hfree hlast (hout r hr)
    have hr₁ : w₁.layout.root i = some r := by rw [hreseats.shape.layout, hr]
    have hlast₁ : m :: (pre ++ [i]).filterMap w₁.layout.root = (init ++ [anchor]) ++ [r] := by
      rw [List.filterMap_append, List.filterMap_cons_some hr₁, List.filterMap_nil, ← List.cons_append,
        hreseats.shape.layout, hlast]
    obtain ⟨hnot, hnd⟩ := List.nodup_cons.1 hnd
    rw [List.append_cons] at hlined
    obtain ⟨w₂, hrun', hcolls', hreseats', hlined'⟩ := ih hlined hlast₁ hnd fun j hj => by
      obtain ⟨hjalive, hjfree, hjout⟩ := his j (List.mem_cons_of_mem i hj)
      have hji : j ≠ i := fun hji => hnot (hji ▸ hj)
      refine ⟨by rw [hreseats.isAlive, hjalive], ?_, fun q hq hup => ?_⟩
      · rw [hatt, Function.update_of_ne hji, hjfree]
      · rw [hreseats.shape.layout] at hq
        exact hjout q hq (habove q hup)
    rw [List.append_assoc pre, List.singleton_append] at hlined'
    refine ⟨w₂, ?_, hcolls'.trans hcolls, ?_, hlined'⟩
    · unfold Run.attachInOrder
      rw [Run.bind_of_ok hrun, Run.bind_of_ok (Run.theRoot_of_root hr₁), hrun']
    · refine (hreseats.mono fun j hj => ?_).trans (hreseats'.mono fun j hj => List.mem_cons_of_mem i hj)
      rw [hj]
      exact List.mem_cons_self

end World

namespace Run

open World

variable {w : World} {c d : CollectionId} {x : Collection} {start count : Nat} {inserted : List InstanceId}
  {i : InstanceId}

theorem coll?_setItems (hx : w.coll? c = some x) (items : List InstanceId) :
    (w.setItems c items).coll? c = some { x with items := items } := by
  unfold setItems
  rw [coll?_modifyCollection_self, hx]
  rfl

/-- Instances that can be inserted are put between those that stand in line. -/
theorem spliceItems_lined (hx : w.coll? c = some x) (h : w.Lined ⟨.sequence c, x.sink⟩ x.anchor x.items)
    (hle : start + count ≤ x.items.length) (hins : ∀ i ∈ inserted, w.isAlive i = true)
    (hok : Insertable w x.anchor ((x.items.drop start).take count) [] inserted) :
    ∃ w', spliceItems c x start count inserted w = (.ok ((x.items.drop start).take count), w') ∧
      w'.coll? c = some { x with items := spliced x.items start count inserted } ∧
      (∀ d, d ≠ c → w'.coll? d = w.coll? d) ∧
      w.Reseats (fun i => i ∈ (x.items.drop start).take count ∨ i ∈ inserted) w' ∧
      w'.Lined ⟨.sequence c, x.sink⟩ x.anchor (spliced x.items start count inserted) := by
  have hcheck := (checkInserted_apply x.anchor ((x.items.drop start).take count) [] h.tidy
    (fun i hi => h.rooted i (hins i hi))).resolve_right fun hn => hn.1 hok
  unfold spliceItems
  rw [bind_of_ok (ask_apply _ _), itemsOf_of_coll? hx]
  dsimp only
  rw [bind_of_ok hcheck.2]
  have hspliced : spliced x.items start count inserted =
    x.items.take start ++ inserted ++ x.items.drop (start + count) := rfl
  have hlen : (x.items.take start).length = start := by
    rw [List.length_take]
    omega
  generalize spliced x.items start count inserted = items at hspliced ⊢
  have hsplit := mem_take_drop x.items start count
  rw [← hsplit] at h
  obtain ⟨w₁, hrun₁, hcolls₁, hreseats₁, hatt₁, habove₁, hlined₁⟩ := h.forM_release
  have hx₁ : w₁.coll? c = some x := by
    unfold coll? at hx ⊢
    rw [hcolls₁, hx]
  have hreseats₂ := hreseats₁.trans (.setItems w₁ c items)
  have htake : items.take start = x.items.take start := by
    rw [hspliced, List.append_assoc, List.take_left' hlen]
  have hroot (i : InstanceId) (hi : i ∈ items.take start) : ∃ r, (w₁.setItems c items).layout.root i = some r := by
    rw [hreseats₂.shape.layout]
    rw [htake] at hi
    exact h.rooted i (h.live_item i (List.mem_append_left _ (List.mem_append_left _ hi)))
  obtain ⟨anchor, init, hnode, hlast⟩ := nodeBefore_ok (m := x.anchor) (by
    rw [hspliced, List.length_append, List.length_append, hlen]
    omega) hroot
  rw [htake] at hlast
  have hlined₂ : (w₁.setItems c items).Lined ⟨.sequence c, x.sink⟩ x.anchor
      (x.items.take start ++ x.items.drop (start + count)) :=
    (Reseats.setItems (S := fun _ => False) w₁ c items).lined hlined₁
  obtain ⟨w₃, hrun₃, hcolls₃, hreseats₃, hlined₃⟩ := hlined₂.attachInOrder hlast hok.1 fun i hi => by
    obtain ⟨-, hplace, hout⟩ := hok.2 i hi
    refine ⟨by rw [hreseats₂.isAlive, hins i hi], hatt₁ i (hplace.imp_left placeOf?_eq_none_iff_attachment?.1), fun r hr hup => ?_⟩
    rw [hreseats₂.shape.layout] at hr
    exact hout r hr (habove₁ r hup)
  have hcoll (d : CollectionId) : w₃.coll? d = (w₁.setItems c items).coll? d := by
    unfold coll?
    rw [hcolls₃]
  refine ⟨w₃, ?_, ?_, fun d hd => ?_, ?_, ?_⟩
  · rw [bind_of_ok hrun₁, bind_of_ok (update_apply _ _), bind_of_ok hnode, bind_of_ok hrun₃, pure_apply]
  · rw [hcoll, coll?_setItems hx₁]
  · rw [hcoll]
    unfold setItems
    rw [coll?_modifyCollection_of_ne w₁ _ (Ne.symm hd)]
    unfold coll?
    rw [hcolls₁]
  · exact (hreseats₂.mono fun _ => Or.inl).trans (hreseats₃.mono fun _ => Or.inr)
  · rw [hspliced]
    exact hlined₃

/-- Behind a marker that stands on no list nothing can be placed. -/
theorem attachAfter_unlisted {anchor : NodeId} {a : Attachment} (ht : w.forest.Tidy)
    (hlist : ∀ q, anchor ∉ w.forest.children q) (hnot : w.isAttached i = false) {r : NodeId}
    (hr : w.layout.root i = some r) (hout : ¬ ReflTransGen w.forest.Up anchor r) :
    ∃ e g, (e = .anchorNotListed ∨ e = .anchorOutsideTree) ∧ w.forest.Reseats (· = r) g ∧
      attachAfter i anchor a w = (.error (.failed e), w.mapForest fun _ => g) := by
  have hfail : ∃ e g, (e = .anchorNotListed ∨ e = .anchorOutsideTree) ∧ w.forest.Reseats (· = r) g ∧
      w.forest.insertAfter anchor r = (.error e, g) := by
    unfold Forest.insertAfter
    cases hp : w.forest.parent? anchor with
    | none => exact ⟨_, _, Or.inr rfl, .rfl, rfl⟩
    | some p =>
      have hidx : ((w.forest.unlink r).children p).idxOf? anchor = none := by
        rw [ht.children_unlink, List.idxOf?_eq_none_iff]
        exact fun hmem => hlist p (List.mem_of_mem_erase hmem)
      dsimp only
      rw [hidx]
      exact ⟨_, _, Or.inl rfl, ht.reseats_unlink r, rfl⟩
  obtain ⟨e, g, he, hreseats, hinsert⟩ := hfail
  refine ⟨e, g, he, hreseats, ?_⟩
  unfold attachAfter
  rw [bind_of_ok (get_apply w), hnot, if_neg Bool.false_ne_true]
  dsimp only
  rcases checkOutside_apply anchor ht hr with ⟨hcheck, -⟩ | ⟨-, hup⟩
  · have hedit : edit (fun f => f.insertAfter anchor r) w = (.error (.failed e), w.mapForest fun _ => g) := by
      rw [edit_apply, hinsert, ofExcept_error]
    rw [bind_of_ok hcheck, bind_of_ok (theRoot_of_root hr), bind_of_error hedit]
  · exact absurd hup hout

/-- When the marker of an empty collection stands on no list, a splice writes the new items and then fails. -/
theorem spliceItems_unlisted (hx : w.coll? c = some x) (hempty : x.items = []) (ht : w.forest.Tidy)
    (hlist : ∀ q, x.anchor ∉ w.forest.children q)
    (hroot : ∀ j ∈ i :: inserted, ∃ r, w.layout.root j = some r)
    (hok : Insertable w x.anchor [] [] (i :: inserted)) :
    ∃ e w', (e = .anchorNotListed ∨ e = .anchorOutsideTree) ∧
      spliceItems c x 0 0 (i :: inserted) w = (.error (.failed e), w') ∧
      w'.coll? c = some { x with items := i :: inserted } ∧ (∀ d, d ≠ c → w'.coll? d = w.coll? d) ∧
      w'.attachment? = w.attachment? ∧ w.Reseats (· = i) w' := by
  have hcheck := (checkInserted_apply x.anchor [] [] ht hroot).resolve_right fun hn => hn.1 hok
  obtain ⟨r, hr⟩ := hroot i List.mem_cons_self
  obtain ⟨-, hplace, hout⟩ := hok.2 i List.mem_cons_self
  have hfree : w.attachment? i = none :=
    placeOf?_eq_none_iff_attachment?.1 (hplace.resolve_right List.not_mem_nil)
  have hnot : (w.setItems c (i :: inserted)).isAttached i = false := by
    unfold isAttached
    rw [show (w.setItems c (i :: inserted)).attachment? i = w.attachment? i from rfl, hfree]
    rfl
  have hreseats : w.Reseats (· = i) (w.setItems c (i :: inserted)) := .setItems w c _
  obtain ⟨e, g, he, hg, hattach⟩ := attachAfter_unlisted (a := ⟨.sequence c, x.sink⟩)
    (w := w.setItems c (i :: inserted)) ht hlist hnot (by rw [hreseats.shape.layout, hr]) (hout r hr)
  refine ⟨e, (w.setItems c (i :: inserted)).mapForest fun _ => g, he, ?_, coll?_setItems hx _, fun d hd => ?_, rfl, ?_⟩
  · unfold spliceItems
    rw [bind_of_ok (ask_apply _ _), itemsOf_of_coll? hx, hempty]
    simp only [List.drop_nil, List.take_nil]
    rw [bind_of_ok hcheck.2, bind_of_ok (show ([] : List InstanceId).forM release w = (.ok (), w) from rfl),
      bind_of_ok (update_apply _ _)]
    have hnode : nodeBefore x.anchor (spliced [] 0 0 (i :: inserted)) 0 (w.setItems c (i :: inserted)) =
        (.ok x.anchor, w.setItems c (i :: inserted)) := rfl
    have hitems : spliced [] 0 0 (i :: inserted) = i :: inserted := by simp [spliced]
    rw [hitems] at hnode ⊢
    rw [bind_of_ok hnode]
    unfold attachInOrder
    rw [bind_of_error (bind_of_error hattach)]
  · unfold setItems
    exact coll?_modifyCollection_of_ne w _ (Ne.symm hd)
  · exact ⟨rfl, rfl, rfl, rfl, fun _ => rfl, hreseats.coll, fun _ _ => rfl,
      hg.mono fun n hn => ⟨i, rfl, hn ▸ hr⟩⟩

end Run

end ReactiveView
