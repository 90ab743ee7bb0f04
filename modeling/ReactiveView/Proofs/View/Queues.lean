import ReactiveView.Proofs.Forest.Recast
import ReactiveView.Proofs.View.Formats
import ReactiveView.Screen.Basic
import Mathlib.Data.List.Nodup

/-!
# Formatted attributes and their queues

Every formatted attribute has a *home*, the queue that it waits in. It is pending exactly when it is in its
home, where it is once; it is in no other queue; and while it is not pending, what it last wrote to its
element is its present text (`Screen.Queued`).

This is kept by rendering into attributes whose home is the queue that is used
(`Screen.Queued.render`), by flushing any queue (`Screen.Queued.flush`), by new queues, and by new
attributes that have been written (`Screen.Queued.extend`). What rendering and flushing do to each single
attribute is stated exactly (`Screen.binding?_render`, `Screen.flushed_flush`).
-/

set_option autoImplicit false

namespace ReactiveView

namespace Screen

/-- The attributes that wait in a queue, in order. -/
def waiting? (s : Screen) (q : QueueId) : Option (List BindingId) := (s.queue? q).map (·.pending)

/-- Formatted attributes wait in their homes, and those that do not wait have written their texts. -/
structure Queued (s : Screen) (home : BindingId → QueueId) : Prop where
  pending_iff : ∀ b x, s.binding? b = some x →
    (x.pending = true ↔ ∃ bs, s.waiting? (home b) = some bs ∧ b ∈ bs)
  home : ∀ q bs b, s.waiting? q = some bs → b ∈ bs → home b = q ∧ (s.binding? b).isSome = true
  nodup : ∀ q bs, s.waiting? q = some bs → bs.Nodup
  owner : ∀ b x, s.binding? b = some x → x.owner.index < s.forest.size
  written : ∀ b x, s.binding? b = some x → x.pending = false → s.forest.isAlive x.owner = true →
    x.written = some x.joined

variable {s s' : Screen} {home : BindingId → QueueId} {q : QueueId} {b b' : BindingId}

/-! ## Look-ups after a change -/

theorem binding?_modifyBinding_self (s : Screen) (b : BindingId) (f : Binding → Binding) :
    (s.modifyBinding b f).binding? b = (s.binding? b).map f :=
  Table.get?_modify_self _ _ _

theorem binding?_modifyBinding_of_ne (s : Screen) (f : Binding → Binding) (h : b' ≠ b) :
    (s.modifyBinding b f).binding? b' = s.binding? b' := by
  refine Table.get?_modify_of_ne _ _ _ _ fun hindex => h ?_
  cases b
  cases b'
  exact congrArg _ hindex.symm

theorem binding?_addBinding (s : Screen) (x : Binding) (b : BindingId) :
    (s.addBinding x).2.binding? b = if b = ⟨s.bindings.size⟩ then some x else s.binding? b := by
  change (s.bindings.entries.push x)[b.index]? = _
  rw [Array.getElem?_push]
  obtain ⟨i⟩ := b
  simp only [BindingId.mk.injEq]
  rfl

theorem waiting?_modifyQueue_self (s : Screen) (q : QueueId) (f : Queue → Queue) :
    (s.modifyQueue q f).waiting? q = (s.queue? q).map fun y => (f y).pending := by
  unfold waiting? queue? modifyQueue
  rw [Table.get?_modify_self, Option.map_map]
  rfl

theorem waiting?_modifyQueue_of_ne (s : Screen) (f : Queue → Queue) {q q' : QueueId} (h : q' ≠ q) :
    (s.modifyQueue q f).waiting? q' = s.waiting? q' := by
  unfold waiting? queue? modifyQueue
  rw [Table.get?_modify_of_ne]
  intro hindex
  cases q
  cases q'
  exact h (congrArg _ hindex.symm)

theorem waiting?_of_queues (h : s'.queues = s.queues) (q : QueueId) : s'.waiting? q = s.waiting? q := by
  unfold waiting? queue?
  rw [h]

/-- A change that leaves what waits leaves it in every queue. -/
theorem waiting?_modifyQueue (s : Screen) (f : Queue → Queue) (hf : ∀ y, (f y).pending = y.pending)
    (q q' : QueueId) : (s.modifyQueue q f).waiting? q' = s.waiting? q' := by
  by_cases h : q' = q
  · subst h
    rw [waiting?_modifyQueue_self]
    simp only [hf]
    rfl
  · exact waiting?_modifyQueue_of_ne s f h

/-! ## Marking -/

/-- An attribute has been changed by `f` and marked for a queue. -/
structure Marked (s s' : Screen) (q : QueueId) (b : BindingId) (f : Binding → Binding) : Prop where
  self : s'.binding? b = (s.binding? b).map fun x => { f x with pending := true }
  other : ∀ b', b' ≠ b → s'.binding? b' = s.binding? b'
  forest : s'.forest = s.forest
  apart : ∀ q', q' ≠ q → s'.waiting? q' = s.waiting? q'
  /-- An attribute that did not wait comes last. -/
  joins : ∀ x, s.binding? b = some x → x.pending = false →
    s'.waiting? q = (s.waiting? q).map (· ++ [b])
  stays : (∀ x, s.binding? b = some x → x.pending = true) → s'.waiting? q = s.waiting? q

theorem marked_mark (s : Screen) (q : QueueId) (b : BindingId) (f : Binding → Binding)
    (hf : ∀ x, (f x).pending = x.pending) : s.Marked ((s.modifyBinding b f).mark q b) q b f := by
  have hbind : (s.modifyBinding b f).binding? b = (s.binding? b).map f := binding?_modifyBinding_self s b f
  have hmap (g : Binding → Binding) : ((s.modifyBinding b f).modifyBinding b g).binding? b =
      (s.binding? b).map fun x => g (f x) := by
    rw [binding?_modifyBinding_self, hbind, Option.map_map]
    rfl
  unfold mark
  rw [hbind]
  cases hx : s.binding? b with
  | none =>
    rw [hx] at hbind
    refine ⟨hbind.trans (by rw [hx]; rfl), fun b' hb' => binding?_modifyBinding_of_ne s f hb', rfl,
      fun q' hq' => waiting?_modifyQueue_of_ne _ _ hq', fun x hx' => ?_, fun _ => ?_⟩
    · rw [hx] at hx'
      cases hx'
    · exact waiting?_modifyQueue (s.modifyBinding b f) _ (fun _ => by rfl) q q
  | some x =>
    rw [hx] at hbind
    simp only [Option.map_some, hf]
    cases hp : x.pending with
    | true =>
      refine ⟨hbind.trans ?_, fun b' hb' => binding?_modifyBinding_of_ne s f hb', rfl,
        fun q' hq' => waiting?_modifyQueue_of_ne _ _ hq', fun y hy hyp => ?_, fun _ => ?_⟩
      · rw [hx, Option.map_some, Option.map_some, ← hp, ← hf]
      · rw [hx] at hy
        rw [← Option.some.inj hy, hp] at hyp
        cases hyp
      · exact waiting?_modifyQueue (s.modifyBinding b f) _ (fun _ => by rfl) q q
    | false =>
      simp only [Bool.false_eq_true, if_false]
      refine ⟨(hmap _).trans ?_, fun b' hb' => ?_, rfl, fun q' hq' => ?_, fun y hy hyp => ?_, fun hall => ?_⟩
      · rw [hx]
      · exact (binding?_modifyBinding_of_ne _ _ hb').trans (binding?_modifyBinding_of_ne _ _ hb')
      · exact (waiting?_modifyQueue_of_ne _ _ hq').trans (waiting?_modifyQueue_of_ne _ _ hq')
      · refine (waiting?_modifyQueue _ _ (fun _ => by rfl) q q).trans ?_
        rw [waiting?_modifyQueue_self]
        unfold waiting?
        rw [Option.map_map]
        rfl
      · have hpending := hall x hx
        rw [hp] at hpending
        cases hpending

namespace Marked

variable {f : Binding → Binding} (hm : s.Marked s' q b f)

include hm

theorem isSome_binding? (b' : BindingId) : (s'.binding? b').isSome = (s.binding? b').isSome := by
  by_cases h : b' = b
  · rw [h, hm.self, Option.isSome_map]
  · rw [hm.other b' h]

/-- The queue has been left alone, or the attribute has come in, last. -/
theorem waiting_cases : s'.waiting? q = s.waiting? q ∨
    ∃ x, s.binding? b = some x ∧ x.pending = false ∧ s'.waiting? q = (s.waiting? q).map (· ++ [b]) := by
  by_cases h : ∀ x, s.binding? b = some x → x.pending = true
  · exact Or.inl (hm.stays h)
  · obtain ⟨x, h⟩ := not_forall.1 h
    obtain ⟨hx, hp⟩ := Classical.not_imp.1 h
    have hp : x.pending = false := by simpa using hp
    exact Or.inr ⟨x, hx, hp, hm.joins x hx hp⟩

theorem isSome_waiting? (q' : QueueId) : (s'.waiting? q').isSome = (s.waiting? q').isSome := by
  by_cases h : q' = q
  · subst h
    rcases hm.waiting_cases with heq | ⟨x, -, -, heq⟩
    · rw [heq]
    · rw [heq, Option.isSome_map]
  · rw [hm.apart q' h]

/-- The attribute waits where it was marked. -/
theorem mem_waiting (hs : s.Queued home) (hq : (s.waiting? q).isSome = true) (hb : home b = q)
    (hsome : (s.binding? b).isSome = true) : ∃ bs, s'.waiting? q = some bs ∧ b ∈ bs := by
  obtain ⟨x, hx⟩ := Option.isSome_iff_exists.1 hsome
  cases hp : x.pending with
  | true =>
    have hall : ∀ y, s.binding? b = some y → y.pending = true := by
      rintro y hy
      rw [← Option.some.inj (hx.symm.trans hy)]
      exact hp
    obtain ⟨bs, hbs, hmem⟩ := (hs.pending_iff b x hx).1 hp
    exact ⟨bs, (hm.stays hall).trans (hb ▸ hbs), hmem⟩
  | false =>
    obtain ⟨old, hold⟩ := Option.isSome_iff_exists.1 hq
    refine ⟨old ++ [b], ?_, by simp⟩
    rw [hm.joins x hx hp, hold]
    rfl

/-- Who waits in a queue waited there before, or is the marked attribute, which had not waited. -/
theorem of_mem_waiting {q' : QueueId} {bs : List BindingId} (hbs : s'.waiting? q' = some bs) :
    ∃ old, s.waiting? q' = some old ∧ (bs = old ∨ q' = q ∧ bs = old ++ [b] ∧
      ∃ x, s.binding? b = some x ∧ x.pending = false) := by
  by_cases h : q' = q
  · subst h
    rcases hm.waiting_cases with heq | ⟨x, hx, hp, heq⟩
    · exact ⟨bs, heq.symm.trans hbs, Or.inl rfl⟩
    · rw [heq] at hbs
      obtain ⟨old, hold, rfl⟩ := Option.map_eq_some_iff.1 hbs
      exact ⟨old, hold, Or.inr ⟨rfl, rfl, x, hx, hp⟩⟩
  · exact ⟨bs, (hm.apart q' h).symm.trans hbs, Or.inl rfl⟩

/-- Another attribute waits where it waited before. -/
theorem mem_waiting_iff {q' : QueueId} {b' : BindingId} (hne : b' ≠ b) :
    (∃ bs, s'.waiting? q' = some bs ∧ b' ∈ bs) ↔ ∃ bs, s.waiting? q' = some bs ∧ b' ∈ bs := by
  constructor
  · rintro ⟨bs, hbs, hmem⟩
    obtain ⟨old, hold, rfl | ⟨-, rfl, -⟩⟩ := hm.of_mem_waiting hbs
    · exact ⟨bs, hold, hmem⟩
    · exact ⟨old, hold, (List.mem_append.1 hmem).resolve_right fun h => hne (List.mem_singleton.1 h)⟩
  · rintro ⟨old, hold, hmem⟩
    have hsome : (s'.waiting? q').isSome = true := by rw [hm.isSome_waiting?, hold]; rfl
    obtain ⟨bs, hbs⟩ := Option.isSome_iff_exists.1 hsome
    obtain ⟨old', hold', hcases⟩ := hm.of_mem_waiting hbs
    obtain rfl := Option.some.inj (hold.symm.trans hold')
    refine ⟨bs, hbs, ?_⟩
    rcases hcases with rfl | ⟨-, rfl, -⟩
    · exact hmem
    · exact List.mem_append_left _ hmem

/-- Marking keeps homes in order, whatever has been filled into the attribute before. -/
theorem queued (hs : s.Queued home) (hq : (s.waiting? q).isSome = true) (hb : home b = q)
    (hf : ∀ x, (f x).owner = x.owner) : s'.Queued home where
  pending_iff b' x hx := by
    by_cases hne : b' = b
    · subst hne
      rw [hm.self] at hx
      obtain ⟨y, hy, rfl⟩ := Option.map_eq_some_iff.1 hx
      rw [hb]
      exact iff_of_true rfl (hm.mem_waiting hs hq hb (by rw [hy]; rfl))
    · rw [hm.other b' hne] at hx
      rw [hm.mem_waiting_iff hne]
      exact hs.pending_iff b' x hx
  home q' bs b' hbs hmem := by
    rw [hm.isSome_binding?]
    obtain ⟨old, hold, rfl | ⟨rfl, rfl, x, hx, -⟩⟩ := hm.of_mem_waiting hbs
    · exact hs.home q' bs b' hold hmem
    · rcases List.mem_append.1 hmem with hmem | hmem
      · exact hs.home q' old b' hold hmem
      · rw [List.mem_singleton.1 hmem, hx]
        exact ⟨hb, rfl⟩
  nodup q' bs hbs := by
    obtain ⟨old, hold, rfl | ⟨rfl, rfl, x, hx, hp⟩⟩ := hm.of_mem_waiting hbs
    · exact hs.nodup q' bs hold
    · refine List.nodup_append.2 ⟨hs.nodup q' old hold, List.nodup_singleton b, ?_⟩
      rintro a ha _ hb' rfl
      -- what is not pending does not wait
      have hpending := (hs.pending_iff b x hx).2 ⟨old, hb ▸ hold, List.mem_singleton.1 hb' ▸ ha⟩
      rw [hp] at hpending
      cases hpending
  owner b' x hx := by
    rw [hm.forest]
    by_cases hne : b' = b
    · subst hne
      rw [hm.self] at hx
      obtain ⟨y, hy, rfl⟩ := Option.map_eq_some_iff.1 hx
      change (f y).owner.index < _
      rw [hf]
      exact hs.owner b' y hy
    · rw [hm.other b' hne] at hx
      exact hs.owner b' x hx
  written b' x hx hp halive := by
    by_cases hne : b' = b
    · subst hne
      rw [hm.self] at hx
      obtain ⟨y, -, rfl⟩ := Option.map_eq_some_iff.1 hx
      cases hp
    · rw [hm.other b' hne] at hx
      rw [hm.forest] at halive
      exact hs.written b' x hx hp halive

end Marked

/-! ## Rendering -/

theorem marked_renderAt (s : Screen) (q : QueueId) (source : Source) (text : String) (b : BindingId) :
    s.Marked (s.renderAt q source text (.attr b)) q b fun x => x.fill source text :=
  marked_mark s q b _ fun _ => rfl

/-- Rendering adds to the queue that is used, and loses none. -/
theorem isSome_waiting?_render (s : Screen) (q q' : QueueId) (places : NodeSet) (source : Source)
    (text : String) : ((s.render q places source text).waiting? q').isSome = (s.waiting? q').isSome := by
  induction places generalizing s with
  | nil => rfl
  | cons place rest ih =>
    refine (ih (s.renderAt q source text place)).trans ?_
    cases place with
    | text n => rfl
    | attr b => exact (marked_renderAt s q source text b).isSome_waiting? q'

/-- The attributes among the places are filled and wait, and no other attribute is changed. -/
theorem binding?_render (s : Screen) (q : QueueId) (places : NodeSet) (source : Source) (text : String)
    (b : BindingId) : (s.render q places source text).binding? b = (s.binding? b).map fun x =>
      if .attr b ∈ places then { x.fill source text with pending := true } else x := by
  induction places generalizing s with
  | nil => simp [render]
  | cons place rest ih =>
    change ((s.renderAt q source text place).render q rest source text).binding? b = _
    rw [ih]
    cases place with
    | text n =>
      have hiff : BoundNode.attr b ∈ BoundNode.text n :: rest ↔ BoundNode.attr b ∈ rest := by simp
      simp only [hiff]
      rfl
    | attr b' =>
      have hm := marked_renderAt s q source text b'
      by_cases hb : b = b'
      · subst hb
        rw [hm.self, Option.map_map]
        congr 1
        funext x
        simp only [Function.comp_apply, List.mem_cons_self, if_true]
        split
        · unfold Binding.fill
          dsimp only
          rw [Format.fill_fill]
        · rfl
      · rw [hm.other b hb]
        simp [hb]

/-- A node that is not a place keeps its kind, and a text among the places shows the text. -/
theorem kind?_render (s : Screen) (q : QueueId) (places : NodeSet) (source : Source) (text : String)
    {n : NodeId} {old : String} (hn : s.forest.kind? n = some (.text old)) :
    (s.render q places source text).forest.kind? n =
      some (.text (if .text n ∈ places then text else old)) := by
  induction places generalizing s old with
  | nil => simpa [render] using hn
  | cons place rest ih =>
    change ((s.renderAt q source text place).render q rest source text).forest.kind? n = _
    cases place with
    | text m =>
      by_cases hnm : n = m
      · subst hnm
        have hset : (s.forest.setText n text).kind? n = some (.text text) := by
          obtain ⟨node, hnode, hkind⟩ := Option.map_eq_some_iff.1 hn
          unfold Forest.kind? Forest.setText
          rw [Forest.node?_modify_self, hnode, Option.map_some, Option.map_some, hkind]
        rw [ih (s.renderAt q source text (.text n)) hset]
        simp
      · have hset : (s.forest.setText m text).kind? n = some (.text old) := by
          unfold Forest.kind? Forest.setText
          rw [Forest.node?_modify_of_ne _ _ hnm]
          exact hn
        rw [ih (s.renderAt q source text (.text m)) hset]
        simp [hnm]
    | attr b =>
      have hforest := (marked_renderAt s q source text b).forest
      rw [ih (s.renderAt q source text (.attr b)) (hforest ▸ hn)]
      simp

/-- Rendering gives texts and formatted attributes their parts, and touches no attribute of an element. -/
theorem attr?_render (s : Screen) (q : QueueId) (places : NodeSet) (source : Source) (text : String)
    (n : NodeId) (t : String) : (s.render q places source text).forest.attr? n t = s.forest.attr? n t := by
  induction places generalizing s with
  | nil => rfl
  | cons place rest ih =>
    refine (ih (s.renderAt q source text place)).trans ?_
    cases place with
    | text m => exact Forest.attr?_setText s.forest m text n t
    | attr b => rw [(marked_renderAt s q source text b).forest]

/-- Rendering makes no element and removes none. -/
theorem tag?_render (s : Screen) (q : QueueId) (places : NodeSet) (source : Source) (text : String)
    (n : NodeId) : (s.render q places source text).forest.tag? n = s.forest.tag? n := by
  induction places generalizing s with
  | nil => rfl
  | cons place rest ih =>
    refine (ih (s.renderAt q source text place)).trans ?_
    cases place with
    | text m => exact Forest.tag?_setText s.forest m text n
    | attr b => rw [(marked_renderAt s q source text b).forest]

/-- Rendering in attributes that are at home in the queue keeps all homes in order. -/
theorem Queued.render (hs : s.Queued home) (hq : (s.waiting? q).isSome = true) (places : NodeSet)
    (hplaces : ∀ b, .attr b ∈ places → home b = q) (source : Source) (text : String) :
    (s.render q places source text).Queued home := by
  induction places generalizing s with
  | nil => exact hs
  | cons place rest ih =>
    have hrest (b : BindingId) (hb : .attr b ∈ rest) : home b = q := hplaces b (List.mem_cons_of_mem _ hb)
    cases place with
    | text n =>
      have hlinks := Forest.sameLinks_setText s.forest n text
      refine ih (s := s.renderAt q source text (.text n)) ⟨hs.pending_iff, hs.home, hs.nodup, ?_, ?_⟩ hq hrest
      · intro b x hx
        exact lt_of_lt_of_eq (hs.owner b x hx) hlinks.size.symm
      · intro b x hx hp halive
        exact hs.written b x hx hp ((hlinks.isAlive x.owner).symm.trans halive)
    | attr b =>
      have hm := marked_renderAt s q source text b
      refine ih (hm.queued hs hq (hplaces b List.mem_cons_self) fun _ => rfl) ?_ hrest
      rw [hm.isSome_waiting?]
      exact hq

/-! ## Flushing -/

/-- An attribute after it has been written, if its element is in use. -/
def stamped (s : Screen) (x : Binding) : Binding :=
  { x with written := if s.forest.isAlive x.owner then some x.joined else x.written }

theorem binding?_write_self (s : Screen) (b : BindingId) :
    (s.write b).2.binding? b = (s.binding? b).map s.stamped := by
  unfold write
  cases hx : s.binding? b with
  | none => exact hx
  | some x =>
    unfold stamped
    dsimp only [Option.map_some]
    cases halive : s.forest.isAlive x.owner with
    | true =>
      simp only [if_true]
      refine (binding?_modifyBinding_self _ b _).trans ?_
      exact congrArg (Option.map _) hx
    | false => exact hx

theorem binding?_write_of_ne (s : Screen) (h : b' ≠ b) : (s.write b).2.binding? b' = s.binding? b' := by
  unfold write
  split
  · rfl
  · split
    · exact binding?_modifyBinding_of_ne _ _ h
    · rfl

theorem queues_write (s : Screen) (b : BindingId) : (s.write b).2.queues = s.queues := by
  unfold write
  split
  · rfl
  · split <;> rfl

theorem recast_write (s : Screen) (b : BindingId) : s.forest.Recast (s.write b).2.forest := by
  unfold write
  split
  · exact .rfl
  · split
    · exact .setAttr _ _ _ _
    · exact .rfl

/-- An attribute that a flush has come to. -/
def flushed (s : Screen) (x : Binding) : Binding := s.stamped { x with pending := false }

/-- Some attributes have been written, and do not wait any more. -/
structure Wrote (s s' : Screen) (bs : List BindingId) : Prop where
  binding? : ∀ b, s'.binding? b = (s.binding? b).map fun x => if b ∈ bs then s.flushed x else x
  queues : s'.queues = s.queues
  recast : s.forest.Recast s'.forest
  isAlive : ∀ n, s'.forest.isAlive n = s.forest.isAlive n

theorem wrote_write (s : Screen) (b : BindingId) :
    s.Wrote ((s.modifyBinding b fun x => { x with pending := false }).write b).2 [b] where
  queues := queues_write _ b
  recast := recast_write (s.modifyBinding b fun x => { x with pending := false }) b
  isAlive := (sameLinks_write _ b).isAlive
  binding? b' := by
    by_cases hb : b' = b
    · subst hb
      rw [binding?_write_self, binding?_modifyBinding_self, Option.map_map]
      simp only [List.mem_singleton, if_true]
      rfl
    · rw [binding?_write_of_ne _ hb, binding?_modifyBinding_of_ne _ _ hb]
      simp [hb]

theorem Wrote.cons {s'' : Screen} {bs : List BindingId} (h : s.Wrote s' [b]) (h' : s'.Wrote s'' bs) :
    s.Wrote s'' (b :: bs) where
  queues := h'.queues.trans h.queues
  recast := h.recast.trans h'.recast
  isAlive n := (h'.isAlive n).trans (h.isAlive n)
  binding? b' := by
    rw [h'.binding?, h.binding?, Option.map_map]
    congr 1
    funext x
    -- writing an attribute again changes nothing
    have hagain : s'.flushed (s.flushed x) = s.flushed x := by
      unfold flushed stamped
      rw [h.isAlive]
      dsimp only
      split <;> rfl
    have hsame : s'.flushed x = s.flushed x := by
      unfold flushed stamped
      rw [h.isAlive]
    by_cases hb : b' = b
    · subst hb
      by_cases hbs : b' ∈ bs <;> simp [hbs, hagain]
    · by_cases hbs : b' ∈ bs <;> simp [hb, hbs, hsame]

theorem wrote_writeAll (s : Screen) (bs : List BindingId) : s.Wrote (s.writeAll bs).2 bs := by
  induction bs generalizing s with
  | nil => exact ⟨fun b => by simp [writeAll], rfl, .rfl, fun _ => rfl⟩
  | cons b bs ih => exact (wrote_write s b).cons (ih _)

/-- A flush empties its queue, and writes all that waited there and nothing else. -/
structure Flushed (s s' : Screen) (q : QueueId) (bs : List BindingId) : Prop where
  binding? : ∀ b, s'.binding? b = (s.binding? b).map fun x => if b ∈ bs then s.flushed x else x
  recast : s.forest.Recast s'.forest
  isAlive : ∀ n, s'.forest.isAlive n = s.forest.isAlive n
  empty : s'.waiting? q = (s.waiting? q).map fun _ => []
  apart : ∀ q', q' ≠ q → s'.waiting? q' = s.waiting? q'

theorem flushed_flush (s : Screen) (q : QueueId) : s.Flushed (s.flush q).2 q ((s.waiting? q).getD []) := by
  unfold flush
  cases hq : s.queue? q with
  | none =>
    have hnone : s.waiting? q = none := by
      unfold waiting?
      rw [hq]
      rfl
    refine ⟨fun b => by simp [hnone], .rfl, fun _ => rfl, by rw [hnone]; rfl, fun _ _ => rfl⟩
  | some y =>
    have hsome : s.waiting? q = some y.pending := by
      unfold waiting?
      rw [hq]
      rfl
    have hw := (s.modifyQueue q fun y => { y with pending := [], deadline := none }).wrote_writeAll y.pending
    have hall : s.Flushed _ q y.pending :=
      { binding? := hw.binding?
        recast := hw.recast
        isAlive := hw.isAlive
        empty := by
          rw [waiting?_of_queues hw.queues, waiting?_modifyQueue_self, hq, hsome]
          rfl
        apart := fun q' hne => by
          rw [waiting?_of_queues hw.queues, waiting?_modifyQueue_of_ne _ _ hne] }
    rw [hsome, Option.getD_some]
    dsimp only
    split
    · -- counting the flush leaves what waits
      refine ⟨hall.binding?, hall.recast, hall.isAlive, ?_, fun q' hne => ?_⟩
      · exact (waiting?_modifyQueue _ _ (fun _ => by rfl) q q).trans hall.empty
      · exact (waiting?_modifyQueue _ _ (fun _ => by rfl) q q').trans (hall.apart q' hne)
    · exact hall

/-- A flush keeps all homes in order. -/
theorem Queued.flush (hs : s.Queued home) (q : QueueId) : (s.flush q).2.Queued home := by
  have hf := s.flushed_flush q
  have hcases {q' : QueueId} {bs : List BindingId} (hbs : (s.flush q).2.waiting? q' = some bs) :
      bs = [] ∨ s.waiting? q' = some bs := by
    by_cases hq : q' = q
    · subst hq
      rw [hf.empty] at hbs
      obtain ⟨old, -, rfl⟩ := Option.map_eq_some_iff.1 hbs
      exact Or.inl rfl
    · exact Or.inr ((hf.apart q' hq).symm.trans hbs)
  -- who waits in the queue is at home there
  have hhome {b : BindingId} (hb : b ∈ (s.waiting? q).getD []) : home b = q := by
    cases hw : s.waiting? q with
    | none =>
      rw [hw] at hb
      exact absurd hb List.not_mem_nil
    | some bs => exact (hs.home q bs b hw (by rwa [hw] at hb)).1
  refine ⟨fun b x hx => ?_, fun q' bs b hbs hmem => ?_, fun q' bs hbs => ?_, fun b x hx => ?_,
    fun b x hx hp halive => ?_⟩
  · rw [hf.binding?] at hx
    obtain ⟨y, hy, rfl⟩ := Option.map_eq_some_iff.1 hx
    by_cases hb : b ∈ (s.waiting? q).getD []
    · rw [if_pos hb, hhome hb]
      refine iff_of_false (fun h => by cases h) ?_
      rintro ⟨bs, hbs, hmem⟩
      rw [hf.empty] at hbs
      obtain ⟨old, -, rfl⟩ := Option.map_eq_some_iff.1 hbs
      exact List.not_mem_nil hmem
    · rw [if_neg hb, hs.pending_iff b y hy]
      by_cases hq : home b = q
      · rw [hq, hf.empty]
        refine iff_of_false ?_ ?_
        · rintro ⟨bs, hbs, hmem⟩
          rw [hbs] at hb
          exact hb hmem
        · rintro ⟨bs, hbs, hmem⟩
          obtain ⟨old, -, rfl⟩ := Option.map_eq_some_iff.1 hbs
          exact List.not_mem_nil hmem
      · rw [hf.apart _ hq]
  · rcases hcases hbs with rfl | hold
    · exact absurd hmem List.not_mem_nil
    · rw [hf.binding?, Option.isSome_map]
      exact hs.home q' bs b hold hmem
  · rcases hcases hbs with rfl | hold
    · exact List.nodup_nil
    · exact hs.nodup q' bs hold
  · rw [(s.sameLinks_flush q).size]
    rw [hf.binding?] at hx
    obtain ⟨y, hy, rfl⟩ := Option.map_eq_some_iff.1 hx
    split
    · exact hs.owner b y hy
    · exact hs.owner b y hy
  · rw [hf.binding?] at hx
    obtain ⟨y, hy, rfl⟩ := Option.map_eq_some_iff.1 hx
    rw [hf.isAlive] at halive
    by_cases hb : b ∈ (s.waiting? q).getD []
    · rw [if_pos hb] at halive ⊢
      exact if_pos halive
    · rw [if_neg hb] at hp halive ⊢
      exact hs.written b y hy hp halive

/-! ## Growing -/

/-- New queues are empty, and new attributes have been written and do not wait. -/
structure Extends (s s' : Screen) : Prop where
  old : ∀ b x, s.binding? b = some x → s'.binding? b = some x
  new : ∀ b x, s'.binding? b = some x → s.binding? b = none → x.pending = false ∧
    x.owner.index < s'.forest.size ∧ (s'.forest.isAlive x.owner = true → x.written = some x.joined)
  waiting : ∀ q bs, s.waiting? q = some bs → s'.waiting? q = some bs
  empty : ∀ q bs, s'.waiting? q = some bs → s.waiting? q = none → bs = []
  recast : s.forest.Recast s'.forest

theorem Extends.of_recast (hr : s.forest.Recast s'.forest) (hb : s'.bindings = s.bindings)
    (hq : s'.queues = s.queues) : s.Extends s' := by
  have hbind (b : BindingId) : s'.binding? b = s.binding? b := by
    unfold binding?
    rw [hb]
  refine ⟨fun b x hx => (hbind b).trans hx, fun b x hx hnone => ?_, fun q bs h => ?_, fun q bs h hnone => ?_, hr⟩
  · rw [hbind, hnone] at hx
    cases hx
  · exact (waiting?_of_queues hq q).trans h
  · rw [waiting?_of_queues hq, hnone] at h
    cases h

theorem Extends.rfl : s.Extends s := .of_recast .rfl (.refl _) (.refl _)

theorem Extends.isSome_waiting? (he : s.Extends s') (h : (s.waiting? q).isSome = true) :
    (s'.waiting? q).isSome = true := by
  obtain ⟨bs, hbs⟩ := Option.isSome_iff_exists.1 h
  rw [he.waiting q bs hbs]
  exact .refl _

/-- A new queue is empty. -/
theorem extends_addQueue (s : Screen) (delay : Nat) :
    s.Extends (s.addQueue delay).2 ∧ ((s.addQueue delay).2.waiting? (s.addQueue delay).1).isSome = true := by
  have hnew : (s.addQueue delay).2.waiting? (s.addQueue delay).1 = some [] := by
    unfold waiting? queue? addQueue
    rw [Table.get?_push_self]
    exact .refl _
  refine ⟨⟨fun b x hx => hx, fun b x hx hnone => ?_, fun q bs hbs => ?_, fun q bs hbs hnone => ?_, .rfl⟩, ?_⟩
  · exact absurd (hx.symm.trans hnone) (by simp)
  · obtain ⟨y, hy, rfl⟩ := Option.map_eq_some_iff.1 hbs
    have hlt : q.index < s.queues.size := (Array.getElem?_eq_some_iff.1 hy).1
    have hold : (s.addQueue delay).2.queue? q = some y := (Table.get?_push_of_lt _ _ _ hlt).trans hy
    unfold waiting?
    rw [hold]
    exact .refl _
  · by_cases hq : q = (s.addQueue delay).1
    · rw [hq, hnew] at hbs
      exact (Option.some.inj hbs).symm
    · -- a queue that has not been there is the new one
      obtain ⟨y, hy, -⟩ := Option.map_eq_some_iff.1 hbs
      have hlt : q.index < (s.queues.push { delay := delay }).size := (Array.getElem?_eq_some_iff.1 hy).1
      have hne : q.index ≠ s.queues.size := fun heq => hq (congrArg QueueId.mk heq)
      have hold : q.index < s.queues.size := by
        have hsize : (s.queues.push { delay := delay }).size = s.queues.size + 1 := Array.size_push _
        omega
      have hsome : s.queue? q = some _ := Array.getElem?_eq_getElem hold
      unfold waiting? at hnone
      rw [hsome] at hnone
      cases hnone
  · rw [hnew]
    exact .refl _

theorem Extends.trans {s'' : Screen} (h : s.Extends s') (h' : s'.Extends s'') : s.Extends s'' where
  old b x hx := h'.old b x (h.old b x hx)
  new b x hx hnone := by
    cases hb : s'.binding? b with
    | none => exact h'.new b x hx hb
    | some y =>
      obtain rfl := Option.some.inj ((h'.old b y hb).symm.trans hx)
      obtain ⟨hp, howner, hwritten⟩ := h.new b y hb hnone
      exact ⟨hp, h'.recast.lt_size howner, fun ha => hwritten (h'.recast.isAlive howner ha)⟩
  waiting q bs hbs := h'.waiting q bs (h.waiting q bs hbs)
  empty q bs hbs hnone := by
    cases hw : s'.waiting? q with
    | none => exact h'.empty q bs hbs hw
    | some old =>
      obtain rfl := h.empty q old hw hnone
      exact (Option.some.inj ((h'.waiting q [] hw).symm.trans hbs)).symm
  recast := h.recast.trans h'.recast

/-- A screen that has grown keeps all homes in order; new attributes may have any home. -/
theorem Queued.extend (hs : s.Queued home) (he : s.Extends s') {home' : BindingId → QueueId}
    (hhome : ∀ b, (s.binding? b).isSome = true → home' b = home b) : s'.Queued home' := by
  have hold {q : QueueId} {bs : List BindingId} {b : BindingId} (hbs : s'.waiting? q = some bs)
      (hmem : b ∈ bs) : s.waiting? q = some bs := by
    cases hw : s.waiting? q with
    | none =>
      rw [he.empty q bs hbs hw] at hmem
      exact absurd hmem List.not_mem_nil
    | some old => rw [← hbs, he.waiting q old hw]
  refine ⟨fun b x hx => ?_, fun q bs b hbs hmem => ?_, fun q bs hbs => ?_, fun b x hx => ?_,
    fun b x hx hp halive => ?_⟩
  · cases hb : s.binding? b with
    | none =>
      rw [(he.new b x hx hb).1]
      refine iff_of_false (fun h => by cases h) ?_
      rintro ⟨bs, hbs, hmem⟩
      have hsome := (hs.home _ bs b (hold hbs hmem) hmem).2
      rw [hb] at hsome
      cases hsome
    | some y =>
      obtain rfl := Option.some.inj ((he.old b y hb).symm.trans hx)
      rw [hs.pending_iff b y hb, hhome b (by rw [hb]; rfl)]
      exact ⟨fun ⟨bs, hbs, hmem⟩ => ⟨bs, he.waiting _ _ hbs, hmem⟩,
        fun ⟨bs, hbs, hmem⟩ => ⟨bs, hold hbs hmem, hmem⟩⟩
  · obtain ⟨hq, hsome⟩ := hs.home q bs b (hold hbs hmem) hmem
    obtain ⟨x, hx⟩ := Option.isSome_iff_exists.1 hsome
    rw [hhome b hsome, he.old b x hx]
    exact ⟨hq, rfl⟩
  · cases hw : s.waiting? q with
    | none =>
      rw [he.empty q bs hbs hw]
      exact List.nodup_nil
    | some old =>
      obtain rfl := Option.some.inj ((he.waiting q old hw).symm.trans hbs)
      exact hs.nodup q old hw
  · cases hb : s.binding? b with
    | none => exact (he.new b x hx hb).2.1
    | some y =>
      obtain rfl := Option.some.inj ((he.old b y hb).symm.trans hx)
      exact he.recast.lt_size (hs.owner b y hb)
  · cases hb : s.binding? b with
    | none => exact (he.new b x hx hb).2.2 halive
    | some y =>
      obtain rfl := Option.some.inj ((he.old b y hb).symm.trans hx)
      exact hs.written b y hb hp (he.recast.isAlive (hs.owner b y hb) halive)

end Screen

end ReactiveView
