import ReactiveView.Proofs.View.Queues

/-!
# Deferred writes over a whole run

A run of one queue is a list of moments, the latest first: formatted attributes come up, are filled, marked
and written past the queue, the queue is polled and flushed, time passes, and the live trees change in any
way, so that elements go out of use. What waits is read off the moments alone: an attribute waits when it
has been marked and nothing has flushed the queue since (`Awaits`), and a poll flushes when its time is
not before the latest mark plus the delay (`Moment.flushes`).

`Screen.Keeps` relates the queue to the moments; each event keeps it (`Screen.Keeps.happen`), so every
run does (`QueueRun.keeps`). `Screen.delivery_flush` says exactly what a flush writes, counts and leaves.
-/

set_option autoImplicit false

namespace ReactiveView

/-- What can happen in a run of one queue. -/
inductive QueueEvent where
  | wait (milliseconds : Nat)
  | add (owner : NodeId) (name : QName) (format : Format)
  | fill (b : BindingId) (source : Source) (text : String)
  | mark (b : BindingId)
  /-- An attribute is written at once, whether it waits or not. -/
  | write (b : BindingId)
  | poll (now : Int)
  | flush
  /-- The live trees become others: elements come up, move, and go out of use. -/
  | edit (forest : Forest)

/-- An event and the time at which it happens. -/
structure Moment where
  time : Int
  event : QueueEvent

/-- The time of the latest mark. -/
def lastMark? : List Moment → Option Int
  | [] => none
  | ⟨time, .mark _⟩ :: _ => some time
  | _ :: past => lastMark? past

/-- Whether an event flushes a queue: a poll does once the delay has passed since the latest mark. -/
def QueueEvent.flushes (delay : Nat) (past : List Moment) : QueueEvent → Prop
  | .flush => True
  | .poll now => ∃ time, lastMark? past = some time ∧ time + delay ≤ now
  | _ => False

/-- An attribute has been marked, and nothing has flushed the queue since. -/
inductive Awaits (delay : Nat) (b : BindingId) : List Moment → Prop
  | marked {time : Int} {past : List Moment} : Awaits delay b (⟨time, .mark b⟩ :: past)
  | later {m : Moment} {past : List Moment} (h : Awaits delay b past) (hm : ¬ m.event.flushes delay past) :
      Awaits delay b (m :: past)

namespace Screen

/-- A screen after an event. -/
def happen (s : Screen) (q : QueueId) : QueueEvent → Screen
  | .wait milliseconds => { s with clock := s.clock + milliseconds }
  | .add owner name format => (s.addBinding (.ofFormat owner name format)).2
  | .fill b source text => s.modifyBinding b fun x => x.fill source text
  | .mark b => s.mark q b
  | .write b => (s.write b).2
  | .poll now => (s.poll q now).2
  | .flush => (s.flush q).2
  | .edit forest => s.mapForest fun _ => forest

end Screen

/-- A run of a queue that starts out new, with attributes that do not wait; only attributes that are there
are marked. -/
inductive QueueRun (q : QueueId) (delay : Nat) : List Moment → Screen → Prop
  | start {s : Screen} (hq : s.queue? q = some { delay := delay })
      (hidle : ∀ b x, s.binding? b = some x → x.pending = false) : QueueRun q delay [] s
  | next {past : List Moment} {s : Screen} (h : QueueRun q delay past s) (e : QueueEvent)
      (hmark : ∀ b, e = .mark b → (s.binding? b).isSome = true) :
      QueueRun q delay (⟨s.clock, e⟩ :: past) (s.happen q e)

/-! ## What each operation does to the queue -/

namespace Screen

variable {s s' : Screen} {q : QueueId} {b b' : BindingId}

theorem queue?_modifyQueue_self (s : Screen) (q : QueueId) (f : Queue → Queue) :
    (s.modifyQueue q f).queue? q = (s.queue? q).map f :=
  Table.get?_modify_self _ _ _

theorem queue?_modifyQueue_of_ne (s : Screen) (f : Queue → Queue) {q q' : QueueId} (h : q' ≠ q) :
    (s.modifyQueue q f).queue? q' = s.queue? q' := by
  refine Table.get?_modify_of_ne _ _ _ _ fun hindex => h ?_
  cases q
  cases q'
  exact congrArg _ hindex.symm

theorem modifyBinding_id (s : Screen) (b : BindingId) : s.modifyBinding b (fun x => x) = s := by
  have htable : s.bindings.modify b.index (fun x => x) = s.bindings := by
    unfold Table.modify
    congr 1
    refine Array.ext_getElem? fun i => ?_
    rw [Array.getElem?_modify]
    split
    · rw [Option.map_id']
    · rfl
  unfold modifyBinding
  rw [htable]

/-- The queue after a mark of an attribute that is there: the attribute waits, and the deadline has moved. -/
theorem queue?_mark {x : Binding} (hx : s.binding? b = some x) :
    (s.mark q b).queue? q = (s.queue? q).map fun y =>
      { y with
        pending := if x.pending then y.pending else y.pending ++ [b]
        deadline := some (s.clock + y.delay) } := by
  unfold mark
  rw [hx]
  dsimp only
  rw [queue?_modifyQueue_self]
  cases x.pending with
  | true => rfl
  | false =>
    simp only [Bool.false_eq_true, if_false]
    rw [queue?_modifyQueue_self, Option.map_map]
    rfl

theorem binding?_mark_self {x : Binding} (hx : s.binding? b = some x) :
    (s.mark q b).binding? b = some { x with pending := true } := by
  have hm := marked_mark s q b (fun x => x) fun _ => rfl
  rw [modifyBinding_id] at hm
  rw [hm.self, hx]
  rfl

theorem binding?_mark_of_ne (h : b' ≠ b) : (s.mark q b).binding? b' = s.binding? b' := by
  have hm := marked_mark s q b (fun x => x) fun _ => rfl
  rw [modifyBinding_id] at hm
  exact hm.other b' h

theorem clock_write (s : Screen) (b : BindingId) : (s.write b).2.clock = s.clock := by
  unfold write
  split
  · rfl
  · split <;> rfl

/-! ## Flushing -/

/-- One write of a text to an attribute of an element. -/
structure DueWrite where
  owner : NodeId
  name : QName
  text : String

/-- What there is to write of a waiting attribute: its text as it stands, while its element is in use. -/
def dueAt (s : Screen) (b : BindingId) : Option DueWrite :=
  match s.binding? b with
  | some x => if s.forest.isAlive x.owner then some ⟨x.owner, x.name, x.joined⟩ else none
  | none => none

/-- What there is to write of waiting attributes, in order. -/
def due (s : Screen) (bs : List BindingId) : List DueWrite := bs.filterMap s.dueAt

/-- Live trees after writes, one after the other. -/
def dressed (f : Forest) (ws : List DueWrite) : Forest :=
  ws.foldl (fun f w => f.setAttr w.owner w.name w.text) f

/-- A flush of a queue: the waiting attributes of elements in use are written, once each, and their number
is given; it counts when something has been written, and the queue is left empty with no deadline. -/
structure Delivery (s s' : Screen) (q : QueueId) (y : Queue) (n : Nat) : Prop where
  forest : s'.forest = dressed s.forest (s.due y.pending)
  count : n = (s.due y.pending).length
  queue : s'.queue? q = some
    { y with pending := [], deadline := none, flushes := if 0 < n then y.flushes + 1 else y.flushes }
  binding? : ∀ b, s'.binding? b = (s.binding? b).map fun x => if b ∈ y.pending then s.flushed x else x
  apart : ∀ q', q' ≠ q → s'.queue? q' = s.queue? q'
  clock : s'.clock = s.clock

theorem write_eq (s : Screen) (b : BindingId) :
    (s.write b).2.forest = dressed s.forest (s.dueAt b).toList ∧ (s.write b).1 = (s.dueAt b).isSome := by
  unfold write dueAt
  cases s.binding? b with
  | none => exact ⟨rfl, rfl⟩
  | some x =>
    dsimp only
    split
    · exact ⟨rfl, rfl⟩
    · exact ⟨rfl, rfl⟩

theorem dueAt_modifyBinding (s : Screen) (b : BindingId) (p : Bool) (b' : BindingId) :
    (s.modifyBinding b fun x => { x with pending := p }).dueAt b' = s.dueAt b' := by
  unfold dueAt
  by_cases h : b' = b
  · subst h
    rw [binding?_modifyBinding_self]
    cases s.binding? b' <;> rfl
  · rw [binding?_modifyBinding_of_ne _ _ h]
    rfl

/-- Writing attributes changes nothing that there is to write. -/
theorem Wrote.dueAt {bs : List BindingId} (hw : s.Wrote s' bs) (b : BindingId) : s'.dueAt b = s.dueAt b := by
  unfold Screen.dueAt
  rw [hw.binding?]
  cases s.binding? b with
  | none => rfl
  | some x =>
    dsimp only [Option.map_some]
    split
    · unfold flushed stamped
      simp only [hw.isAlive]
      rfl
    · rw [hw.isAlive]

/-- Attributes are written in order, those of elements in use. -/
theorem writeAll_eq (s : Screen) (bs : List BindingId) :
    (s.writeAll bs).2.forest = dressed s.forest (s.due bs) ∧ (s.writeAll bs).1 = (s.due bs).length ∧
      (s.writeAll bs).2.clock = s.clock := by
  induction bs generalizing s with
  | nil => exact ⟨rfl, rfl, rfl⟩
  | cons b bs ih =>
    let s₁ := s.modifyBinding b fun x => { x with pending := false }
    obtain ⟨hforest, hcount, hclock⟩ := ih (s₁.write b).2
    obtain ⟨hforest₁, hdone⟩ := s₁.write_eq b
    rw [dueAt_modifyBinding] at hforest₁ hdone
    have hrest : (s₁.write b).2.due bs = s.due bs := List.filterMap_congr fun b' _ => (s.wrote_write b).dueAt b'
    rw [hrest] at hforest hcount
    have hdue : s.due (b :: bs) = (s.dueAt b).toList ++ s.due bs := by
      unfold due
      rw [List.filterMap_cons]
      cases s.dueAt b <;> rfl
    rw [hdue]
    refine ⟨?_, ?_, hclock.trans (clock_write s₁ b)⟩
    · calc (s.writeAll (b :: bs)).2.forest
          = dressed (s₁.write b).2.forest (s.due bs) := hforest
        _ = dressed (dressed s.forest (s.dueAt b).toList) (s.due bs) := by rw [hforest₁]; rfl
        _ = dressed s.forest ((s.dueAt b).toList ++ s.due bs) := (List.foldl_append ..).symm
    · have hn : (s.writeAll (b :: bs)).1 =
          if (s₁.write b).1 then ((s₁.write b).2.writeAll bs).1 + 1 else ((s₁.write b).2.writeAll bs).1 := rfl
      rw [hn, hdone, hcount, List.length_append]
      cases s.dueAt b with
      | none => exact (Nat.zero_add _).symm
      | some w => exact Nat.add_comm _ 1

theorem queue?_of_queues (h : s'.queues = s.queues) (q : QueueId) : s'.queue? q = s.queue? q := by
  unfold queue?
  rw [h]

/-- What a flush does. -/
theorem delivery_flush {y : Queue} (hq : s.queue? q = some y) :
    s.Delivery (s.flush q).2 q y (s.flush q).1 := by
  have hf := s.flushed_flush q
  have hwaiting : (s.waiting? q).getD [] = y.pending := by
    unfold waiting?
    rw [hq]
    rfl
  rw [hwaiting] at hf
  let s₁ := s.modifyQueue q fun y => { y with pending := [], deadline := none }
  obtain ⟨hforest, hcount, hclock⟩ := s₁.writeAll_eq y.pending
  have hdue : s₁.due y.pending = s.due y.pending := rfl
  rw [hdue] at hforest hcount
  have hqueues : (s₁.writeAll y.pending).2.queues = s₁.queues := (s₁.wrote_writeAll y.pending).queues
  have hself : (s₁.writeAll y.pending).2.queue? q = some { y with pending := [], deadline := none } := by
    rw [queue?_of_queues hqueues, queue?_modifyQueue_self, hq]
    rfl
  have hother (q' : QueueId) (h : q' ≠ q) : (s₁.writeAll y.pending).2.queue? q' = s.queue? q' := by
    rw [queue?_of_queues hqueues, queue?_modifyQueue_of_ne _ _ h]
  have hflush : s.flush q = ((s₁.writeAll y.pending).1,
      if 0 < (s₁.writeAll y.pending).1 then
        (s₁.writeAll y.pending).2.modifyQueue q fun y => { y with flushes := y.flushes + 1 }
      else (s₁.writeAll y.pending).2) := by
    unfold flush
    rw [hq]
  by_cases hpos : 0 < (s₁.writeAll y.pending).1
  · rw [if_pos hpos] at hflush
    rw [hflush] at hf ⊢
    refine ⟨hforest, hcount, ?_, hf.binding?, fun q' h => ?_, hclock⟩
    · rw [queue?_modifyQueue_self, hself, if_pos hpos]
      rfl
    · rw [queue?_modifyQueue_of_ne _ _ h, hother q' h]
  · rw [if_neg hpos] at hflush
    rw [hflush] at hf ⊢
    refine ⟨hforest, hcount, ?_, hf.binding?, hother, hclock⟩
    rw [hself, if_neg hpos]

theorem poll_of_le {y : Queue} {deadline now : Int} (hq : s.queue? q = some y)
    (hd : y.deadline = some deadline) (h : deadline ≤ now) : s.poll q now = s.flush q := by
  unfold poll
  rw [hq]
  dsimp only
  rw [hd]
  exact if_pos h

theorem poll_of_none {y : Queue} (hq : s.queue? q = some y) (hd : y.deadline = none) (now : Int) :
    s.poll q now = (0, s) := by
  unfold poll
  rw [hq]
  dsimp only
  rw [hd]

end Screen

/-! ## Runs -/

theorem awaits_cons_iff {delay : Nat} {b : BindingId} {m : Moment} {past : List Moment} :
    Awaits delay b (m :: past) ↔
      m.event = .mark b ∨ Awaits delay b past ∧ ¬ m.event.flushes delay past := by
  obtain ⟨time, e⟩ := m
  constructor
  · intro h
    cases h with
    | marked => exact Or.inl rfl
    | later h hm => exact Or.inr ⟨h, hm⟩
  · rintro (h | ⟨h, hm⟩)
    · cases h
      exact .marked
    · exact .later h hm

/-- An event leaves alone what waits and since when: it is no mark, no poll and no flush. -/
def QueueEvent.isQuiet : QueueEvent → Bool
  | .mark _ | .poll _ | .flush => false
  | _ => true

theorem QueueEvent.not_flushes {e : QueueEvent} (h : e.isQuiet = true) (delay : Nat) (past : List Moment) :
    ¬ e.flushes delay past := by
  cases e <;> first | exact id | cases h

theorem lastMark?_of_isQuiet {m : Moment} (h : m.event.isQuiet = true) (past : List Moment) :
    lastMark? (m :: past) = lastMark? past := by
  obtain ⟨time, e⟩ := m
  cases e <;> first | rfl | cases h

theorem awaits_of_isQuiet {delay : Nat} {m : Moment} (h : m.event.isQuiet = true) (past : List Moment)
    (b : BindingId) : Awaits delay b (m :: past) ↔ Awaits delay b past := by
  rw [awaits_cons_iff]
  constructor
  · rintro (hmark | ⟨hb, -⟩)
    · rw [hmark] at h
      cases h
    · exact hb
  · exact fun hb => Or.inr ⟨hb, QueueEvent.not_flushes h delay past⟩

namespace Screen

/-- Whether an attribute is flagged as waiting. -/
def flag? (s : Screen) (b : BindingId) : Option Bool := (s.binding? b).map (·.pending)

theorem flag?_modifyBinding (s : Screen) (b : BindingId) (f : Binding → Binding)
    (hf : ∀ x, (f x).pending = x.pending) (b' : BindingId) : (s.modifyBinding b f).flag? b' = s.flag? b' := by
  unfold flag?
  by_cases h : b' = b
  · subst h
    rw [binding?_modifyBinding_self, Option.map_map]
    exact congrArg (fun g => (s.binding? b').map g) (funext hf)
  · rw [binding?_modifyBinding_of_ne s f h]

theorem flag?_write (s : Screen) (b b' : BindingId) : (s.write b).2.flag? b' = s.flag? b' := by
  unfold flag?
  by_cases h : b' = b
  · subst h
    rw [binding?_write_self, Option.map_map]
    rfl
  · rw [binding?_write_of_ne s h]

/-- The queue of a screen holds what the moments of a run leave waiting. -/
structure Tallies (s : Screen) (q : QueueId) (delay : Nat) (past : List Moment) (y : Queue) : Prop where
  queue : s.queue? q = some y
  delay_eq : y.delay = delay
  nodup : y.pending.Nodup
  awaits : ∀ b, b ∈ y.pending ↔ Awaits delay b past
  flag : ∀ b x, s.binding? b = some x → (x.pending = true ↔ b ∈ y.pending)
  known : ∀ b, b ∈ y.pending → (s.binding? b).isSome = true
  deadline : ∀ time, y.deadline = some time → ∃ mark, lastMark? past = some mark ∧ time = mark + delay
  idle : y.deadline = none → y.pending = []

namespace Tallies

variable {s s' : Screen} {q : QueueId} {delay : Nat} {past : List Moment} {y : Queue}

/-- An attribute that nobody has queued yet does not wait. -/
theorem not_mem_of_none {b : BindingId} (h : s.Tallies q delay past y) (hb : s.binding? b = none) :
    b ∉ y.pending := by
  intro hmem
  have hknown := h.known b hmem
  rw [hb] at hknown
  cases hknown

/-- A quiet event that leaves the queue and every flag, but for attributes that come up without one. -/
theorem quiet (h : s.Tallies q delay past y) {m : Moment} (hm : m.event.isQuiet = true)
    (hq : s'.queue? q = s.queue? q)
    (hflag : ∀ b, s'.flag? b = s.flag? b ∨ s.flag? b = none ∧ s'.flag? b = some false) :
    s'.Tallies q delay (m :: past) y where
  queue := hq.trans h.queue
  delay_eq := h.delay_eq
  nodup := h.nodup
  awaits b := (h.awaits b).trans (awaits_of_isQuiet hm past b).symm
  flag b x' hx' := by
    have hx'' : s'.flag? b = some x'.pending := by
      unfold flag?
      rw [hx']
      rfl
    rcases hflag b with heq | ⟨hnone, hnew⟩
    · rw [heq] at hx''
      obtain ⟨x, hx, hp⟩ := Option.map_eq_some_iff.1 hx''
      rw [← hp]
      exact h.flag b x hx
    · rw [hnew] at hx''
      rw [← Option.some.inj hx'']
      exact iff_of_false Bool.false_ne_true (h.not_mem_of_none (Option.map_eq_none_iff.1 hnone))
  known b hb := by
    have hknown : (s.flag? b).isSome = true := Option.isSome_map.trans (h.known b hb)
    rcases hflag b with heq | ⟨hnone, -⟩
    · rw [← heq] at hknown
      exact Option.isSome_map.symm.trans hknown
    · rw [hnone] at hknown
      cases hknown
  deadline time htime := by
    rw [lastMark?_of_isQuiet hm]
    exact h.deadline time htime
  idle := h.idle

/-- A mark puts an attribute into the queue, unless it waits already, and moves the deadline. -/
theorem mark (h : s.Tallies q delay past y) {b : BindingId} {x : Binding} (hx : s.binding? b = some x) :
    (s.mark q b).Tallies q delay (⟨s.clock, .mark b⟩ :: past)
      { y with
        pending := if x.pending then y.pending else y.pending ++ [b]
        deadline := some (s.clock + y.delay) } where
  queue := by
    rw [queue?_mark hx, h.queue]
    rfl
  delay_eq := h.delay_eq
  nodup := by
    cases hp : x.pending with
    | true => exact h.nodup
    | false =>
      -- the flag tells that the attribute is not in the queue
      have hb : b ∉ y.pending := fun hb => by
        have hpending := (h.flag b x hx).2 hb
        rw [hp] at hpending
        cases hpending
      refine List.nodup_append.2 ⟨h.nodup, List.nodup_singleton b, ?_⟩
      rintro a ha _ hb' rfl
      exact hb (List.mem_singleton.1 hb' ▸ ha)
  awaits b' := by
    have hmem : b' ∈ (if x.pending then y.pending else y.pending ++ [b]) ↔ b' = b ∨ b' ∈ y.pending := by
      cases hp : x.pending with
      | true =>
        have hb : b ∈ y.pending := (h.flag b x hx).1 hp
        exact ⟨Or.inr, fun hor => hor.elim (fun heq => heq ▸ hb) id⟩
      | false => simp [or_comm]
    rw [hmem, awaits_cons_iff, h.awaits]
    constructor
    · rintro (rfl | hb')
      · exact Or.inl rfl
      · exact Or.inr ⟨hb', id⟩
    · rintro (heq | ⟨hb', -⟩)
      · cases heq
        exact Or.inl rfl
      · exact Or.inr hb'
  flag b' x' hx' := by
    by_cases hb : b' = b
    · subst hb
      rw [binding?_mark_self hx] at hx'
      obtain rfl := Option.some.inj hx'
      refine iff_of_true rfl ?_
      cases hp : x.pending with
      | true => exact (h.flag b' x hx).1 hp
      | false => simp
    · rw [binding?_mark_of_ne hb] at hx'
      rw [h.flag b' x' hx']
      cases x.pending <;> simp [hb]
  known b' hmem := by
    by_cases hb : b' = b
    · subst hb
      rw [binding?_mark_self hx]
      rfl
    · rw [binding?_mark_of_ne hb]
      refine h.known b' ?_
      cases hp : x.pending <;> simpa [hp, hb] using hmem
  deadline time htime := by
    refine ⟨s.clock, rfl, ?_⟩
    rw [← Option.some.inj htime, h.delay_eq]
  idle hnone := by cases hnone

/-- After a flush nothing waits. -/
theorem flush (h : s.Tallies q delay past y) {m : Moment} (hm : m.event.flushes delay past)
    (hmark : ∀ b, m.event ≠ .mark b) : ∃ y', (s.flush q).2.Tallies q delay (m :: past) y' := by
  have hd := delivery_flush h.queue
  refine ⟨_, hd.queue, h.delay_eq, List.nodup_nil, fun b => ?_, fun b x hx => ?_, fun b hb => ?_,
    fun time htime => ?_, fun _ => rfl⟩
  · refine iff_of_false List.not_mem_nil fun hb => ?_
    rcases awaits_cons_iff.1 hb with heq | ⟨-, hno⟩
    · exact hmark b heq
    · exact hno hm
  · refine iff_of_false (fun hp => ?_) List.not_mem_nil
    rw [hd.binding?] at hx
    obtain ⟨x₀, hx₀, rfl⟩ := Option.map_eq_some_iff.1 hx
    split at hp
    · cases hp
    · next hb => exact hb ((h.flag b x₀ hx₀).1 hp)
  · exact absurd hb List.not_mem_nil
  · cases htime

/-- A poll flushes when the delay has passed since the latest mark, and else leaves what waits. -/
theorem poll (h : s.Tallies q delay past y) (time now : Int) :
    ∃ y', (s.poll q now).2.Tallies q delay (⟨time, .poll now⟩ :: past) y' := by
  have hlast : lastMark? (⟨time, .poll now⟩ :: past) = lastMark? past := rfl
  cases hd : y.deadline with
  | none =>
    rw [poll_of_none h.queue hd]
    have hempty := h.idle hd
    refine ⟨y, { h with awaits := fun b => ?_, deadline := fun d hd' => hlast ▸ h.deadline d hd' }⟩
    have hb : ¬ Awaits delay b past := fun hb => by
      rw [← h.awaits, hempty] at hb
      exact List.not_mem_nil hb
    rw [hempty]
    refine iff_of_false List.not_mem_nil fun hcons => ?_
    rcases awaits_cons_iff.1 hcons with heq | ⟨hold, -⟩
    · cases heq
    · exact hb hold
  | some d =>
    obtain ⟨mark, hmark, rfl⟩ := h.deadline d hd
    by_cases hle : mark + delay ≤ now
    · rw [poll_of_le h.queue hd hle]
      exact h.flush ⟨mark, hmark, hle⟩ fun b heq => by cases heq
    · rw [poll_of_lt s q now (mark + delay) y h.queue hd (Int.not_le.1 hle)]
      refine ⟨y, { h with awaits := fun b => ?_, deadline := fun d hd' => hlast ▸ h.deadline d hd' }⟩
      have hno : ¬ (QueueEvent.poll now).flushes delay past := by
        rintro ⟨mark', hmark', hle'⟩
        obtain rfl := Option.some.inj (hmark.symm.trans hmark')
        exact hle hle'
      rw [h.awaits, awaits_cons_iff]
      exact ⟨fun hb => Or.inr ⟨hb, hno⟩, fun hor => hor.elim (fun heq => by cases heq) And.left⟩

/-- Every event keeps the account of what waits. -/
theorem happen (h : s.Tallies q delay past y) (e : QueueEvent)
    (hmark : ∀ b, e = .mark b → (s.binding? b).isSome = true) :
    ∃ y', (s.happen q e).Tallies q delay (⟨s.clock, e⟩ :: past) y' := by
  cases e with
  | wait milliseconds => exact ⟨y, h.quiet rfl rfl fun _ => Or.inl rfl⟩
  | add owner name format =>
    refine ⟨y, h.quiet rfl rfl fun b => ?_⟩
    unfold flag? Screen.happen
    rw [binding?_addBinding]
    split
    · next hb =>
      -- the identity has not been given to another attribute
      refine Or.inr ⟨?_, rfl⟩
      rw [hb]
      exact Option.map_eq_none_iff.2 (Array.getElem?_eq_none (Nat.le_refl _))
    · exact Or.inl rfl
  | fill b source text =>
    have hflag := flag?_modifyBinding s b (fun x => x.fill source text) fun _ => rfl
    exact ⟨y, h.quiet rfl rfl fun b' => Or.inl (hflag b')⟩
  | mark b =>
    obtain ⟨x, hx⟩ := Option.isSome_iff_exists.1 (hmark b rfl)
    exact ⟨_, h.mark hx⟩
  | write b =>
    exact ⟨y, h.quiet rfl (queue?_of_queues (queues_write s b) q) fun b' => Or.inl (flag?_write s b b')⟩
  | poll now => exact h.poll s.clock now
  | flush => exact h.flush trivial fun b heq => by cases heq
  | edit forest => exact ⟨y, h.quiet rfl rfl fun _ => Or.inl rfl⟩

end Tallies

end Screen

/-- After every run the queue holds what the moments of the run leave waiting. -/
theorem QueueRun.tallies {q : QueueId} {delay : Nat} {past : List Moment} {s : Screen}
    (h : QueueRun q delay past s) : ∃ y, s.Tallies q delay past y := by
  induction h with
  | start hq hidle =>
    refine ⟨_, hq, rfl, List.nodup_nil, fun b => ?_, fun b x hx => ?_, fun b hb => ?_, fun time htime => ?_,
      fun _ => rfl⟩
    · exact iff_of_false List.not_mem_nil fun hb => by cases hb
    · rw [hidle b x hx]
      exact iff_of_false Bool.false_ne_true List.not_mem_nil
    · exact absurd hb List.not_mem_nil
    · cases htime
  | next _ e hmark ih =>
    obtain ⟨y, hy⟩ := ih
    exact hy.happen e hmark

/-- The queue loses nothing and repeats nothing. After every run it holds each attribute once that has been
marked since the last flush, and no other, and the flags of the attributes agree; if it is not empty, its
deadline is the time of the latest mark plus the delay; a flush writes the texts of those attributes whose
elements are in use, once each, and nothing else; and a poll is a flush from the deadline on, and before it
nothing. -/
theorem queue_loses_and_repeats_nothing {q : QueueId} {delay : Nat} {past : List Moment} {s : Screen}
    (h : QueueRun q delay past s) :
    ∃ y, s.queue? q = some y ∧ y.delay = delay ∧
      (y.pending.Nodup ∧ ∀ b, b ∈ y.pending ↔ Awaits delay b past) ∧
      (∀ b x, s.binding? b = some x → (x.pending = true ↔ Awaits delay b past)) ∧
      (y.pending ≠ [] → ∃ time, lastMark? past = some time ∧ y.deadline = some (time + delay)) ∧
      s.Delivery (s.flush q).2 q y (s.flush q).1 ∧
      (∀ deadline, y.deadline = some deadline →
        ∀ now, s.poll q now = if now < deadline then (0, s) else s.flush q) ∧
      (y.deadline = none → ∀ now, s.poll q now = (0, s)) := by
  obtain ⟨y, hy⟩ := h.tallies
  refine ⟨y, hy.queue, hy.delay_eq, ⟨hy.nodup, hy.awaits⟩, fun b x hx => (hy.flag b x hx).trans (hy.awaits b),
    fun hne => ?_, Screen.delivery_flush hy.queue, fun deadline hd now => ?_, fun hd now => ?_⟩
  · cases hd : y.deadline with
    | none => exact absurd (hy.idle hd) hne
    | some d =>
      obtain ⟨mark, hmark, rfl⟩ := hy.deadline d hd
      exact ⟨mark, hmark, rfl⟩
  · split
    · next hlt => exact Screen.poll_of_lt s q now deadline y hy.queue hd hlt
    · next hge => exact Screen.poll_of_le hy.queue hd (Int.not_lt.1 hge)
  · exact Screen.poll_of_none hy.queue hd now

/-- A paragraph with a title that is computed, and a queue. -/
def titleScreen : Screen where
  forest := ⟨⟨#[{ kind := .element (.html "p") [] false }]⟩⟩
  bindings := ⟨#[{ owner := ⟨0⟩, name := .plain "title", parts := ["now"], slots := [] }]⟩
  queues := ⟨#[{ delay := 50 }]⟩

theorem queue_loses_and_repeats_nothing_title :
    QueueRun ⟨0⟩ 50 [⟨0, .mark ⟨0⟩⟩] (titleScreen.mark ⟨0⟩ ⟨0⟩) ∧
      ∃ y, (titleScreen.mark ⟨0⟩ ⟨0⟩).queue? ⟨0⟩ = some y ∧
        (∀ b, b ∈ y.pending ↔ Awaits 50 b [⟨0, .mark ⟨0⟩⟩]) ∧ y.deadline = some 50 ∧
        (titleScreen.mark ⟨0⟩ ⟨0⟩).Delivery ((titleScreen.mark ⟨0⟩ ⟨0⟩).flush ⟨0⟩).2 ⟨0⟩ y 1 := by
  have hstart : QueueRun ⟨0⟩ 50 [] titleScreen := by
    refine .start rfl fun b x hx => ?_
    obtain ⟨_ | i⟩ := b
    · exact (Option.some.inj hx) ▸ rfl
    · cases hx
  have hrun : QueueRun ⟨0⟩ 50 [⟨0, .mark ⟨0⟩⟩] (titleScreen.mark ⟨0⟩ ⟨0⟩) :=
    hstart.next (.mark ⟨0⟩) fun b hb => by cases hb; rfl
  obtain ⟨y, hy, -, ⟨-, hawaits⟩, -, hdeadline, hflush, -⟩ := queue_loses_and_repeats_nothing hrun
  have hmem : (⟨0⟩ : BindingId) ∈ y.pending := (hawaits ⟨0⟩).2 .marked
  obtain ⟨time, htime, hd⟩ := hdeadline (List.ne_nil_of_mem hmem)
  refine ⟨hrun, y, hy, hawaits, ?_, hflush⟩
  rw [hd, ← Option.some.inj htime]
  rfl

end ReactiveView
