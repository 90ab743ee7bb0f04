import ReactiveView.Forest.Basic
import ReactiveView.Format
import ReactiveView.Markup.Printer

/-!
# Screens: live trees, formatted attributes, and the queues of deferred writes

A formatted attribute is an attribute of a live element whose text is put together from a format. Its
parts are filled at once, but the element is written only when the queue that the attribute was put
into is flushed: on demand, or when it is polled at or after its deadline. Every time an attribute is
marked the deadline moves to the time of the mark plus the delay of the queue; an attribute that
waits already is not put into the queue again.

A source of text may be rendered in any number of places: a *node set* lists text nodes, which are
written at once, and formatted attributes, which are filled and marked. The same place may be listed
more than once.

`Screen.Consistent` states what the operations keep: an attribute is pending exactly when it is in
the queue, and no attribute is in the queue twice.
-/

set_option autoImplicit false

namespace ReactiveView

/-- An attribute of a live element whose text is computed from a format. -/
structure Binding where
  owner : NodeId
  name : QName
  /-- The parts of the format, the holes filled with what was last given. -/
  parts : List String
  slots : Dict Source (List Nat)
  /-- Whether it waits in a queue. -/
  pending : Bool := false
  /-- The text that was last written to the element. -/
  written : Option String := none

namespace Binding

/-- A formatted attribute whose holes are still empty. -/
def ofFormat (owner : NodeId) (name : QName) (f : Format) : Binding :=
  { owner := owner, name := name, parts := f.parts, slots := f.slots }

/-- The sources of its holes. -/
def sources (b : Binding) : List Source := b.slots.keys

/-- Fills the holes of one source. -/
def fill (b : Binding) (source : Source) (text : String) : Binding :=
  { b with parts := Format.fill b.slots b.parts source text }

/-- The text as it stands. -/
def joined (b : Binding) : String := Format.joined b.parts

end Binding

/-- A queue of formatted attributes that wait to be written. -/
structure Queue where
  /-- Milliseconds from the last mark to the deadline. -/
  delay : Nat
  pending : List BindingId := []
  deadline : Option Int := none
  /-- The number of flushes that wrote something. -/
  flushes : Nat := 0

/-- A place where a source of text is rendered. -/
inductive BoundNode where
  | text (n : NodeId)
  | attr (b : BindingId)
deriving DecidableEq, Repr

/-- The places where one source is rendered. -/
abbrev NodeSet := List BoundNode

/-- Live trees with their formatted attributes and queues. -/
structure Screen where
  forest : Forest := {}
  bindings : Table Binding := {}
  queues : Table Queue := {}
  /-- The present time in milliseconds. -/
  clock : Int := 0

namespace Screen

/-- The formatted attribute with an identity. -/
def binding? (s : Screen) (b : BindingId) : Option Binding := s.bindings.get? b.index

/-- The queue with an identity. -/
def queue? (s : Screen) (q : QueueId) : Option Queue := s.queues.get? q.index

/-- Changes the live trees. -/
def mapForest (s : Screen) (g : Forest → Forest) : Screen := { s with forest := g s.forest }

/-- Changes a formatted attribute. -/
def modifyBinding (s : Screen) (b : BindingId) (g : Binding → Binding) : Screen :=
  { s with bindings := s.bindings.modify b.index g }

/-- Changes a queue. -/
def modifyQueue (s : Screen) (q : QueueId) (g : Queue → Queue) : Screen :=
  { s with queues := s.queues.modify q.index g }

/-- Adds a queue. -/
def addQueue (s : Screen) (delay : Nat) : QueueId × Screen :=
  (⟨s.queues.size⟩, { s with queues := s.queues.push { delay := delay } })

/-- Adds a formatted attribute. -/
def addBinding (s : Screen) (b : Binding) : BindingId × Screen :=
  (⟨s.bindings.size⟩, { s with bindings := s.bindings.push b })

/-! ## Writing formatted attributes -/

/-- Writes the text of a formatted attribute to its element; tells whether the element is in use. -/
def write (s : Screen) (b : BindingId) : Bool × Screen :=
  match s.binding? b with
  | none => (false, s)
  | some binding =>
    if s.forest.isAlive binding.owner then
      let s := s.mapForest fun f => f.setAttr binding.owner binding.name binding.joined
      (true, s.modifyBinding b fun binding => { binding with written := some binding.joined })
    else (false, s)

/-- Puts a formatted attribute into a queue, unless it waits already, and moves the deadline. -/
def mark (s : Screen) (q : QueueId) (b : BindingId) : Screen :=
  let waiting :=
    match s.binding? b with
    | some binding => binding.pending
    | none => true
  let s :=
    if waiting then s
    else
      (s.modifyBinding b fun binding => { binding with pending := true }).modifyQueue q
        fun queue => { queue with pending := queue.pending ++ [b] }
  s.modifyQueue q fun queue => { queue with deadline := some (s.clock + queue.delay) }

/-- Writes waiting attributes in order; gives the number of those whose element is in use. -/
def writeAll (s : Screen) : List BindingId → Nat × Screen
  | [] => (0, s)
  | b :: bs =>
    let s := s.modifyBinding b fun binding => { binding with pending := false }
    let (done, s) := s.write b
    let (n, s) := writeAll s bs
    (if done then n + 1 else n, s)

/-- Writes all that waits in a queue; gives the number of attributes written. -/
def flush (s : Screen) (q : QueueId) : Nat × Screen :=
  match s.queue? q with
  | none => (0, s)
  | some queue =>
    let s := s.modifyQueue q fun queue => { queue with pending := [], deadline := none }
    let (n, s) := s.writeAll queue.pending
    (n, if 0 < n then s.modifyQueue q fun queue => { queue with flushes := queue.flushes + 1 }
      else s)

/-- Flushes a queue if its deadline has come by the time `now`. -/
def poll (s : Screen) (q : QueueId) (now : Int) : Nat × Screen :=
  match s.queue? q with
  | some queue =>
    match queue.deadline with
    | some deadline => if deadline ≤ now then s.flush q else (0, s)
    | none => (0, s)
  | none => (0, s)

/-- Polls a queue at a time given from its own deadline; without a deadline nothing happens. -/
def pollAfterDeadline (s : Screen) (q : QueueId) (delta : Int) : Nat × Screen :=
  match (s.queue? q).bind (·.deadline) with
  | some deadline => s.poll q (deadline + delta)
  | none => (0, s)

/-- Polling flushes the queue or does nothing. -/
theorem pollAfterDeadline_eq (s : Screen) (q : QueueId) (delta : Int) :
    s.pollAfterDeadline q delta = (0, s) ∨ s.pollAfterDeadline q delta = s.flush q := by
  unfold pollAfterDeadline poll
  repeat' split
  all_goals first | exact Or.inl rfl | exact Or.inr rfl

/-! ## Rendering a source -/

/-- Renders the text of a source in one place. -/
def renderAt (s : Screen) (q : QueueId) (source : Source) (text : String) : BoundNode → Screen
  | .text n => s.mapForest fun f => f.setText n text
  | .attr b => (s.modifyBinding b fun binding => binding.fill source text).mark q b

/-- Renders the text of a source in all places of a node set. -/
def render (s : Screen) (q : QueueId) (nodes : NodeSet) (source : Source) (text : String) :
    Screen :=
  nodes.foldl (fun s n => s.renderAt q source text n) s

/-! ## Consistency -/

/-- An attribute is pending exactly when it is in the queue, where it is at most once. -/
structure Consistent (s : Screen) (q : QueueId) : Prop where
  pending_iff : ∀ b binding, s.binding? b = some binding →
    (binding.pending = true ↔ ∃ queue, s.queue? q = some queue ∧ b ∈ queue.pending)
  nodup : ∀ queue, s.queue? q = some queue → queue.pending.Nodup

/-- Polling before the deadline changes nothing. -/
theorem poll_of_lt (s : Screen) (q : QueueId) (now deadline : Int) (queue : Queue)
    (hq : s.queue? q = some queue) (hd : queue.deadline = some deadline) (hlt : now < deadline) :
    s.poll q now = (0, s) := by
  have : ¬ deadline ≤ now := by omega
  simp [poll, hq, hd, this]

/-- Rendering in no place changes nothing. -/
theorem render_nil (s : Screen) (q : QueueId) (source : Source) (text : String) :
    s.render q [] source text = s := rfl

end Screen

/-- A node set without the first occurrence of a place, and whether there was one. -/
def NodeSet.take (nodes : NodeSet) (n : BoundNode) : Bool × NodeSet :=
  (nodes.contains n, nodes.erase n)

end ReactiveView
