import ReactiveView.Proofs.Steps.Commands

/-!
# Runs of operations

What a program does with live objects is a sequence of *operations* (`Operation`): it constructs instances,
writes properties and attributes, edits collections, attaches and detaches, registers listeners, raises
events, lets queues be written, drops what it holds, and carries out commands of a host, which load further
classes among other things. Operations may end well or halt; either way the world they leave behind is
*reached* (`World.Reaches`). A *fresh* world has compiled classes and nothing made from them yet
(`World.Fresh`).

Every run is a sequence of elementary changes (`World.Reaches.steps`), so worlds reached from fresh ones
are sound.
-/

set_option autoImplicit false

namespace ReactiveView

/-- What a program can do. -/
inductive Operation where
  | construct (id : ClassId) (init : Option Value)
  | set (i : InstanceId) (name : String) (v : Value)
  | assign (i : InstanceId) (v : Value)
  | setAttribute (i : InstanceId) (name : String) (v : Value)
  | setAttributes (i : InstanceId) (values : Dict String Value)
  /-- A bound property is computed anew. -/
  | recompute (i : InstanceId) (name : String)
  | splice (k : CollectionId) (start count : Nat) (values : List Value)
  | replaceAll (k : CollectionId) (values : List Value)
  | push (k : CollectionId) (v : Value)
  | unshift (k : CollectionId) (v : Value)
  | pop (k : CollectionId)
  | shift (k : CollectionId)
  | insert (k : CollectionId) (position : Nat) (v : Value)
  | remove (k : CollectionId) (position : Nat)
  | move (k : CollectionId) (source target : Nat)
  | attach (i parent : InstanceId) (name : String)
  | detach (i : InstanceId)
  | listen (i : InstanceId) (kind : EventClass) (name : String) (l : Listener)
  | dispatch (i : InstanceId) (name : String) (data : Value)
  | flush (q : QueueId)
  | poll (q : QueueId) (delta : Int)
  /-- Something is no longer held. -/
  | drop (h : Held)
  | command (frame : Option Frame) (c : Host.Command)

theorem Run.discard_apply {α : Type} (x : Run α) (w : World) : (discard x w).2 = (x w).2 := by
  change ((Function.const α PUnit.unit <$> x) w).2 = _
  rw [← bind_pure_comp, Run.bind_apply]
  rcases x w with ⟨e | a, w'⟩ <;> rfl

namespace Operation

open Run

/-- Carries out an operation, whatever it answers. -/
def run (cb : Callbacks) : Operation → Run Unit
  | construct id init => discard (constructInstance cb id init)
  | set i name v => setProperty cb i name v
  | assign i v => Run.assign cb i v
  | setAttribute i name v => Run.setAttribute i name v
  | setAttributes i values => Run.setAttributes i values
  | recompute i name => recomputeBinding cb i name
  | splice k start count values => discard (Run.splice cb k start count values)
  | replaceAll k values => discard (Run.replaceAll cb k values)
  | push k v => discard (Run.push cb k v)
  | unshift k v => discard (Run.unshift cb k v)
  | pop k => discard (Run.pop cb k)
  | shift k => discard (Run.shift cb k)
  | insert k position v => insertItem cb k position v
  | remove k position => discard (removeItem cb k position)
  | move k source target => moveItem cb k source target
  | attach i parent name => Run.attach cb i parent name
  | detach i => Run.detach cb i
  | listen i kind name l => Run.listen i kind name l
  | dispatch i name data => dispatchEvent cb i name data
  | flush q => discard (flushQueue q)
  | poll q delta => discard (change fun w =>
      let (n, screen) := w.screen.pollAfterDeadline q delta
      (n, { w with screen := screen }))
  | drop h => unpin h
  | command frame c => discard (perform cb frame c)

theorem proceeds_run {S : World → World → Prop} [IsStepping S] {cb : Callbacks} (hcb : cb.SteadyBy S) (op : Operation) :
    Keeps (World.ProceedsBy S) (op.run cb) := by
  cases op with
  | construct id init => exact (proceeds_constructInstance hcb id init).map _
  | set i name v => exact proceeds_setProperty hcb i name v
  | assign i v => exact proceeds_assign hcb i v
  | setAttribute i name v => exact proceeds_setAttribute i name v
  | setAttributes i values => exact proceeds_setAttributes i values
  | recompute i name => exact proceeds_recomputeBinding hcb i name
  | splice k start count values => exact (proceeds_splice hcb k start count values).map _
  | replaceAll k values => exact (proceeds_replaceAll hcb k values).map _
  | push k v => exact (proceeds_push hcb k v).map _
  | unshift k v => exact (proceeds_unshift hcb k v).map _
  | pop k => exact (proceeds_pop hcb k).map _
  | shift k => exact (proceeds_shift hcb k).map _
  | insert k position v => exact proceeds_insertItem hcb k position v
  | remove k position => exact (proceeds_removeItem hcb k position).map _
  | move k source target => exact proceeds_moveItem hcb k source target
  | attach i parent name => exact proceeds_attach hcb i parent name
  | detach i => exact proceeds_detach hcb i
  | listen i kind name l => exact proceeds_listen i kind name l
  | dispatch i name data => exact proceeds_dispatchEvent hcb i name data
  | flush q => exact (proceeds_flushQueue q).map _
  | poll q delta => exact (proceeds_poll q delta).map _
  | drop h => exact keeps_unpin h
  | command frame c => exact (proceeds_perform hcb frame c).map _

end Operation

namespace World

variable {w w' w'' : World}

/-- The world that an operation leaves behind, however deeply calls may be nested. -/
def Does (w w' : World) : Prop :=
  ∃ (depth : Nat) (op : Operation), w' = (op.run (Callbacks.ofDepth depth) w).2

/-- A world that is left behind by operations, one after the other. -/
abbrev Reaches : World → World → Prop := Relation.ReflTransGen Does

/-- Classes have been compiled, and nothing has been made from them yet. -/
structure Fresh (w : World) : Prop where
  compiled : Compiled w.classes
  instances : w.instances = {}
  collections : w.collections = {}

theorem Fresh.sound (h : w.Fresh) : w.Sound where
  compiled := h.compiled
  inst i x hx := by
    unfold inst? at hx
    rw [h.instances] at hx
    simp [Table.get?] at hx
  coll k y hy := by
    unfold coll? at hy
    rw [h.collections] at hy
    simp [Table.get?] at hy

theorem Does.proceedsBy {S : World → World → Prop} [IsStepping S] (h : w.Does w') : ProceedsBy S w w' := by
  obtain ⟨depth, op, rfl⟩ := h
  exact op.proceeds_run (Callbacks.steadyBy_ofDepth depth) w

/-- Operations are elementary changes of every kind, one after the other. -/
theorem Reaches.stepsBy {S : World → World → Prop} [IsStepping S] (h : w.Reaches w') (hw : w.Sound) :
    StepsBy S w w' := by
  induction h with
  | refl => exact .refl
  | tail _ hdoes ih => exact ih.trans (hdoes.proceedsBy (StepsBy.sound ih hw))

theorem Reaches.steps (h : w.Reaches w') (hw : w.Sound) : w.Steps w' := h.stepsBy hw

theorem Reaches.sound (h : w.Reaches w') (hw : w.Sound) : w'.Sound :=
  Steps.sound (h.steps hw) hw

end World

/-! ## A small world -/

/-- The template of a tile: a title, and an attribute that is part of a formatted one. -/
def tileTemplate : Markup :=
  .element (.html "template") [⟨.plain "ooml-class", "Tile"⟩] false
    [.element (.html "ooml-attribute") [⟨.plain "name", "tone"⟩, ⟨.plain "type", "string"⟩] false [],
      .element (.html "div") [⟨.plain "class", "tile \x7b\x7b attributes.tone \x7d\x7d"⟩] false
        [.text "\x7b\x7b string this.title \x7d\x7d"]]

/-- The template of a board: a slot and a list of tiles under one element. -/
def boardTemplate : Markup :=
  .element (.html "template") [⟨.plain "ooml-class", "Board"⟩] false
    [.element (.html "section") [] false
        [.text "\x7b Tile this.first \x7d", .text "\x7b for Tile of this.items \x7d"]]

/-- The two templates, compiled one after the other. -/
def boardShelf : Except Error Class.Shelf := do
  let (_, s) ← Class.Shelf.add {} true [] tileTemplate
  let (_, s) ← s.add true [] boardTemplate
  return s

/-- A world that knows the two classes and has a queue for what they write. -/
def boardWorld : World :=
  match boardShelf with
  | .ok s => { screen := (({} : Screen).addQueue 16).2, classes := s.classes }
  | .error _ => {}

theorem compiled_boardShelf {s : Class.Shelf} (h : boardShelf = .ok s) : Compiled s.classes := by
  unfold boardShelf at h
  simp only [bind, Except.bind, pure, Except.pure] at h
  split at h
  · cases h
  · next tile htile =>
    split at h
    · cases h
    · next board hboard =>
      obtain rfl := Except.ok.inj h
      exact Class.Shelf.compiled_add (Class.Shelf.compiled_add .empty htile) hboard

theorem fresh_boardWorld : boardWorld.Fresh := by
  unfold boardWorld
  split
  · next h => exact ⟨compiled_boardShelf h, rfl, rfl⟩
  · exact ⟨.empty, rfl, rfl⟩

/-- An object that makes a tile with a title. -/
def tile (title : String) : Value := .object [("title", .text title)]

/-- A board with a tile in its slot and two in its list. -/
def board : Except Halt InstanceId × World :=
  Run.constructInstance (Callbacks.ofDepth 2) ⟨1⟩
    (some (.object [("first", tile "a"), ("items", .array [tile "b", tile "c"])])) boardWorld

theorem reaches_board : boardWorld.Reaches board.2 := by
  refine .single ⟨2, .construct ⟨1⟩ (some (.object [("first", tile "a"), ("items", .array [tile "b", tile "c"])])), ?_⟩
  exact (Run.discard_apply _ _).symm

end ReactiveView
