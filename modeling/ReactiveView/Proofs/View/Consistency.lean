import ReactiveView.Proofs.Steps.Runs
import ReactiveView.Proofs.View.Worlds

/-!
# Views are consistent

Whatever is done after a fresh start, every live view shows what its instance holds
(`World.consistent_of_reaches`). Each text of the view's shape that shows a source has a text node, which
holds the text of the present value of this source; each format of the shape has a formatted attribute,
whose text is the format with the texts of the present values; and a formatted attribute is pending
exactly when it is in the queue of its class, where it is once, and has otherwise last written its present
text to its element, if that is in use.

This holds of operations that fail as well, and whatever the listeners do.
-/

set_option autoImplicit false

namespace ReactiveView

/-- A formatted attribute waits in a queue if and only if it is pending, and if it is not, has written its
text to its element. -/
structure Screen.InOrder (s : Screen) (q : QueueId) (b : BindingId) (x : Binding) : Prop where
  pending_iff : x.pending = true ↔ ∃ bs, s.waiting? q = some bs ∧ b ∈ bs
  once : ∀ bs, s.waiting? q = some bs → b ∈ bs → bs.count b = 1
  written : x.pending = false → s.forest.isAlive x.owner = true → x.written = some x.joined

theorem Screen.Queued.inOrder {s : Screen} {home : BindingId → QueueId} (h : s.Queued home) {b : BindingId}
    {x : Binding} (hx : s.binding? b = some x) : s.InOrder (home b) b x where
  pending_iff := h.pending_iff b x hx
  once bs hbs hmem := List.count_eq_one_of_mem (h.nodup _ bs hbs) hmem
  written := h.written b x hx

namespace World

variable {w w' w₀ : World} {i : InstanceId}

/-- The view of an instance shows the texts of the values that the instance holds. -/
structure ViewConsistent (w : World) (i : InstanceId) (x : Instance) (c : Class) (view : View) (g : Wiring) :
    Prop where
  found : w.inst? i = some x
  ofClass : w.class? x.classId = some c
  hasView : x.view = some view
  /-- The wiring has a text node and a formatted attribute for all that the class uses, -/
  serves : g.Serves c.descriptor.uses
  /-- and these are the places where the view renders the properties and attributes. -/
  wired : view.Wired c.descriptor g
  texts : ∀ t source, (t, source) ∈ g.texts → w.forest.kind? t = some (.text (x.textIn c source))
  formats : ∀ b f, (b, f) ∈ g.formats → ∃ y, w.screen.binding? b = some y ∧
    y.joined = f.render (x.textIn c) ∧ w.screen.InOrder c.queue b y

theorem Presents.viewConsistent {g : InstanceId → Wiring} {home : BindingId → QueueId}
    (h : w.Presents g home) {x : Instance} (hx : w.inst? i = some x) :
    ∃ c view, w.ViewConsistent i x c view (g i) := by
  obtain ⟨c, view, hc, hview, hdisplays⟩ := h.view i x hx
  refine ⟨c, view, hx, hc, hview, hdisplays.serves, hdisplays.wired, hdisplays.shows.texts, fun b f hf => ?_⟩
  obtain ⟨y, hy, hjoined⟩ := hdisplays.shows.joined hdisplays.serves hf
  have horder := h.queued.inOrder hy
  rw [hdisplays.home b f hf] at horder
  exact ⟨y, hy, hjoined, horder⟩

/-- Nothing has been made from the classes, and nothing waits in the queues, which are there for all
classes. -/
structure Unused (w : World) : Prop extends w.Fresh where
  bindings : w.screen.bindings = {}
  idle : ∀ q bs, w.screen.waiting? q = some bs → bs = []
  classQueue : ∀ id c, w.class? id = some c → (w.screen.waiting? c.queue).isSome = true
  spaceQueue : ∀ n ns, w.space? n = some ns → (w.screen.waiting? ns.queue).isSome = true

theorem Unused.presents (h : w.Unused) : w.Presents (fun _ => {}) fun _ => ⟨0⟩ := by
  have hnone (b : BindingId) : w.screen.binding? b = none := by
    unfold Screen.binding?
    rw [h.bindings]
    simp [Table.get?]
  have hplace {place : BoundNode} : ¬ ({} : Wiring).Has place := by
    cases place <;> simp [Wiring.Has]
  have hqueued : w.screen.Queued fun _ => ⟨0⟩ := by
    refine ⟨fun b x hx => ?_, fun q bs b hbs hmem => ?_, fun q bs hbs => ?_, fun b x hx => ?_,
      fun b x hx => ?_⟩
    · rw [hnone] at hx
      cases hx
    · rw [h.idle q bs hbs] at hmem
      exact absurd hmem List.not_mem_nil
    · rw [h.idle q bs hbs]
      exact List.nodup_nil
    · rw [hnone] at hx
      cases hx
    · rw [hnone] at hx
      cases hx
  refine ⟨fun i x hx => ?_, fun i place hp => (hplace hp).elim, fun i j place hp => (hplace hp).elim, hqueued,
    h.classQueue, h.spaceQueue⟩
  unfold inst? at hx
  rw [h.instances] at hx
  simp [Table.get?] at hx

/-- Any number of elementary changes keep what a world presents. -/
theorem Steps.presents (hsteps : w.Steps w') (hw : w.Sound) {g : InstanceId → Wiring}
    {home : BindingId → QueueId} (h : w.Presents g home) : ∃ g' home', w'.Presents g' home' := by
  induction hsteps with
  | refl => exact ⟨g, home, h⟩
  | tail hsteps hstep ih =>
    obtain ⟨g', home', h'⟩ := ih
    have hmid := Steps.sound hsteps hw
    rcases hstep.presents hmid h' with hkept | ⟨id, c, i, hc, hcreate⟩
    · exact ⟨g', home', hkept⟩
    · exact h'.exists_create hmid hc hcreate

/-- Whatever is done after a fresh start, the view of every instance shows what the instance holds; and
what a construction gives is an instance of this kind. -/
theorem consistent_of_reaches (h₀ : w₀.Unused) (hreach : w₀.Reaches w) :
    (∀ i x, w.inst? i = some x → ∃ c view g, w.ViewConsistent i x c view g) ∧
      ∀ depth id init i w', Run.constructInstance (Callbacks.ofDepth depth) id init w = (.ok i, w') →
        ∃ x c view g, w'.ViewConsistent i x c view g := by
  have hall {w : World} (hreach : w₀.Reaches w) {i : InstanceId} {x : Instance} (hx : w.inst? i = some x) :
      ∃ c view g, w.ViewConsistent i x c view g := by
    obtain ⟨g, home, h⟩ := Steps.presents (hreach.steps h₀.sound) h₀.sound h₀.presents
    obtain ⟨c, view, hconsistent⟩ := h.viewConsistent hx
    exact ⟨c, view, g i, hconsistent⟩
  refine ⟨fun i x hx => hall hreach hx, fun depth id init i w' hok => ?_⟩
  have hdoes : w.Does w' := by
    refine ⟨depth, .construct id init, ?_⟩
    have hrun := Run.discard_apply (Run.constructInstance (Callbacks.ofDepth depth) id init) w
    rw [hok] at hrun
    exact hrun.symm
  -- what is constructed is an instance of the class
  have hsteady := Callbacks.steadyBy_ofDepth (S := Step) depth
  have haccepts := Run.accepts_constructInstance hsteady (hreach.sound h₀.sound) hok ""
  unfold accepts at haccepts
  cases hx : w'.inst? i with
  | none =>
    rw [hx] at haccepts
    cases haccepts
  | some x =>
    obtain ⟨c, view, g, h⟩ := hall (hreach.tail hdoes) hx
    exact ⟨x, c, view, g, h⟩

/-! ## A small world -/

theorem unused_boardWorld : boardWorld.Unused where
  toFresh := fresh_boardWorld
  bindings := by
    unfold boardWorld
    split <;> rfl
  idle q bs hbs := by
    have hnone : ({} : Screen).waiting? q = none := by
      unfold Screen.waiting? Screen.queue?
      simp [Table.get?]
    unfold boardWorld at hbs
    split at hbs
    · exact (Screen.extends_addQueue {} 16).1.empty q bs hbs hnone
    · rw [hnone] at hbs
      cases hbs
  classQueue id c hc := by
    have hall : (boardWorld.classes.entries.all fun c => c.queue == ⟨0⟩) = true := by decide +kernel
    have hqueue : c.queue = ⟨0⟩ := by
      have hmem : c ∈ boardWorld.classes.entries := Array.mem_of_getElem? hc
      simpa using Array.all_eq_true_iff_forall_mem.1 hall c hmem
    rw [hqueue]
    decide +kernel
  spaceQueue n ns hns := by
    unfold boardWorld at hns
    split at hns <;> simp [space?, Table.get?] at hns

/-- After the tone of a tile has been set, its class waits to be written with the new text. -/
theorem consistent_of_reaches_board : ∃ w, boardWorld.Reaches w ∧
    (∃ x c view g, w.ViewConsistent ⟨1⟩ x c view g) ∧ w.screen.waiting? ⟨0⟩ = some [⟨0⟩] ∧
      (w.screen.binding? ⟨0⟩).map Binding.joined = some "tile warm" := by
  have hsome : ((((Operation.setAttribute ⟨1⟩ "tone" (.text "warm")).run (Callbacks.ofDepth 2)
      board.2).2.inst? ⟨1⟩).isSome) = true := by
    decide +kernel
  obtain ⟨x, hx⟩ := Option.isSome_iff_exists.1 hsome
  have hreach : boardWorld.Reaches _ := reaches_board.tail
    ⟨2, .setAttribute ⟨1⟩ "tone" (.text "warm"), rfl⟩
  refine ⟨_, hreach, ⟨x, (consistent_of_reaches unused_boardWorld hreach).1 ⟨1⟩ x hx⟩, ?_, ?_⟩
  · decide +kernel
  · decide +kernel

end World

end ReactiveView
