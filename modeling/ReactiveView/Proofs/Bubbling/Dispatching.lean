import ReactiveView.Proofs.Bubbling.Climb
import ReactiveView.Proofs.Bubbling.Moorings
import ReactiveView.Proofs.Loading.Markers
import ReactiveView.Proofs.Ownership.Invariant
import ReactiveView.Proofs.Template.Redeclaring

/-!
# Events bubble up and stop

Whatever the commands of a session have done, an instance that is recorded in a place is attached under the owner of
the sink that it is recorded with, and the sink leads to the handlers that the element around the marker of this place
declares (`World.Tethered`). So where methods and listeners are quiet, and nobody on its way is attached under
itself, an event stops. On its way it reaches only instances that the one it started from is attached under, and there
only what the elements around the child declare (`World.Bubbles`, `World.Abates`).

Among plain classes nobody is attached under itself, and the root of an instance stands in the very element that its
sink belongs to (`World.Perches`). Constructors that attach what they construct, and markers that move the root of what
they ask for, may leave a circle of attachments, in which an event has nowhere to stop.
-/

set_option autoImplicit false

namespace ReactiveView

open Relation

/-! ## The handlers of a view -/

namespace ViewNode

variable {shape : ElementShape} {name : String} {v : ViewNode} {vs : List ViewNode}

theorem handlers_subset_usesAll (h : v ∈ vs) : v.uses.handlers ⊆ (usesAll vs).handlers := by
  obtain ⟨before, after, rfl⟩ := List.append_of_mem h
  rw [usesAll_append]
  exact List.subset_append_of_subset_right _ (List.subset_append_left _ _)

/-- The view uses what the element around a marker uses. -/
theorem Surrounds.handlers_subset (h : Surrounds shape name v) : shape.uses.handlers ⊆ v.uses.handlers := by
  induction h with
  | here => exact List.subset_append_left _ _
  | deeper hmem _ ih =>
    exact List.subset_append_of_subset_right _ (List.Subset.trans ih (handlers_subset_usesAll hmem))

end ViewNode

theorem Sink.DeclaredIn.mem_handlers {s : Sink} {v : ViewNode} {name event : String} {handler : Handler}
    (h : s.DeclaredIn v name) (hget : s.handlers.get? event = some handler) : handler ∈ v.uses.handlers := by
  obtain ⟨shape, hshape, hhandlers⟩ := h
  refine hshape.handlers_subset (List.mem_append_right _ ?_)
  exact List.mem_map.2 ⟨_, Dict.mem_of_get? (hhandlers ▸ hget), rfl⟩

namespace World

variable {w w' w₀ w₁ : World} {i P X : InstanceId} {pl : Place} {anchor : NodeId} {sink : Sink} {name : String}
  {bound : Nat} {data : Value}

/-! ## Where instances are tethered -/

/-- The sink that an instance is recorded with is the one that is kept for its place. The place is one of the instance
that owns the sink, and the sink leads to the handlers of the element around the marker of the place. -/
structure Tethered (w : World) (i : InstanceId) (sink : Sink) : Prop where
  under : w.AttachedUnder i sink.owner
  moored : ∃ a anchor, w.attachment? i = some a ∧ a.sink = sink ∧ w.Mooring a.place anchor sink ∧
    w.Surrounded a.place anchor sink

theorem IsPlaceOf.attachedUnder (h : w.IsPlaceOf P name pl) (hpl : w.placeOf? i = some pl) : w.AttachedUnder i P := by
  cases pl with
  | slot Q property =>
    obtain ⟨rfl, rfl⟩ := h
    exact Or.inl ⟨property, hpl⟩
  | sequence k =>
    obtain ⟨y, hy, howner, -⟩ := h
    exact Or.inr ⟨k, y, hpl, hy, howner⟩

theorem placeOf?_of_attachment? {a : Attachment} (ha : w.attachment? i = some a) : w.placeOf? i = some a.place := by
  unfold placeOf?
  rw [ha]
  rfl

/-- Where places are moored and attachments are fastened, instances are tethered where they are recorded. -/
theorem Fastened.tethered (hfastened : w.Fastened) (hmoored : w.Moored) {a : Attachment}
    (ha : w.attachment? i = some a) : w.Tethered i a.sink := by
  obtain ⟨anchor, hmooring⟩ := hfastened i a ha
  have hsurrounded := hmoored.surrounded _ _ _ hmooring
  obtain ⟨name, x, c, v, hplace, -⟩ := hsurrounded.declared
  exact ⟨hplace.attachedUnder (placeOf?_of_attachment? ha), a, anchor, ha, rfl, hmooring, hsurrounded⟩

/-- An instance is attached under nobody but the owner of its sink. -/
theorem Tethered.owner_eq (h : w.Tethered i sink) (hP : w.AttachedUnder i P) : P = sink.owner := by
  obtain ⟨a, anchor, ha, rfl, -, hsurrounded⟩ := h.moored
  obtain ⟨name, x, c, v, hplace, -⟩ := hsurrounded.declared
  have hpl := placeOf?_of_attachment? ha
  rcases hP with ⟨property, hslot⟩ | ⟨k, y, hsequence, hy, rfl⟩
  · rw [Option.some.inj (hpl.symm.trans hslot)] at hplace
    exact hplace.1
  · rw [Option.some.inj (hpl.symm.trans hsequence)] at hplace
    obtain ⟨y', hy', howner, -⟩ := hplace
    obtain rfl := Option.some.inj (hy.symm.trans hy')
    exact howner

/-! ## Among plain classes -/

/-- Moreover, the root of the instance stands in the element that the sink belongs to, in the view of the instance
that owns it. -/
structure Perches (w : World) (i : InstanceId) (sink : Sink) : Prop extends Tethered w i sink where
  view : ∃ r, w.rootOf? sink.owner = some r ∧ ReflTransGen w.forest.Up sink.node r
  root : ∃ r, w.rootOf? i = some r ∧ r ∈ w.forest.children sink.node

/-- The owner and the marker of a place are those that it is moored with. -/
theorem Mooring.spot (h : w.Mooring pl anchor sink) (hpl : w.IsPlaceOf P name pl) :
    w.layout.spot pl = some (P, anchor) := by
  cases h with
  | @sequence k y hy =>
    obtain ⟨y', hy', rfl, -⟩ := hpl
    obtain rfl := Option.some.inj (hy.symm.trans hy')
    exact spot_of_coll? hy
  | slot hx hc hn hview hsite =>
    obtain ⟨rfl, rfl⟩ := hpl
    change (w.slotMarker? _ _).map _ = _
    unfold slotMarker?
    rw [hx, Option.bind_some, hc, Option.bind_some, hn, Option.bind_some, hview, Option.bind_some, hsite]
    rfl

/-- In a world at rest instances perch where they are tethered. -/
theorem AtRest.perches (hw : w.AtRest) (h : w.Tethered i sink) : w.Perches i sink := by
  obtain ⟨a, anchor, ha, rfl, hmooring, hsurrounded⟩ := h.moored
  obtain ⟨name, x, c, v, hplace, -⟩ := hsurrounded.declared
  have hmem := (hw.orderly.linked.place_iff i _).1 (placeOf?_of_attachment? ha)
  have hspot := hmooring.spot hplace
  obtain ⟨P, m, hspot', hP⟩ := hw.orderly.linked.live_owner i _ hmem
  obtain ⟨rfl, rfl⟩ := Prod.mk.inj (Option.some.inj (hspot.symm.trans hspot'))
  obtain ⟨roots, hroots, r₀, e, s, t, hr₀, hup, hrow⟩ := hw.orderly.exists_row hP hspot
  -- the marker and the root stand on one list, and the marker is recorded with the element of the sink
  have he : e = a.sink.node := by
    have hanchor : anchor ∈ w.forest.children e := by
      rw [hrow]
      simp
    have hparent := hw.orderly.linked.tidy.parent_of_mem _ _ hanchor
    rw [Forest.parent?_eq, Option.filter_eq_some_iff] at hparent
    exact hsurrounded.parent e hparent.1
  subst he
  obtain ⟨r, hr, hroot⟩ : ∃ r ∈ roots, some r = w.rootOf? i :=
    List.mem_map.1 (hroots ▸ List.mem_map_of_mem hmem)
  exact ⟨h, ⟨r₀, hr₀, hup⟩, r, hroot.symm, by rw [hrow]; simp [hr]⟩

/-! ## With other listeners -/

namespace Resembles

variable (h : w.Resembles w')

include h

theorem rootOf? (i : InstanceId) : w'.rootOf? i = w.rootOf? i := by
  have hmap (w : World) : w.rootOf? i = (((w.inst? i).map (·.view)).getD none).map (·.root) := by
    unfold World.rootOf?
    cases w.inst? i <;> rfl
  rw [hmap, hmap, h.map_inst fun _ => rfl]

theorem classOf? (i : InstanceId) : w'.classOf? i = w.classOf? i := by
  have hmap (w : World) : w.classOf? i = ((w.inst? i).map (·.classId)).bind w.class? := by
    unfold World.classOf?
    cases w.inst? i <;> rfl
  rw [hmap, hmap, h.map_inst fun _ => rfl, funext h.class?]

theorem attachedUnder : w'.AttachedUnder i P ↔ w.AttachedUnder i P := by
  unfold AttachedUnder placeOf?
  simp only [h.attachment?, h.coll?]

theorem grows : w.Grows w' where
  cls id c hc := (h.class? id).trans hc
  inst i x hx := by
    obtain ⟨x', hx', hdeaf⟩ := h.exists_inst hx
    have hid : x'.deaf.classId = x.deaf.classId := by rw [hdeaf]
    have hview : x'.deaf.view = x.deaf.view := by rw [hdeaf]
    exact ⟨x', hx', hid, hview⟩
  coll k y hy := ⟨y, (h.coll? k).trans hy, rfl, rfl, rfl, rfl, rfl⟩

theorem putsOnlyRoots : w.PutsOnlyRoots w' := .of_sameLinks h.rootOf? (h.forest ▸ .rfl)

theorem tethered (ht : w.Tethered i sink) : w'.Tethered i sink where
  under := h.attachedUnder.2 ht.under
  moored := by
    obtain ⟨a, anchor, ha, hsink, hmooring, hsurrounded⟩ := ht.moored
    exact ⟨a, anchor, (h.attachment? i).trans ha, hsink, hmooring.grows h.grows,
      hsurrounded.later h.grows h.putsOnlyRoots⟩

theorem perches (hp : w.Perches i sink) : w'.Perches i sink where
  toTethered := h.tethered hp.toTethered
  view := by
    rw [h.rootOf?, h.forest]
    exact hp.view
  root := by
    rw [h.rootOf?, h.forest]
    exact hp.root

end Resembles

/-! ## On the way of an event -/

/-- What happens at one dispatch on the way of an event. It is on the instance that the event started from, or on one
that this is attached under. Listeners have heard it; unless one of them has stopped it, it has gone to the handler for
the event, under its name in lower case, that is kept by the sink of the element around the place of the instance, and
the steps of this handler have been taken up to the first method that answered false. -/
structure Bubbles (w : World) (bound : Nat) (data : Value) (X : InstanceId) (leg : Leg) (inner : Trail) : Prop where
  reached : ReflTransGen w.AttachedUnder X leg.self
  hears : w.Hears bound data leg
  sound : leg.Sound inner
  taken : ∀ sink handler, leg.taken = some (sink, handler) →
    w.Tethered leg.self sink ∧ TransGen w.AttachedUnder X sink.owner

/-- A dispatch on an instance stops, as long as calls may be nested as deeply as there are instances, one above the
other. Afterwards only the log and what is kept hold of are different. What happens on the way is what `Bubbles`
says. -/
def Abates (w : World) (bound : Nat) (data : Value) (X : InstanceId) (name : String) : Prop :=
  ∃ leg inner w', w.Notes w' ∧ leg.self = X ∧ leg.name = name ∧
    (∀ depth, w.instances.size + bound < depth →
      Run.dispatchEvent (.ofDepth depth) X name data w = (.ok (), w') ∧
      Run.traced depth X name data w = (.ok (leg, inner), w')) ∧
    ∀ l ∈ (leg, inner) :: inner.legs, w.Bubbles bound data X l.1 l.2

/-- A world with nothing to let go of, in which instances are tethered. -/
structure Roosts (w : World) : Prop where
  still : w.settle = w
  recorded : ∀ i, w.isAlive i = true → ∃ x c, w.inst? i = some x ∧ w.class? x.classId = some c
  parsed : ∀ id c, w.class? id = some c → c.descriptor.Parsed
  tethered : ∀ i a, w.attachment? i = some a → w.Tethered i a.sink

theorem taker?_eq_some {event : String} {handler : Handler} (h : w.taker? i event = some (sink, handler)) :
    ∃ a, w.attachment? i = some a ∧ a.sink = sink ∧ w.isAlive sink.owner = true ∧
      sink.handlers.get? event = some handler := by
  obtain ⟨a, ha, h⟩ := Option.bind_eq_some_iff.1 h
  split at h
  · next howner =>
    obtain ⟨handler', hget, hpair⟩ := Option.map_eq_some_iff.1 h
    obtain ⟨rfl, rfl⟩ := Prod.mk.inj hpair
    exact ⟨a, ha, rfl, howner, hget⟩
  · cases h

namespace Roosts

/-- Elementary changes that fasten lead from a fresh start to worlds in which instances are tethered. -/
theorem of_stepsBy (h : w₀.Fresh) (hsteps : StepsBy FastStep w₀ w) (hstill : w.settle = w) : w.Roosts where
  still := hstill
  recorded i hi := by
    obtain ⟨x, hx⟩ := (knows_of_isAlive hi).exists_inst
    obtain ⟨c, hc, -⟩ := (hsteps.sound h.sound).inst i x hx
    exact ⟨x, c, hx, hc⟩
  parsed id c hc := (hsteps.sound h.sound).compiled.parsed hc
  tethered i a ha := (hsteps.fastened h.fastened).tethered (hsteps.steps.moored h.sound h.moored) ha

theorem resembles (hw : w.Roosts) (h : w.Resembles w') : w'.Roosts where
  still := h.settle hw.still
  recorded i hi := by
    obtain ⟨x, c, hx, hc⟩ := hw.recorded i (h.isAlive i ▸ hi)
    obtain ⟨x', hx', hid, -⟩ := h.grows.inst i x hx
    exact ⟨x', c, hx', hid ▸ h.grows.cls _ c hc⟩
  parsed id c hc := hw.parsed id c ((h.class? id).symm.trans hc)
  tethered i a ha := h.tethered (hw.tethered i a ((h.attachment? i).symm.trans ha))

variable (hw : w.Roosts)

include hw

theorem under_of_climbs (h : w.Climbs i P) : w.AttachedUnder i P := by
  obtain ⟨a, ha, rfl, -⟩ := h
  exact (hw.tethered i a ha).under

/-- Where children are younger than those that they are attached under, nobody is attached under itself. -/
theorem acyclic_of_younger (h : ((List.range w.instances.size).all fun n =>
    (w.attachment? ⟨n⟩).all fun a => decide (a.sink.owner.index < n)) = true) (i : InstanceId) :
    ¬ TransGen w.AttachedUnder i i := by
  have hyounger {j P : InstanceId} (hP : w.AttachedUnder j P) : P.index < j.index := by
    obtain ⟨a, ha⟩ : ∃ a, w.attachment? j = some a := by
      rcases hP with ⟨_, hpl⟩ | ⟨_, _, hpl, -⟩
      all_goals
        obtain ⟨a, ha, -⟩ := Option.map_eq_some_iff.1 hpl
        exact ⟨a, ha⟩
    obtain ⟨x, hx, -⟩ := attachment?_eq_some.1 ha
    have hj := List.all_eq_true.1 h j.index (List.mem_range.2 (index_lt_of_inst? hx))
    rw [show (⟨j.index⟩ : InstanceId) = j from rfl, ha] at hj
    rw [(hw.tethered j a ha).owner_eq hP]
    exact of_decide_eq_true hj
  have hless {j P : InstanceId} (hP : TransGen w.AttachedUnder j P) : P.index < j.index := by
    induction hP with
    | single hP => exact hyounger hP
    | tail _ hP ih => exact Nat.lt_trans (hyounger hP) ih
  exact fun hi => Nat.lt_irrefl _ (hless hi)

/-- The handlers that take events call methods of the class. -/
theorem calls_methods {event : String} {handler : Handler} (h : w.taker? i event = some (sink, handler)) {c : Class}
    (hc : w.classOf? sink.owner = some c) {m : String} (hm : .call m ∈ handler.steps) :
    c.descriptor.methods.contains m = true := by
  obtain ⟨a, ha, rfl, -, hget⟩ := taker?_eq_some h
  obtain ⟨_, anchor, -, -, -, hsurrounded⟩ := (hw.tethered i a ha).moored
  obtain ⟨name, x, d, v, -, hx, hd, hv, hdeclared⟩ := hsurrounded.declared
  obtain ⟨x', hx', hclass⟩ := Option.bind_eq_some_iff.1 hc
  obtain rfl := Option.some.inj (hx.symm.trans hx')
  obtain rfl := Option.some.inj (hd.symm.trans hclass)
  have huses : d.descriptor.uses = v.uses := by
    unfold Descriptor.uses
    rw [hv]
    rfl
  refine (hw.parsed _ d hd).spec.2.1.handlers handler ?_ m hm
  rw [huses]
  exact hdeclared.mem_handlers hget

/-- Where nobody above is attached under itself, a dispatch on an instance stops, and bubbles on its way. -/
theorem abates (hhushed : w.Hushed bound data) (hX : w.isAlive X = true)
    (hno : ∀ P, ReflTransGen w.AttachedUnder X P → ¬ TransGen w.AttachedUnder P P) (name : String) :
    w.Abates bound data X name := by
  have hclear (j : InstanceId) (hj : ReflTransGen w.Climbs X j) : ¬ TransGen w.Climbs j j := fun hcircle =>
    hno j (ReflTransGen.mono (fun _ _ => hw.under_of_climbs) _ _ hj)
      (TransGen.mono (fun _ _ => hw.under_of_climbs) _ _ hcircle)
  obtain ⟨⟨leg, inner⟩, hrun, hlegs⟩ := exists_trail hw.still hhushed hw.recorded
    (fun _ _ _ _ h _ hc _ hm => hw.calls_methods h hc hm) hX hclear name
  obtain ⟨w', hnotes, hrun⟩ := hrun w .rfl
  have htraced (depth : Nat) (hdepth : w.instances.size + bound < depth) :
      Run.traced depth X name data w = (.ok (leg, inner), w') := by
    obtain ⟨d, rfl⟩ : ∃ d, depth = d + 1 := ⟨depth - 1, by omega⟩
    have hle := w.card_above_le X
    exact hrun d (by omega)
  obtain ⟨hself, hname, hsound⟩ := Run.sound_of_traced (htraced _ (Nat.lt_succ_self _))
  refine ⟨leg, inner, w', hnotes, hself, hname, fun depth hdepth => ⟨?_, htraced depth hdepth⟩, fun l hl => ?_⟩
  · rw [← Run.discard_traced, Run.discard_at, htraced depth hdepth]
    rfl
  · obtain ⟨hears, hclimbs⟩ := hlegs l hl
    have hreached : ReflTransGen w.AttachedUnder X l.1.self :=
      ReflTransGen.mono (fun _ _ => hw.under_of_climbs) _ _ hclimbs
    refine ⟨hreached, hears, hsound l hl, fun sink handler htaken => ?_⟩
    have hgone : l.1.prevented = false := by
      cases hprevented : l.1.prevented with
      | false => rfl
      | true => cases htaken.symm.trans ((hsound l hl).prevented hprevented)
    obtain ⟨a, ha, rfl, -⟩ := taker?_eq_some ((hears.taken hgone).symm.trans htaken)
    exact ⟨hw.tethered _ a ha, .tail' hreached (hw.tethered _ a ha).under⟩

end Roosts

theorem Idle.roosts_of_acts (h : w₀.Idle) (hstill : w₀.settle = w₀) (hacts : ReflTransGen Acts w₀ w) : w.Roosts :=
  .of_stepsBy h.toFresh (h.stepsBy_of_acts hacts) (h.still_of_acts hstill hacts)

end World

namespace Session

/-- Each command of a session ends by letting go. -/
theorem Reached.still {s : Session} (hs : s.Reached) : s.world.settle = s.world := by
  have hscope {α : Type} (m : Run α) (w : World) : (Run.inScope m w).2.settle = (Run.inScope m w).2 := by
    rw [Run.inScope_apply]
    exact World.settle_settle _
  cases hs with
  | start watched => rfl
  | step hs c => exact hscope (Run.perform callbacks none c) _

theorem Reached.roosts {s : Session} (hs : s.Reached) : s.world.Roosts :=
  .of_stepsBy ⟨.empty, rfl, rfl⟩ hs.stepsBy hs.still

end Session

namespace World

variable {w : World}

/-- A fresh start is one with one more class, if this is plain as well. -/
theorem Idle.compileClass {space : NamespaceId} {behaviors : Behaviors} {pending : PendingClass} (h : w.Idle)
    (hroot : pending.header.parent = none)
    (htest : ((w.space? space).isSome && (Run.compileClass space behaviors pending w).1.isOk &&
      (Run.compileClass space behaviors pending w).2.classes.toList.all fun c =>
        c.constructors.isEmpty && c.factory.isNone) = true) :
    (Run.compileClass space behaviors pending w).2.Idle := by
  obtain ⟨htest, hplain⟩ := Bool.and_eq_true_iff.1 htest
  obtain ⟨hspace, hok⟩ := Bool.and_eq_true_iff.1 htest
  obtain ⟨ns, hns⟩ := Option.isSome_iff_exists.1 hspace
  have hrun := Run.eq_ok_of_isOk hok
  have hparent : Run.parentOf space pending.header w = (.ok none, w) := by
    unfold Run.parentOf
    rw [hroot]
    rfl
  have hcompiled := Run.compiled_compileClass h.compiled hns hparent hrun
  obtain ⟨c, hc⟩ : ∃ c, (Run.compileClass space behaviors pending w).2 = w.withClass space c := by
    rw [Run.compileClass_apply hns hparent] at hrun ⊢
    cases hresult : pending.compiled? space behaviors ns none with
    | error e =>
      rw [hresult] at hrun
      cases hrun
    | ok c => exact ⟨c, rfl⟩
  refine ⟨⟨hcompiled, ?_, ?_⟩, plainClasses_of_all hplain, ?_, ?_, fun n ms hms => ?_⟩
  · exact (congrArg World.instances hc).trans h.instances
  · exact (congrArg World.collections hc).trans h.collections
  · rw [hc]
    exact h.tidy
  · rw [hc]
    exact h.unheld
  · rw [hc] at hms
    by_cases hn : space = n
    · subst hn
      unfold withClass at hms
      rw [space?_modifySpace_self] at hms
      obtain ⟨ns', hns', rfl⟩ := Option.map_eq_some_iff.1 hms
      exact h.noObjects space ns' hns'
    · unfold withClass at hms
      rw [space?_modifySpace_of_ne _ _ hn] at hms
      exact h.noObjects n ms hms

end World

/-- A book. -/
def bookTemplate : Markup := .element (.html "template") [] false [.element (.html "b") [] false []]

/-- A shelf of books: when one of them is picked, it has been chosen. -/
def shelfTemplate : Markup :=
  .element (.html "template") [] false
    [.element (.html "section") [⟨.plain "childonPicked", "dispatch('Chosen')"⟩] false
      [.text "\x7b for Book of this.books \x7d"]]

/-- A room with a shelf, which notes what has been chosen, and then stops. -/
def roomTemplate : Markup :=
  .element (.html "template") [] false
    [.element (.html "div") [⟨.plain "childonchosen", "note(); stop(); note()"⟩] false
      [.text "\x7b Shelf this.shelf \x7d"]]

/-- The methods of the room: the second one answers false. -/
def roomBehavior : Host.Behavior := .mk [("note", [.log "chosen"]), ("stop", [.give (.bool false)])] none none

/-- A world with an empty namespace that is known by name. -/
def namedWorld : World := { Run.openWorld with registry := { namespaces := [("main", ⟨0⟩)] } }

/-- A world that knows the three classes. -/
def libraryWorld : World :=
  let w := (Run.compileClass ⟨0⟩ [] ⟨⟨"Book", false, none⟩, bookTemplate, []⟩ namedWorld).2
  let w := (Run.compileClass ⟨0⟩ [] ⟨⟨"Shelf", false, none⟩, shelfTemplate, ["Book"]⟩ w).2
  (Run.compileClass ⟨0⟩ [("Room", roomBehavior)] ⟨⟨"Room", false, none⟩, roomTemplate, ["Shelf"]⟩ w).2

/-- A program makes a room with two books on its shelf. -/
def library : World :=
  (Run.constructInstance (Callbacks.ofDepth 3) ⟨2⟩
    (some (.object [("shelf", .object [("books", .array [.object [], .object []])])])) libraryWorld).2

/-- Then somebody listens to the first book, and stops what is picked there. -/
def watchedLibrary : World := (Run.listen ⟨2⟩ .dispatch "picked" ⟨"picked", [.prevent]⟩ library).2

/-- There is a room, and a guest, who goes there by himself when a document asks for him. -/
def visit : List Host.Command :=
  [.load "main" ("<template ooml-class='Room'><section childonping=\"note(); dispatch('ping')\">" ++
      "\x7b Element this.inner \x7d</section></template>") [("Room", .mk [("note", [.log "room"])] none none)],
    .namespaceOp "main" (.construct "Room" none (some "room")),
    .load "main" "<template ooml-class='Guest'><b></b></template><main><i ooml-instantiate='Guest guest'></i></main>"
      [("Guest", .mk [] (some [.command (.instanceOp none (.attach "room" "inner"))]) none)]]

def visited : Session := visit.foldl (fun s c => (s.step c).2) {}

theorem reached_visited : visited.Reached := .step (.step (.step (.start []) _) _) _

namespace World

variable {w : World} {X : InstanceId}

theorem idle_namedWorld : namedWorld.Idle where
  toFresh := ⟨.empty, rfl, rfl⟩
  plain := plainClasses_of_all rfl
  tidy := Forest.tidy_empty
  unheld := rfl
  noObjects n ns hns := by
    obtain ⟨hlt, hget⟩ := Array.getElem?_eq_some_iff.1 hns
    obtain rfl : n = ⟨0⟩ := congrArg NamespaceId.mk (Nat.lt_one_iff.1 hlt)
    rw [← hget]
    rfl

theorem idle_libraryWorld : libraryWorld.Idle :=
  ((idle_namedWorld.compileClass rfl (by decide +kernel)).compileClass rfl (by decide +kernel)).compileClass rfl
    (by decide +kernel)

theorem still_libraryWorld : libraryWorld.settle = libraryWorld :=
  settle_eq_iff.2 (by decide +kernel)

theorem acts_library : ReflTransGen Acts libraryWorld library := by
  refine .single ?_
  unfold library
  rw [← Run.discard_apply]
  refine @Acts.does _ 3 (.construct ⟨2⟩ _) (.construct fun v hv => ?_)
  obtain rfl := Option.some.inj hv
  exact List.nil_subset _

/-- What has been dispatched on the way: on whom, under which name, whether a listener has stopped it, and who has
taken it. -/
def itinerary (out : Leg × Trail) : List (InstanceId × String × Bool × Option InstanceId) :=
  (out :: out.2.legs).map fun l => (l.1.self, l.1.name, l.1.prevented, l.1.taken.map (·.1.owner))

/-- An event without data goes a way, and so many entries are added to the log. -/
def Goes (w : World) (X : InstanceId) (name : String) (way : List (InstanceId × String × Bool × Option InstanceId))
    (entries : Nat) : Prop :=
  ∃ leg inner w',
    (∀ depth, w.instances.size < depth → Run.dispatchEvent (.ofDepth depth) X name .null w = (.ok (), w')) ∧
    itinerary (leg, inner) = way ∧ w'.log.length = w.log.length + entries ∧
    ∀ l ∈ (leg, inner) :: inner.legs, w.Bubbles 0 .null X l.1 l.2

theorem Abates.goes {name : String} {way : List (InstanceId × String × Bool × Option InstanceId)} {entries : Nat}
    (h : w.Abates 0 .null X name)
    (hway : (Run.traced (w.instances.size + 1) X name .null w).1.toOption.map itinerary = some way)
    (hlog : (Run.traced (w.instances.size + 1) X name .null w).2.log.length = w.log.length + entries) :
    w.Goes X name way entries := by
  obtain ⟨leg, inner, w', -, -, -, hrun, hlegs⟩ := h
  rw [(hrun _ (Nat.lt_succ_self _)).2] at hway hlog
  exact ⟨leg, inner, w', fun depth hdepth => (hrun depth hdepth).1, Option.some.inj hway, hlog, hlegs⟩

/-- What can be computed of the visit. -/
theorem visited_tests :
    (visited.world.classes.toList.all fun c => c.descriptor.methods.all fun e => e.2.all Host.Action.isRemark) = true ∧
    (visited.world.instances.toList.all fun x => x.dispatchListeners.all fun e => e.2.all fun l =>
      l.script.all Host.Action.isRemark) = true ∧
    visited.world.isAlive ⟨1⟩ = true ∧
    ((List.range visited.world.instances.size).all fun n =>
      (visited.world.attachment? ⟨n⟩).all fun a => decide (a.sink.owner.index < n)) = true ∧
    (Run.traced (visited.world.instances.size + 1) ⟨1⟩ "Ping" .null visited.world).1.toOption.map itinerary =
      some [(⟨1⟩, "Ping", false, some ⟨0⟩), (⟨0⟩, "ping", false, none)] ∧
    (Run.traced (visited.world.instances.size + 1) ⟨1⟩ "Ping" .null visited.world).2.log.length =
      visited.world.log.length + 1 := by
  decide +kernel

end World

end ReactiveView
