import ReactiveView.Proofs.View.Repainting

/-!
# Independent writes commute

Two properties that are not bound are written one after the other, with nobody listening. It does not matter which
comes first, although the two writes recompute different bound properties, and some of them twice.

The values agree since the bound properties that either write reaches follow their bindings in the end, and the
other values are those that were written or had been there: values are determined by what they are outside some
bound properties that follow (`Class.Valid.valueIn_eq_of_follow`). What is shown agrees since both runs paint the
same places, where they show the same values in the end (`World.Repaints.matches_of_presents`). Only the order in
which formatted attributes wait may be another one.

`World.writes_commute` is the statement for every world that is reached.
-/

set_option autoImplicit false

namespace ReactiveView

/-- Along an order a statement about names follows from the statement about all that is read before. -/
theorem Graph.Topological.induction {reads : String → List String} {order : List String}
    (ht : Graph.Topological reads order) {P : String → Prop}
    (hstep : ∀ m ∈ order, (∀ r ∈ reads m, r ∈ order → P r) → P m) : ∀ m ∈ order, P m := by
  have hprefix (pre post : List String) (hsplit : order = pre ++ post) : ∀ m ∈ pre, P m := by
    induction pre using List.reverseRecOn generalizing post with
    | nil => exact fun m hm => absurd hm List.not_mem_nil
    | append_singleton pre n ih =>
      rw [List.append_assoc] at hsplit
      have hbefore := ih _ hsplit
      intro m hm
      rcases List.mem_append.1 hm with hm | hm
      · exact hbefore m hm
      · obtain rfl := List.mem_singleton.1 hm
        refine hstep m ?_ fun r hr horder => hbefore r (ht.before pre m post hsplit r hr horder)
        rw [hsplit]
        simp
  exact hprefix order [] (List.append_nil _).symm

/-! ## Values -/

namespace Class

variable {c : Class} {vals a b : List Value} {p q m : String} {v u : Value}

namespace Valid

variable (hc : c.Valid)

include hc

/-- Values that agree outside some bound properties, and follow there on both sides, agree. -/
theorem valueIn_eq_of_follow {P : String → Prop} (hrest : ∀ m, ¬ P m → c.valueIn a m = c.valueIn b m)
    (hbound : ∀ m, P m → m ∈ c.graph.order ∧ c.Follows a m ∧ c.Follows b m) (m : String) :
    c.valueIn a m = c.valueIn b m := by
  have hall : ∀ m ∈ c.graph.order, c.valueIn a m = c.valueIn b m := by
    refine hc.topological.induction fun m hm ih => ?_
    by_cases hmP : P m
    · obtain ⟨-, ha, hb⟩ := hbound m hmP
      obtain ⟨f, hf⟩ := hc.bindingOf?_of_mem_order hm
      -- what a binding reads is bound itself, and agrees already, or agrees anyway
      have hreads (r : String) (hr : r ∈ c.readsOf m) : c.valueIn a r = c.valueIn b r := by
        by_cases hrP : P r
        · exact ih r hr (hbound r hrP).1
        · exact hrest r hrP
      rw [ha f hf, hb f hf, hc.render_congr hf hreads]
    · exact hrest m hmP
  by_cases hmP : P m
  · exact hall m (hbound m hmP).1
  · exact hrest m hmP

/-- Lists of values are the same when they agree in all properties. -/
theorem ext_valueIn (ha : a.length = c.descriptor.properties.length) (hlen : b.length = a.length)
    (h : ∀ m, c.valueIn a m = c.valueIn b m) : a = b := by
  refine List.ext_getElem? fun n => ?_
  cases hp : c.descriptor.properties[n]? with
  | none =>
    have hle := ha ▸ List.getElem?_eq_none_iff.1 hp
    rw [List.getElem?_eq_none hle, List.getElem?_eq_none (hlen ▸ hle)]
  | some p =>
    have hvalue := h p.name
    unfold valueIn at hvalue
    rw [hc.descriptor.propertyIndex?_name hp] at hvalue
    exact hvalue

/-- What is not bound no write reaches. -/
theorem not_mem_affected (hp : c.bindingOf? p = none) (q : String) : p ∉ c.affected q := by
  intro hm
  obtain ⟨f, hf⟩ := hc.bindingOf?_of_mem_order (Graph.mem_order_of_mem_downstream _ _ _ _ hm)
  rw [hp] at hf
  cases hf

/-- After two writes, what one of them reaches follows. -/
theorem follows_written_twice (hlen : vals.length = c.descriptor.properties.length)
    (hq : c.bindingOf? q = none) (hm : m ∈ c.affected p ∨ m ∈ c.affected q) :
    c.Follows (c.written (c.written vals p v) q u) m := by
  refine hc.follows_written ((length_written _ _ _).trans hlen) ?_
  by_cases hmq : m ∈ c.affected q
  · exact Or.inl hmq
  · have hmp := hm.resolve_right hmq
    refine Or.inr ⟨?_, hc.follows_written hlen (Or.inl hmp)⟩
    rintro rfl
    exact hc.not_mem_affected hq p hmp

/-- Writes of two properties that are not bound give the same values in either order. -/
theorem written_comm (hlen : vals.length = c.descriptor.properties.length)
    (hp : c.bindingOf? p = none) (hq : c.bindingOf? q = none) (hne : p ≠ q)
    (hpsome : (c.valueIn vals p).isSome = true) (hqsome : (c.valueIn vals q).isSome = true) :
    c.written (c.written vals p v) q u = c.written (c.written vals q u) p v := by
  -- the value that is written first is still there after the second write
  have hfirst {p q : String} {v u : Value} (hp : c.bindingOf? p = none) (hne : p ≠ q)
      (hsome : (c.valueIn vals p).isSome = true) : c.valueIn (c.written (c.written vals p v) q u) p = some v := by
    rw [valueIn_written_of_not_mem hne (hc.not_mem_affected hp q), hc.valueIn_written_self hsome]
  have hsecond {p q : String} {v u : Value} (hq : c.bindingOf? q = none) (hne : p ≠ q)
      (hsome : (c.valueIn vals q).isSome = true) : c.valueIn (c.written (c.written vals p v) q u) q = some u := by
    refine hc.valueIn_written_self ?_
    rw [valueIn_written_of_not_mem hne.symm (hc.not_mem_affected hq p)]
    exact hsome
  refine hc.ext_valueIn (by rw [length_written, length_written, hlen]) (by simp only [length_written])
    (hc.valueIn_eq_of_follow (P := fun m => m ∈ c.affected p ∨ m ∈ c.affected q) (fun m hm => ?_) fun m hm => ?_)
  · obtain ⟨hmp, hmq⟩ := not_or.1 hm
    by_cases hp' : m = p
    · subst hp'
      rw [hfirst hp hne hpsome, hsecond hp hne.symm hpsome]
    · by_cases hq' : m = q
      · subst hq'
        rw [hsecond hq hne hqsome, hfirst hq hne.symm hqsome]
      · rw [valueIn_written_of_not_mem hq' hmq, valueIn_written_of_not_mem hp' hmp,
          valueIn_written_of_not_mem hp' hmp, valueIn_written_of_not_mem hq' hmq]
  · refine ⟨?_, hc.follows_written_twice hlen hq hm, hc.follows_written_twice hlen hp hm.symm⟩
    exact hm.elim (Graph.mem_order_of_mem_downstream _ _ _ _) (Graph.mem_order_of_mem_downstream _ _ _ _)

end Valid

end Class

/-! ## Queues -/

namespace Screen

variable {s s' s₁ s₂ : Screen} {q : QueueId} {P : BoundNode → Prop} {home : BindingId → QueueId}

/-- What waits after some places have been painted had been waiting, or is one of the places. -/
theorem Repaints.waiting?_self (h : s.Repaints s' q P) : ∃ added : List BindingId,
    (∀ b ∈ added, P (.attr b)) ∧ s'.waiting? q = (s.waiting? q).map (· ++ added) := by
  unfold waiting?
  rcases h.joins with heq | ⟨-, y, added, hy, hadded, hy'⟩
  · exact ⟨[], fun b hb => absurd hb List.not_mem_nil, by rw [heq]; simp; rfl⟩
  · exact ⟨added, hadded, by rw [hy, hy']; rfl⟩

/-- A place at home in the queue waits there. -/
theorem Repaints.waits (h : s.Repaints s' q P) (hs' : s'.Queued home) {b : BindingId} (hb : P (.attr b))
    (hhome : home b = q) (hsome : (s'.binding? b).isSome = true) : ∃ bs, s'.waiting? q = some bs ∧ b ∈ bs := by
  obtain ⟨x, hx⟩ := Option.isSome_iff_exists.1 hsome
  obtain ⟨parts, hparts⟩ := h.filled b hb
  have hpending : x.pending = true := by
    rw [hx] at hparts
    obtain ⟨y, -, rfl⟩ := Option.map_eq_some_iff.1 hparts.symm
    rfl
  rw [← hhome]
  exact (hs'.pending_iff b x hx).1 hpending

/-- When the same places have been painted in two ways the same attributes wait. -/
theorem Repaints.perm_waiting? (h₁ : s.Repaints s₁ q P) (h₂ : s.Repaints s₂ q P)
    (hnodup₁ : ∀ bs, s₁.waiting? q = some bs → bs.Nodup) (hnodup₂ : ∀ bs, s₂.waiting? q = some bs → bs.Nodup)
    (hwaits₁ : ∀ b, P (.attr b) → ∃ bs, s₁.waiting? q = some bs ∧ b ∈ bs)
    (hwaits₂ : ∀ b, P (.attr b) → ∃ bs, s₂.waiting? q = some bs ∧ b ∈ bs) (q' : QueueId) :
    Option.Rel List.Perm (s₁.waiting? q') (s₂.waiting? q') := by
  by_cases hq : q' = q
  · subst hq
    obtain ⟨added₁, hadded₁, heq₁⟩ := h₁.waiting?_self
    obtain ⟨added₂, hadded₂, heq₂⟩ := h₂.waiting?_self
    cases hold : s.waiting? q' with
    | none =>
      rw [heq₁, heq₂, hold]
      exact .none
    | some old =>
      rw [hold, Option.map_some] at heq₁ heq₂
      rw [heq₁] at hnodup₁ hwaits₁ ⊢
      rw [heq₂] at hnodup₂ hwaits₂ ⊢
      refine .some ((List.perm_ext_iff_of_nodup (hnodup₁ _ (.refl _)) (hnodup₂ _ (.refl _))).2 fun b => ?_)
      simp only [Option.some.injEq, exists_eq_left'] at hwaits₁ hwaits₂
      constructor
      · exact fun hb => (List.mem_append.1 hb).elim (List.mem_append_left _) fun hb => hwaits₂ b (hadded₁ b hb)
      · exact fun hb => (List.mem_append.1 hb).elim (List.mem_append_left _) fun hb => hwaits₁ b (hadded₂ b hb)
  · have hapart {s' : Screen} (h : s.Repaints s' q P) : s'.waiting? q' = s.waiting? q' := by
      unfold waiting?
      rw [h.apart q' hq]
    rw [hapart h₁, hapart h₂]
    cases s.waiting? q' with
    | none => exact .none
    | some bs => exact .some (.refl bs)

end Screen

/-! ## Worlds -/

namespace World

variable {w w₁ w₂ w₀ : World} {i : InstanceId} {x : Instance} {c : Class}

/-- Two worlds are alike, but for the order in which formatted attributes wait in the queues: the same instances
with the same values, the same nodes with the same texts and attributes, and the same formatted attributes with
the same parts, of which the same are pending. -/
structure Matches (w w' : World) : Prop where
  inst? : ∀ j, w.inst? j = w'.inst? j
  links : w.forest.SameLinks w'.forest
  kind? : ∀ n, w.forest.kind? n = w'.forest.kind? n
  binding? : ∀ b, w.screen.binding? b = w'.screen.binding? b
  waiting? : ∀ q, Option.Rel List.Perm (w.screen.waiting? q) (w'.screen.waiting? q)
  clock : w.screen.clock = w'.screen.clock
  classes : w.classes = w'.classes
  collections : w.collections = w'.collections
  spaces : w.spaces = w'.spaces
  registry : w.registry = w'.registry
  pins : w.pins = w'.pins
  log : w.log = w'.log

/-- Two runs that have painted the same places of an instance, and have given it the same values, end alike. -/
theorem Repaints.matches_of_presents {vals : List Value} {P : BoundNode → Prop} {g : Wiring} {view : View}
    (hP : ∀ place, P place → ∃ name, g.Lists (.property name) place)
    (h₁ : w.Repaints w₁ i c.queue x vals P) (h₂ : w.Repaints w₂ i c.queue x vals P)
    {home₁ home₂ : BindingId → QueueId} (hqueued₁ : w₁.screen.Queued home₁) (hqueued₂ : w₂.screen.Queued home₂)
    (hdisplays₁ : w₁.Displays { x with values := vals } c view g home₁)
    (hdisplays₂ : w₂.Displays { x with values := vals } c view g home₂) : w₁.Matches w₂ where
  inst? j := by
    by_cases hj : j = i
    · rw [hj, h₁.self, h₂.self]
    · rw [h₁.others j hj, h₂.others j hj]
  links := by
    have hl₁ := h₁.screen.links
    have hl₂ := h₂.screen.links
    exact ⟨hl₂.size.trans hl₁.size.symm, fun n => (hl₂.children n).trans (hl₁.children n).symm,
      fun n => (hl₂.recorded? n).trans (hl₁.recorded? n).symm, fun n => (hl₂.isAlive n).trans (hl₁.isAlive n).symm⟩
  kind? n := by
    -- a node among the places shows the text of its source in both worlds
    have hplace (hn : P (.text n)) : w₁.forest.kind? n = w₂.forest.kind? n := by
      obtain ⟨name, ht⟩ := hP _ hn
      exact (hdisplays₁.shows.texts n _ ht).trans (hdisplays₂.shows.texts n _ ht).symm
    rcases h₁.screen.kind? n with heq₁ | ⟨hn, -⟩
    · rcases h₂.screen.kind? n with heq₂ | ⟨hn, -⟩
      · exact heq₁.trans heq₂.symm
      · exact hplace hn
    · exact hplace hn
  binding? b := by
    by_cases hb : P (.attr b)
    · obtain ⟨parts₁, hparts₁⟩ := h₁.screen.filled b hb
      obtain ⟨parts₂, hparts₂⟩ := h₂.screen.filled b hb
      obtain ⟨name, f, hf, -⟩ := hP _ hb
      obtain ⟨y₁, hy₁, -, hfilled₁⟩ := hdisplays₁.shows.formats b f hf
      obtain ⟨y₂, hy₂, -, hfilled₂⟩ := hdisplays₂.shows.formats b f hf
      rw [hparts₁] at hy₁
      rw [hparts₂] at hy₂
      obtain ⟨y, hy, rfl⟩ := Option.map_eq_some_iff.1 hy₁
      obtain ⟨z, hz, rfl⟩ := Option.map_eq_some_iff.1 hy₂
      have hparts : parts₁ = parts₂ := hfilled₁.unique hfilled₂
      rw [hparts₁, hparts₂, hparts]
    · rw [h₁.screen.kept b hb, h₂.screen.kept b hb]
  waiting? := by
    have hwaits {w' : World} {home : BindingId → QueueId} (h : w.Repaints w' i c.queue x vals P)
        (hqueued : w'.screen.Queued home) (hdisplays : w'.Displays { x with values := vals } c view g home)
        (b : BindingId) (hb : P (.attr b)) : ∃ bs, w'.screen.waiting? c.queue = some bs ∧ b ∈ bs := by
      obtain ⟨name, f, hf, -⟩ := hP _ hb
      obtain ⟨y, hy, -⟩ := hdisplays.shows.formats b f hf
      exact h.screen.waits hqueued hb (hdisplays.home b f hf) (by rw [hy]; rfl)
    exact h₁.screen.perm_waiting? h₂.screen (hqueued₁.nodup _) (hqueued₂.nodup _) (hwaits h₁ hqueued₁ hdisplays₁)
      (hwaits h₂ hqueued₂ hdisplays₂)
  clock := h₁.screen.clock.trans h₂.screen.clock.symm
  classes := h₁.classes.trans h₂.classes.symm
  collections := h₁.collections.trans h₂.collections.symm
  spaces := h₁.spaces.trans h₂.spaces.symm
  registry := h₁.registry.trans h₂.registry.symm
  pins := h₁.pins.trans h₂.pins.symm
  log := h₁.log.trans h₂.log.symm

/-- Two writes in a row paint the places of both, and give the instance the values of both. -/
theorem Untold.repaints_twice {view : View} {g : Wiring} (h : w.Untold i c x view g) (hc : c.Valid) {n k : Nat}
    {p q : PropertyDescriptor} (hp : c.descriptor.properties[n]? = some p) (hq : c.descriptor.properties[k]? = some q)
    {pt qt : Option (List PrimitiveType)} (hpk : p.kind = .primitive pt) (hqk : q.kind = .primitive qt) {v u : Value}
    (hv : checkPrimitive p.name pt v = .ok ()) (hu : checkPrimitive q.name qt u = .ok ()) (cb : Callbacks) :
    ∃ w', (do Run.setProperty cb i p.name v; Run.setProperty cb i q.name u : Run Unit) w = (.ok (), w') ∧
      w.Repaints w' i c.queue x (c.written (c.written x.values p.name v) q.name u) fun place =>
        g.ListsAny (p.name :: c.affected p.name) place ∨ g.ListsAny (q.name :: c.affected q.name) place := by
  obtain ⟨w₁, hfirst, hr₁⟩ := Run.repaints_setProperty cb h hc hp hpk hv
  obtain ⟨w₂, hsecond, hr₂⟩ := Run.repaints_setProperty cb (h.repaints hr₁ (Class.length_written _ _ _)) hc hq hqk hu
  refine ⟨w₂, ?_, hr₁.trans hr₂⟩
  rw [Run.bind_of_ok hfirst]
  exact hsecond

/-- Two writes in a row are elementary changes. -/
theorem steps_of_setProperty_twice (hw : w.Sound) {m k : String} {a b : Value} {depth : Nat} {w' : World}
    (hrun : (do Run.setProperty (Callbacks.ofDepth depth) i m a
                Run.setProperty (Callbacks.ofDepth depth) i k b : Run Unit) w = (.ok (), w')) : w.Steps w' := by
  have hsteady := Callbacks.steadyBy_ofDepth (S := Step) depth
  have hproceeds := ((Run.proceeds_setProperty hsteady i m a).bind fun _ => Run.proceeds_setProperty hsteady i k b) w hw
  rw [hrun] at hproceeds
  exact hproceeds

/-- An instance goes on to be presented where it was, with the values that it has been given. -/
theorem Presents.displays_of_repaints {g : InstanceId → Wiring} {home : BindingId → QueueId} (h : w.Presents g home)
    (hw : w.Sound) {view : View} (hu : w.Untold i c x view (g i)) (hsteps : w.Steps w₁) {q : QueueId}
    {vals : List Value} {P : BoundNode → Prop} (hr : w.Repaints w₁ i q x vals P) :
    ∃ home₁, w₁.screen.Queued home₁ ∧ w₁.Displays { x with values := vals } c view (g i) home₁ := by
  obtain ⟨g₁, home₁, hpresents, hsame⟩ := hsteps.presents_same hw h
  obtain ⟨c₁, view₁, hc₁, hview₁, hdisplays⟩ := hpresents.view i _ hr.self
  obtain rfl := Option.some.inj (hu.hasView.symm.trans hview₁)
  have hclass := hu.ofClass
  unfold class? at hclass hc₁
  rw [hr.classes] at hc₁
  obtain rfl := Option.some.inj (hclass.symm.trans hc₁)
  rw [hsame i x hu.found] at hdisplays
  exact ⟨home₁, hpresents.queued, hdisplays⟩

/-- Two writes in a row, in either order, of two primitive properties that are not bound and whose values nobody
listens to, end well, and end alike: with the same values of all properties, the same texts, the same formatted
attributes, and the same of them pending. This is so in every world that is reached after a fresh start, whatever
the bindings are, and whether or not bound properties have been overwritten before. -/
theorem writes_commute (h₀ : w₀.Unused) (hreach : w₀.Reaches w) (hx : w.inst? i = some x)
    (hc : w.class? x.classId = some c) (hlisteners : x.valueListeners = []) {n k : Nat} {p q : PropertyDescriptor}
    (hp : c.descriptor.properties[n]? = some p) (hq : c.descriptor.properties[k]? = some q) (hne : p.name ≠ q.name)
    (hpfree : p.binding = none) (hqfree : q.binding = none) {pt qt : Option (List PrimitiveType)}
    (hpk : p.kind = .primitive pt) (hqk : q.kind = .primitive qt) {v u : Value}
    (hv : checkPrimitive p.name pt v = .ok ()) (hu : checkPrimitive q.name qt u = .ok ()) (depth : Nat) :
    ∃ w₁ w₂,
      (do Run.setProperty (Callbacks.ofDepth depth) i p.name v
          Run.setProperty (Callbacks.ofDepth depth) i q.name u : Run Unit) w = (.ok (), w₁) ∧
      (do Run.setProperty (Callbacks.ofDepth depth) i q.name u
          Run.setProperty (Callbacks.ofDepth depth) i p.name v : Run Unit) w = (.ok (), w₂) ∧
      w₁.Matches w₂ := by
  have hw := hreach.sound h₀.sound
  have hvalid := hw.compiled.valid hc
  obtain ⟨g, home, hpresents⟩ := Steps.presents (hreach.steps h₀.sound) h₀.sound h₀.presents
  obtain ⟨view, huntold⟩ := hpresents.untold hw hx hc hlisteners
  obtain ⟨w₁, hrun₁, hr₁⟩ := huntold.repaints_twice hvalid hp hq hpk hqk hv hu (Callbacks.ofDepth depth)
  obtain ⟨w₂, hrun₂, hr₂⟩ := huntold.repaints_twice hvalid hq hp hqk hpk hu hv (Callbacks.ofDepth depth)
  refine ⟨w₁, w₂, hrun₁, hrun₂, ?_⟩
  -- the values of both runs are the same, and so are the places
  have hbinding {r : PropertyDescriptor} {m : Nat} (hr : c.descriptor.properties[m]? = some r)
      (hfree : r.binding = none) : c.bindingOf? r.name = none := by
    unfold Class.bindingOf?
    rw [hvalid.descriptor.property?_name (List.mem_of_getElem? hr), Option.bind_some, hfree]
  have hsome {r : PropertyDescriptor} {m : Nat} (hr : c.descriptor.properties[m]? = some r) :
      (c.valueIn x.values r.name).isSome = true :=
    Class.isSome_valueIn huntold.length (List.mem_of_getElem? hr)
  rw [← hvalid.written_comm huntold.length (hbinding hp hpfree) (hbinding hq hqfree) hne (hsome hp) (hsome hq)] at hr₂
  simp only [or_comm] at hr₂
  obtain ⟨home₁, hqueued₁, hdisplays₁⟩ := hpresents.displays_of_repaints hw huntold
    (steps_of_setProperty_twice hw hrun₁) hr₁
  obtain ⟨home₂, hqueued₂, hdisplays₂⟩ := hpresents.displays_of_repaints hw huntold
    (steps_of_setProperty_twice hw hrun₂) hr₂
  refine hr₁.matches_of_presents (fun place hplace => ?_) hr₂ hqueued₁ hqueued₂ hdisplays₁ hdisplays₂
  rcases hplace with ⟨m, -, hm⟩ | ⟨m, -, hm⟩
  · exact ⟨m, hm⟩
  · exact ⟨m, hm⟩

/-- The names of a badge can be written in either order. -/
theorem writes_commute_badge : ∃ w₁ w₂,
    (do Run.setProperty (Callbacks.ofDepth 2) ⟨0⟩ "first" (.text "Percy")
        Run.setProperty (Callbacks.ofDepth 2) ⟨0⟩ "last" (.text "Bysshe") : Run Unit) badges = (.ok (), w₁) ∧
    (do Run.setProperty (Callbacks.ofDepth 2) ⟨0⟩ "last" (.text "Bysshe")
        Run.setProperty (Callbacks.ofDepth 2) ⟨0⟩ "first" (.text "Percy") : Run Unit) badges = (.ok (), w₂) ∧
    w₁.Matches w₂ ∧
    (w₁.inst? ⟨0⟩).map (fun y => y.values.map Value.outputText) = some ["Percy", "Bysshe", "Percy Bysshe"] := by
  obtain ⟨x, c, p, q, hx, hc, hlisteners, hp, hq, hfirst, hlast, ⟨hpk, hpfree⟩, hqk, hqfree⟩ := exists_badge
  obtain ⟨w₁, w₂, hrun₁, hrun₂, hmatches⟩ := writes_commute unused_badgeWorld reaches_badges hx hc hlisteners hp hq
    (by rw [hfirst, hlast]; decide) hpfree hqfree hpk hqk (v := .text "Percy") (u := .text "Bysshe") rfl rfl 2
  rw [hfirst, hlast] at hrun₁ hrun₂
  have hafter : (((do Run.setProperty (Callbacks.ofDepth 2) ⟨0⟩ "first" (.text "Percy")
                      Run.setProperty (Callbacks.ofDepth 2) ⟨0⟩ "last" (.text "Bysshe") : Run Unit) badges).2.inst?
      ⟨0⟩).map (fun y => y.values.map Value.outputText) = some ["Percy", "Bysshe", "Percy Bysshe"] := by
    decide +kernel
  rw [hrun₁] at hafter
  exact ⟨w₁, w₂, hrun₁, hrun₂, hmatches, hafter⟩

end World

end ReactiveView
