import ReactiveView.Proofs.View.Queues

/-!
# Attributes with a single writer

An attribute of an element may be written from several sides: once for all when the element is made, by a
formatted attribute whenever its queue is flushed, and from outside. For those that have one writer only,
`Writers` says which it is, and a screen *obeys* when each of them reads what its writer has written last,
and no other formatted attribute writes there (`Screen.Obeys`).

Rendering, flushing and moving nodes keep this. An attribute that is set from outside stands as it was set,
or has lost its single writer (`Screen.Obeys.setAttr`), and so has one that gets a second formatted attribute
(`Screen.Obeys.addBinding`).
-/

set_option autoImplicit false

namespace ReactiveView

/-- Who writes an attribute of an element: nobody any more, so that it stays as it is, or a formatted
attribute. -/
inductive Writer where
  | still (v : Option String)
  | bound (b : BindingId)

/-- A text set from outside, where no formatted attribute writes. -/
def Writer.reset (text : String) : Option Writer → Option Writer
  | some (.still _) => some (.still (some text))
  | _ => none

theorem Writer.reset_cases (text : String) (o : Option Writer) :
    Writer.reset text o = none ∨
      Writer.reset text o = some (.still (some text)) ∧ ∃ u, o = some (.still u) := by
  rcases o with _ | v | b
  · exact Or.inl rfl
  · exact Or.inr ⟨rfl, v, rfl⟩
  · exact Or.inl rfl

/-- The writers of the attributes that have a single one. -/
abbrev Writers := NodeId → String → Option Writer

/-- Another writer for one attribute, or none. -/
def Writers.put (own : Writers) (n : NodeId) (t : String) (o : Option Writer) : Writers := fun m u =>
  if m = n ∧ u = t then o else own m u

theorem Writers.put_self (own : Writers) (n : NodeId) (t : String) (o : Option Writer) :
    own.put n t o n t = o := if_pos ⟨rfl, rfl⟩

theorem Writers.put_of_ne (own : Writers) {n m : NodeId} {t u : String} (o : Option Writer)
    (h : m ≠ n ∨ u ≠ t) : own.put n t o m u = own m u := if_neg (not_and_or.2 h)

/-- Where a formatted attribute stands, and what it has written. -/
def Binding.stand (x : Binding) : NodeId × QName × Option String := (x.owner, x.name, x.written)

namespace Screen

variable {s s' : Screen} {own : Writers} {n : NodeId} {t : String} {b : BindingId}

/-- Attributes with a single writer read what it has written last. -/
structure Obeys (s : Screen) (own : Writers) : Prop where
  element : ∀ n t r, own n t = some r → (s.forest.tag? n).isSome = true
  still : ∀ n t v, own n t = some (.still v) → s.forest.attr? n t = v
  bound : ∀ n t b, own n t = some (.bound b) → ∃ x, s.binding? b = some x ∧ x.owner = n ∧ x.name.tag = t ∧
    s.forest.attr? n t = x.written
  /-- No other formatted attribute writes there. -/
  lone : ∀ b x, s.binding? b = some x →
    own x.owner x.name.tag = none ∨ own x.owner x.name.tag = some (.bound b)
  owner : ∀ b x, s.binding? b = some x → x.owner.index < s.forest.size

theorem exists_of_stand {o o' : Option Binding} (h : o.map Binding.stand = o'.map Binding.stand) {x : Binding}
    (hx : o = some x) : ∃ y, o' = some y ∧ y.owner = x.owner ∧ y.name = x.name ∧ y.written = x.written := by
  subst hx
  obtain ⟨y, hy, hstand⟩ := Option.map_eq_some_iff.1 h.symm
  obtain ⟨ho, hrest⟩ := Prod.mk.inj hstand
  obtain ⟨hn, hw⟩ := Prod.mk.inj hrest
  exact ⟨y, hy, ho, hn, hw⟩

/-- Nothing is written while elements keep their attributes and formatted attributes what they have written. -/
theorem Obeys.congr (h : s.Obeys own) (hsize : s.forest.size ≤ s'.forest.size)
    (htag : ∀ n, (s.forest.tag? n).isSome = true → (s'.forest.tag? n).isSome = true)
    (hattr : ∀ n t, (s.forest.tag? n).isSome = true → s'.forest.attr? n t = s.forest.attr? n t)
    (hbind : ∀ b, (s'.binding? b).map Binding.stand = (s.binding? b).map Binding.stand) : s'.Obeys own where
  element n t r hr := htag n (h.element n t r hr)
  still n t v hv := (hattr n t (h.element n t _ hv)).trans (h.still n t v hv)
  bound n t b hb := by
    obtain ⟨x, hx, howner, hname, hwritten⟩ := h.bound n t b hb
    obtain ⟨y, hy, ho, hn, hw⟩ := exists_of_stand (hbind b).symm hx
    exact ⟨y, hy, ho.trans howner, hn ▸ hname, ((hattr n t (h.element n t _ hb)).trans hwritten).trans hw.symm⟩
  lone b x hx := by
    obtain ⟨y, hy, ho, hn, -⟩ := exists_of_stand (hbind b) hx
    exact ho ▸ hn ▸ h.lone b y hy
  owner b x hx := by
    obtain ⟨y, hy, ho, -⟩ := exists_of_stand (hbind b) hx
    exact Nat.lt_of_lt_of_le (ho ▸ h.owner b y hy) hsize

theorem Obeys.moves (h : s.Obeys own) (hf : s.forest.Moves s'.forest) (hb : s'.bindings = s.bindings) :
    s'.Obeys own := by
  refine h.congr ?_ (fun n hn => ?_) (fun n t hn => hf.attr? hn t) fun b => ?_
  · by_contra hlt
    have hlast := hf.recast.lt_size (n := ⟨s'.forest.size⟩) (Nat.not_le.1 hlt)
    exact Nat.lt_irrefl _ hlast
  · rw [hf.tag? hn]
    exact hn
  · unfold binding?
    rw [hb]

theorem Obeys.render (h : s.Obeys own) (q : QueueId) (places : NodeSet) (source : Source) (text : String) :
    (s.render q places source text).Obeys own := by
  refine h.congr (Nat.le_of_eq (sameLinks_render s q places source text).size.symm) (fun n hn => ?_)
    (fun n t _ => attr?_render s q places source text n t) fun b => ?_
  · rw [tag?_render]
    exact hn
  · rw [binding?_render, Option.map_map]
    congr 1
    funext x
    dsimp only [Function.comp_apply]
    split <;> rfl

/-! ## Writing -/

/-- An attribute is set from outside: it stands as it was set, if nobody writes it any more, or has lost its
single writer. -/
theorem Obeys.setAttr (h : s.Obeys own) {name : QName} {v : String} {o : Option Writer}
    (ho : o = none ∨ o = some (.still (some v)) ∧ ∃ u, own n name.tag = some (.still u)) :
    (s.mapForest fun f => f.setAttr n name v).Obeys (own.put n name.tag o) := by
  have hput {m : NodeId} {u : String} {r : Writer} (hr : own.put n name.tag o m u = some r) :
      (m = n ∧ u = name.tag ∧ r = .still (some v) ∧ (s.forest.tag? n).isSome = true) ∨
        ((m ≠ n ∨ u ≠ name.tag) ∧ own m u = some r) := by
    by_cases hm : m = n ∧ u = name.tag
    · obtain ⟨rfl, rfl⟩ := hm
      rw [Writers.put_self] at hr
      rcases ho with rfl | ⟨rfl, u, hu⟩
      · cases hr
      · exact Or.inl ⟨rfl, rfl, (Option.some.inj hr).symm, h.element _ _ _ hu⟩
    · rw [Writers.put_of_ne _ _ (not_and_or.1 hm)] at hr
      exact Or.inr ⟨not_and_or.1 hm, hr⟩
  have hother {m : NodeId} {u : String} (hm : m ≠ n ∨ u ≠ name.tag) :
      (s.forest.setAttr n name v).attr? m u = s.forest.attr? m u :=
    Forest.attr?_setAttr_of_ne _ (hm.imp_right Ne.symm) v
  refine ⟨fun m u r hr => ?_, fun m u w hw => ?_, fun m u b hb => ?_, fun b x hx => ?_, fun b x hx => ?_⟩
  · change ((s.forest.setAttr n name v).tag? m).isSome = true
    rw [Forest.tag?_setAttr]
    rcases hput hr with ⟨rfl, -, -, htag⟩ | ⟨-, hr⟩
    · exact htag
    · exact h.element m u r hr
  · rcases hput hw with ⟨rfl, rfl, hv, htag⟩ | ⟨hm, hw⟩
    · obtain rfl := Writer.still.inj hv
      exact Forest.attr?_setAttr_self htag name v
    · exact (hother hm).trans (h.still m u w hw)
  · rcases hput hb with ⟨-, -, hv, -⟩ | ⟨hm, hb⟩
    · cases hv
    · obtain ⟨x, hx, howner, hname, hwritten⟩ := h.bound m u b hb
      exact ⟨x, hx, howner, hname, (hother hm).trans hwritten⟩
  · by_cases hm : x.owner = n ∧ x.name.tag = name.tag
    · obtain ⟨howner, hname⟩ := hm
      left
      rw [howner, hname, Writers.put_self]
      rcases ho with rfl | ⟨rfl, u, hu⟩
      · rfl
      · have hlone := h.lone b x hx
        rw [howner, hname, hu] at hlone
        rcases hlone with hlone | hlone <;> cases hlone
    · rw [Writers.put_of_ne _ _ (not_and_or.1 hm)]
      exact h.lone b x hx
  · exact lt_of_lt_of_eq (h.owner b x hx) (Forest.sameLinks_setAttr s.forest n name v).size.symm

/-- A formatted attribute writes what it is the single writer of, or what has none. -/
theorem Obeys.write (h : s.Obeys own) (b : BindingId) : (s.write b).2.Obeys own := by
  unfold Screen.write
  split
  · exact h
  · next x hx =>
    split
    · have hplace {m : NodeId} {u : String} {r : Writer} (hr : own m u = some r) :
          (m = x.owner ∧ u = x.name.tag ∧ r = .bound b) ∨ (m ≠ x.owner ∨ u ≠ x.name.tag) := by
        by_cases hm : m = x.owner ∧ u = x.name.tag
        · obtain ⟨rfl, rfl⟩ := hm
          rcases h.lone b x hx with hlone | hlone
          · rw [hlone] at hr
            cases hr
          · exact Or.inl ⟨rfl, rfl, Option.some.inj (hr.symm.trans hlone)⟩
        · exact Or.inr (not_and_or.1 hm)
      have hother {m : NodeId} {u : String} (hm : m ≠ x.owner ∨ u ≠ x.name.tag) :
          (s.forest.setAttr x.owner x.name x.joined).attr? m u = s.forest.attr? m u :=
        Forest.attr?_setAttr_of_ne _ (hm.imp_right Ne.symm) x.joined
      -- the formatted attribute stands where it stood
      have hsame (b' : BindingId) (y : Binding)
          (hy : ((s.mapForest fun f => f.setAttr x.owner x.name x.joined).modifyBinding b
            fun x => { x with written := some x.joined }).binding? b' = some y) :
          ∃ z, s.binding? b' = some z ∧ z.owner = y.owner ∧ z.name = y.name := by
        by_cases hb : b' = b
        · subst hb
          rw [binding?_modifyBinding_self] at hy
          obtain ⟨z, hz, rfl⟩ := Option.map_eq_some_iff.1 hy
          exact ⟨z, hz, rfl, rfl⟩
        · rw [binding?_modifyBinding_of_ne _ _ hb] at hy
          exact ⟨y, hy, rfl, rfl⟩
      refine ⟨fun m u r hr => ?_, fun m u w hw => ?_, fun m u b' hb => ?_, fun b' y hy => ?_, fun b' y hy => ?_⟩
      · change ((s.forest.setAttr x.owner x.name x.joined).tag? m).isSome = true
        rw [Forest.tag?_setAttr]
        exact h.element m u r hr
      · rcases hplace hw with ⟨-, -, hr⟩ | hm
        · cases hr
        · exact (hother hm).trans (h.still m u w hw)
      · obtain ⟨z, hz, howner, hname, hwritten⟩ := h.bound m u b' hb
        by_cases hbb : b' = b
        · subst hbb
          obtain rfl := Option.some.inj (hx.symm.trans hz)
          refine ⟨{ x with written := some x.joined }, ?_, howner, hname, ?_⟩
          · rw [binding?_modifyBinding_self]
            exact congrArg (Option.map _) hx
          · rw [← howner, ← hname]
            exact Forest.attr?_setAttr_self (howner ▸ h.element m u _ hb) x.name x.joined
        · refine ⟨z, (binding?_modifyBinding_of_ne _ _ hbb).trans hz, howner, hname, ?_⟩
          rcases hplace hb with ⟨-, -, hr⟩ | hm
          · exact absurd (Writer.bound.inj hr) hbb
          · exact (hother hm).trans hwritten
      · obtain ⟨z, hz, ho, hn⟩ := hsame b' y hy
        exact ho ▸ hn ▸ h.lone b' z hz
      · obtain ⟨z, hz, ho, -⟩ := hsame b' y hy
        have hlinks := Forest.sameLinks_setAttr s.forest x.owner x.name x.joined
        exact lt_of_lt_of_eq (ho ▸ h.owner b' z hz) hlinks.size.symm
    · exact h

theorem Obeys.modifyBinding (h : s.Obeys own) (b : BindingId) {f : Binding → Binding}
    (hf : ∀ x, (f x).stand = x.stand) : (s.modifyBinding b f).Obeys own := by
  refine h.congr (Nat.le_refl _) (fun _ => id) (fun _ _ _ => rfl) fun b' => ?_
  by_cases hb : b' = b
  · subst hb
    rw [binding?_modifyBinding_self, Option.map_map]
    exact congrArg (fun f => Option.map f (s.binding? b')) (funext hf)
  · rw [binding?_modifyBinding_of_ne _ _ hb]

theorem Obeys.modifyQueue (h : s.Obeys own) (q : QueueId) (f : Queue → Queue) : (s.modifyQueue q f).Obeys own :=
  h.congr (Nat.le_refl _) (fun _ => id) (fun _ _ _ => rfl) fun _ => rfl

theorem Obeys.writeAll (h : s.Obeys own) (bs : List BindingId) : (s.writeAll bs).2.Obeys own := by
  induction bs generalizing s with
  | nil => exact h
  | cons b bs ih =>
    have hfirst := (h.modifyBinding b (f := fun x => { x with pending := false }) fun _ => rfl).write b
    exact ih hfirst

theorem Obeys.flush (h : s.Obeys own) (q : QueueId) : (s.flush q).2.Obeys own := by
  unfold Screen.flush
  split
  · exact h
  · next y hy =>
    have hall := (h.modifyQueue q fun y => { y with pending := [], deadline := none }).writeAll y.pending
    dsimp only
    split
    · exact hall.modifyQueue q _
    · exact hall

/-! ## New elements and new formatted attributes -/

/-- All attributes of a new element stand as they are, there being none. -/
theorem Obeys.createElement (h : s.Obeys own) (name : QName) :
    ({ s with forest := (s.forest.create (.element name [] false)).2 } : Screen).Obeys fun m t =>
      if m = ⟨s.forest.size⟩ then some (.still none) else own m t := by
  have hmoves := Forest.Moves.create s.forest (.element name [] false)
  have hold : ({ s with forest := (s.forest.create (.element name [] false)).2 } : Screen).Obeys own :=
    h.moves hmoves rfl
  have hkind : (s.forest.create (.element name [] false)).2.kind? ⟨s.forest.size⟩ = some (.element name [] false) :=
    congrArg (Option.map Node.kind) (Forest.node?_create s.forest _)
  refine ⟨fun m u r hr => ?_, fun m u v hv => ?_, fun m u b hb => ?_, fun b x hx => ?_, hold.owner⟩
  · split at hr
    · next hm =>
      subst hm
      dsimp only
      rw [Forest.tag?_eq, hkind]
      rfl
    · exact hold.element m u r hr
  · split at hv
    · next hm =>
      subst hm
      obtain rfl := Writer.still.inj (Option.some.inj hv)
      dsimp only
      rw [Forest.attr?_eq, hkind]
      rfl
    · exact hold.still m u v hv
  · split at hb
    · cases hb
    · exact hold.bound m u b hb
  · have hne : x.owner ≠ ⟨s.forest.size⟩ := by
      intro heq
      exact absurd (h.owner b x hx) (by rw [heq]; exact Nat.lt_irrefl _)
    rw [if_neg hne]
    exact hold.lone b x hx

/-- A new formatted attribute is the single writer where nothing has been written, or nobody is any more. -/
theorem Obeys.addBinding (h : s.Obeys own) (hn : n.index < s.forest.size) {name : QName} {f : Format}
    {o : Option Writer}
    (ho : o = none ∨ o = some (.bound ⟨s.bindings.size⟩) ∧ own n name.tag = some (.still none)) :
    (s.addBinding (Binding.ofFormat n name f)).2.Obeys (own.put n name.tag o) := by
  have hold {b : BindingId} {x : Binding} (hx : s.binding? b = some x) :
      (s.addBinding (Binding.ofFormat n name f)).2.binding? b = some x := by
    have hne : b ≠ ⟨s.bindings.size⟩ := by
      rintro rfl
      exact Nat.lt_irrefl _ (Array.getElem?_eq_some_iff.1 hx).1
    rw [binding?_addBinding, if_neg hne]
    exact hx
  have hcases {b : BindingId} {x : Binding} (hx : (s.addBinding (Binding.ofFormat n name f)).2.binding? b = some x) :
      (b = ⟨s.bindings.size⟩ ∧ x = Binding.ofFormat n name f) ∨ s.binding? b = some x := by
    rw [binding?_addBinding] at hx
    split at hx
    · next hb => exact Or.inl ⟨hb, (Option.some.inj hx).symm⟩
    · exact Or.inr hx
  have hput {m : NodeId} {u : String} {r : Writer} (hr : own.put n name.tag o m u = some r) :
      (m = n ∧ u = name.tag ∧ r = .bound ⟨s.bindings.size⟩ ∧ own n name.tag = some (.still none)) ∨
        own m u = some r := by
    by_cases hm : m = n ∧ u = name.tag
    · obtain ⟨rfl, rfl⟩ := hm
      rw [Writers.put_self] at hr
      rcases ho with rfl | ⟨rfl, hu⟩
      · cases hr
      · exact Or.inl ⟨rfl, rfl, (Option.some.inj hr).symm, hu⟩
    · rw [Writers.put_of_ne _ _ (not_and_or.1 hm)] at hr
      exact Or.inr hr
  refine ⟨fun m u r hr => ?_, fun m u v hv => ?_, fun m u b hb => ?_, fun b x hx => ?_, fun b x hx => ?_⟩
  · rcases hput hr with ⟨rfl, -, -, hu⟩ | hr
    · exact h.element _ _ _ hu
    · exact h.element m u r hr
  · rcases hput hv with ⟨-, -, hr, -⟩ | hv
    · cases hr
    · exact h.still m u v hv
  · rcases hput hb with ⟨rfl, rfl, hr, hu⟩ | hb
    · obtain rfl := Writer.bound.inj hr
      exact ⟨_, (binding?_addBinding s _ _).trans (if_pos rfl), rfl, rfl, h.still _ _ _ hu⟩
    · obtain ⟨x, hx, hrest⟩ := h.bound m u b hb
      exact ⟨x, hold hx, hrest⟩
  · rcases hcases hx with ⟨rfl, rfl⟩ | hx
    · change own.put n name.tag o n name.tag = none ∨ own.put n name.tag o n name.tag = _
      rw [Writers.put_self]
      exact ho.imp_right And.left
    · by_cases hm : x.owner = n ∧ x.name.tag = name.tag
      · obtain ⟨howner, hname⟩ := hm
        left
        rw [howner, hname, Writers.put_self]
        rcases ho with rfl | ⟨-, hu⟩
        · rfl
        · have hlone := h.lone b x hx
          rw [howner, hname, hu] at hlone
          rcases hlone with hlone | hlone <;> cases hlone
      · rw [Writers.put_of_ne _ _ (not_and_or.1 hm)]
        exact h.lone b x hx
  · rcases hcases hx with ⟨rfl, rfl⟩ | hx
    · exact hn
    · exact h.owner b x hx

end Screen

end ReactiveView
