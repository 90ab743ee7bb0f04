import ReactiveView.Proofs.Binding.Construction
import ReactiveView.Host.Perform

/-!
# Constructing among plain classes

Classes without constructors and without factories call back into no code of a host. Among such classes
an instance that already exists is left alone by every construction, however deeply the construction
nests (`Callbacks.discreet_ofDepth`). What carries the induction on the depth is that the instance under
construction is a new one and that nobody listens to it yet (`World.SparesBeside`).
-/

set_option autoImplicit false

namespace ReactiveView

/-- No class of the table has a constructor or a factory. -/
def PlainClasses (T : Table Class) : Prop :=
  ∀ n c, T.get? n = some c → c.constructors = [] ∧ c.factory = none

namespace World

theorem index_lt_of_inst? {w : World} {i : InstanceId} {x : Instance} (h : w.inst? i = some x) :
    i.index < w.instances.size :=
  (Array.getElem?_eq_some_iff.1 h).1

/-- Nobody listens to the mutations of an instance. -/
def Unheard (w : World) (k : InstanceId) : Prop :=
  ∃ x, w.inst? k = some x ∧ x.mutationListeners = []

/-- While nobody listens to `k`, the classes stay of some kind, nobody comes to listen to `k`, and `i`
is left alone. -/
def SparesBeside (kind : Table Class → Prop) (k i : InstanceId) (w w' : World) : Prop :=
  kind w.classes → w.Unheard k → kind w'.classes ∧ w'.Unheard k ∧ w.Spares i (fun _ => False) w'

variable {kind : Table Class → Prop} {k i : InstanceId}

theorem Unheard.of_spares {w w' : World} {may : Nat → Prop} (h : w.Unheard k)
    (hs : w.Spares k may w') : w'.Unheard k := by
  obtain ⟨x, hx, hl⟩ := h
  obtain ⟨y, hy, ha⟩ := hs.inst x hx
  exact ⟨y, hy, ha.mutationListeners.trans hl⟩

/-- What spares the one instance, up to its values, and leaves the other alone. -/
theorem sparesBeside_of_sparesAmong {w w' : World} (hk : w.SparesAmong kind k (fun _ => True) w')
    (hi : w.SparesAmong kind i (fun _ => False) w') :
    w.SparesBeside kind k i w' := fun h hu =>
  ⟨(hk h).1, hu.of_spares (hk h).2, (hi h).2⟩

instance : IsFrame (SparesBeside kind k i) where
  refl w h hu := ⟨h, hu, .rfl⟩
  trans a b c hab hbc ha hu := by
    obtain ⟨hb, hub, hs⟩ := hab ha hu
    obtain ⟨hc, huc, hs'⟩ := hbc hb hub
    exact ⟨hc, huc, hs.trans hs'⟩
  same w w' hc hi := sparesBeside_of_sparesAmong
    (IsFrame.same w w' hc hi) (IsFrame.same w w' hc hi)
  modify w j f hf := sparesBeside_of_sparesAmong
    (IsFrame.modify w j f hf) (IsFrame.modify w j f hf)

theorem sparesBeside_storeValue (hki : k ≠ i) (n : Nat) (w : World) (v : Value) :
    w.SparesBeside kind k i (w.storeValue k n v) := by
  refine sparesBeside_of_sparesAmong (sparesAmong_storeValue trivial w v) ?_
  exact fun h => ⟨h, Spares.modifyInstance fun hk => absurd hk hki⟩

end World

namespace Run

variable {cb : Callbacks} {k i : InstanceId}

/-- An announcement that nobody hears. -/
theorem keeps_announce_unheard {kind : Table Class → Prop} (name : String) (old v : Value) :
    Keeps (World.SparesBeside kind k i) (announce cb k name old v) := by
  intro w h hu
  obtain ⟨x, hx, hl⟩ := hu
  have hsame : announce cb k name old v w = (.ok (), w) := by
    unfold announce
    rw [bind_of_ok (theInstance_of hx), hl]
    rfl
  rw [hsame]
  exact ⟨h, ⟨x, hx, hl⟩, .rfl⟩

theorem create_error {w w' : World} {id : ClassId} {c : Class} {e : Halt}
    (h : create id c w = (.error e, w')) : w' = w := by
  unfold create at h
  rw [bind_of_ok (get_apply w)] at h
  cases hnew : w.createInstance id c.descriptor with
  | ok x =>
    rw [hnew] at h
    cases h
  | error e' =>
    rw [hnew] at h
    exact (Prod.mk.inj h).2.symm

/-- Constructing an instance of a class without constructors leaves the others alone. -/
theorem spares_constructConcrete (hcb : ∀ j, cb.Discreet PlainClasses j) {id : ClassId} {c : Class}
    (hc : c.constructors = []) (init : Option Value) {w : World} (hcls : w.class? id = some c) :
    w.SparesAmong PlainClasses i (fun _ => False) (constructConcrete cb id c init w).2 := by
  intro hk
  unfold constructConcrete
  cases initialFields c.name init with
  | error e => exact ⟨hk, .rfl⟩
  | ok fields =>
    rw [bind_of_ok (ofExcept_ok _ _)]
    cases fields.keys.find? fun k => (c.descriptor.property? k).isNone with
    | some key => exact ⟨hk, .rfl⟩
    | none =>
      dsimp only
      rcases hcreate : create id c w with ⟨e | k, w₁⟩
      · rw [bind_of_error hcreate, create_error hcreate]
        exact ⟨hk, .rfl⟩
      · rw [bind_of_ok hcreate]
        obtain ⟨hnew, hcls₁, hold, vals, hholds, -⟩ := create_ok hcls hcreate
        have hunheard : w₁.Unheard k := by
          obtain ⟨x, v, hx, -, -, -, hl⟩ := hholds.inst
          exact ⟨x, hx, hl⟩
        have hpopulate (j : InstanceId) (hkj : k ≠ j) :
            w₁.SparesBeside PlainClasses k j (populate cb k c fields w₁).2 :=
          keeps_populate (fun id init w => World.sparesBeside_of_sparesAmong
            ((hcb k id init w).mono fun _ _ => trivial) (hcb j id init w)) (World.sparesBeside_storeValue hkj) keeps_announce_unheard hc fields w₁
        have hcls_le (id' : ClassId) (c' : Class) (h : w.class? id' = some c') :
            w₁.class? id' = some c' := by
          unfold World.class? at h ⊢
          rw [hcls₁, h]
        by_cases hki : k = i
        · -- the instance is the new one, so it was not there before
          obtain ⟨hk₂, -, hs₂⟩ := hpopulate ⟨k.index + 1⟩
            (fun h => Nat.succ_ne_self _ (congrArg InstanceId.index h).symm) (hcls₁ ▸ hk) hunheard
          refine ⟨hk₂, fun id' c' h => hs₂.cls id' c' (hcls_le id' c' h), fun x hx => ?_⟩
          rw [← hki, hnew] at hx
          exact absurd (World.index_lt_of_inst? hx) (Nat.lt_irrefl _)
        · obtain ⟨hk₂, -, hs₂⟩ := hpopulate i hki (hcls₁ ▸ hk) hunheard
          refine ⟨hk₂, World.Spares.trans ⟨hcls_le, fun x hx => ⟨x, ?_, .rfl⟩⟩ hs₂⟩
          rw [hold i (World.index_lt_of_inst? hx), hx]

/-- Constructing an instance among plain classes leaves the others alone. -/
theorem discreet_constructInstance (hcb : ∀ j, cb.Discreet PlainClasses j) (id : ClassId)
    (init : Option Value) :
    Keeps (World.SparesAmong PlainClasses i fun _ => False) (constructInstance cb id init) := by
  refine Keeps.scope fun w hk => ?_
  cases hcls : w.class? id with
  | none =>
    rw [bind_of_error (theClass_of_none hcls)]
    exact ⟨hk, .rfl⟩
  | some c =>
    obtain ⟨hcons, hfactory⟩ := hk id.index c hcls
    rw [bind_of_ok (theClass_of hcls)]
    split
    · rw [hfactory]
      exact ⟨hk, .rfl⟩
    · exact spares_constructConcrete hcb hcons init hcls hk

end Run

/-- Among plain classes every instance that exists is left alone by every construction. -/
theorem Callbacks.discreet_ofDepth (depth : Nat) (i : InstanceId) :
    (Callbacks.ofDepth depth).Discreet PlainClasses i := by
  induction depth generalizing i with
  | zero => exact fun id init w hk => ⟨hk, .rfl⟩
  | succ depth ih => exact fun id init => Run.discreet_constructInstance ih id init

theorem plainClasses_of_all {T : Table Class}
    (h : (T.toList.all fun c => c.constructors.isEmpty && c.factory.isNone) = true) :
    PlainClasses T := by
  intro n c hc
  rw [List.all_eq_true] at h
  have hmem : c ∈ T.toList := Array.mem_toList_iff.2 (Array.mem_of_getElem? hc)
  have htest := h c hmem
  simp only [Bool.and_eq_true, List.isEmpty_iff, Option.isNone_iff_eq_none] at htest
  exact htest

/-! ## A small world -/

/-- The template of a class whose bound property is declared before the property that it reads. -/
def echoTemplate : Markup :=
  let declaration (attrs : List Attr) : Markup := .element (.html "ooml-property") attrs false []
  .element (.html "template") [⟨.plain "ooml-class", "Echo"⟩] false
    [declaration [⟨.plain "name", "shout"⟩, ⟨.plain "binding", "\x7b\x7b this.word \x7d\x7d!"⟩],
      declaration [⟨.plain "name", "word"⟩],
      .element (.html "div") [] false []]

/-- A world that knows that class and nothing else. -/
def echoWorld : World :=
  match Class.Shelf.add {} true [] echoTemplate with
  | .ok (_, s) => { classes := s.classes }
  | .error _ => {}

theorem compiled_echoWorld : Compiled echoWorld.classes := by
  unfold echoWorld
  split
  · next h => exact Class.Shelf.compiled_add .empty h
  · exact .empty

theorem plainClasses_echoWorld : PlainClasses echoWorld.classes :=
  plainClasses_of_all (by decide +kernel)

/-- The class of the small world: `shout` is bound and stands first, `word` is not bound. -/
theorem exists_echo : ∃ c p q, echoWorld.class? ⟨0⟩ = some c ∧ c.descriptor.isAbstract = false ∧
    c.constructors = [] ∧ c.descriptor.properties = [p, q] ∧ p.name = "shout" ∧ q.name = "word" ∧
    p.kind.isPrimitive = true ∧ q.kind.isPrimitive = true ∧ p.passthrough = none ∧
    p.binding.isSome = true ∧ p.name ∈ c.affected q.name := by
  have hsome : (echoWorld.class? ⟨0⟩).isSome = true := by decide +kernel
  obtain ⟨c, hc⟩ := Option.isSome_iff_exists.1 hsome
  have hclass : (echoWorld.class? ⟨0⟩).any (fun c => !c.descriptor.isAbstract && c.constructors.isEmpty &&
      (c.affected "word").contains "shout") = true := by decide +kernel
  have hshape : (echoWorld.class? ⟨0⟩).map (fun c => c.descriptor.properties.map fun p =>
      (p.name, p.kind.isPrimitive, p.passthrough.isNone, p.binding.isSome)) =
        some [("shout", true, true, true), ("word", true, true, false)] := by decide +kernel
  rw [hc] at hclass hshape
  simp only [Option.any_some, Bool.and_eq_true, Bool.not_eq_true', List.isEmpty_iff, List.contains_iff_mem] at hclass
  obtain ⟨⟨habs, hcons⟩, haff⟩ := hclass
  -- there are two properties, the bound one first
  obtain ⟨p, ps, hpps, hp, hps⟩ := List.map_eq_cons_iff.1 (Option.some.inj hshape)
  obtain ⟨q, qs, rfl, hq, hqs⟩ := List.map_eq_cons_iff.1 hps
  obtain rfl := List.map_eq_nil_iff.1 hqs
  simp only [Prod.mk.injEq, Option.isNone_iff_eq_none] at hp hq
  obtain ⟨hpname, hpp, hpass, hbind⟩ := hp
  refine ⟨c, p, q, hc, habs, hcons, hpps, hpname, hq.1, hpp, hq.2.1, hpass, hbind, ?_⟩
  rw [hpname, hq.1]
  exact haff

end ReactiveView
