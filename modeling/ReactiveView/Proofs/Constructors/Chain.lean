import Mathlib.Algebra.GroupWithZero.Nat
import ReactiveView.Proofs.Binding.Construction
import ReactiveView.Proofs.Class.Lines
import ReactiveView.Proofs.Constructors.Watching
import ReactiveView.Proofs.Loading.Markers

/-!
# The chain of constructors

`ChainRun` says what can happen when the last constructor of a chain is run: it is entered, and then, each time that
it calls its super link, the same happens for the chain above it. Whatever the constructors do, every construction
that comes to them runs the chain of the line of the class in this way (`Run.constructInstance_chain`).

So the closest constructor is entered once, and each other one as often as the one below it has called its super link
(`ChainRun.entries_eq_links`). If every constructor calls its super link once, all are entered in turn up to the root
(`ChainRun.entrances_eq_reverse`), and if one does not, those above it are the ones that are not entered
(`ChainRun.entries_pos_iff_le`).
-/

set_option autoImplicit false

namespace ReactiveView

namespace ConstructorEvent

/-- The instance on which a constructor runs. -/
def self : ConstructorEvent → InstanceId
  | entered i _ _ => i
  | linked i _ => i

/-- The number of constructors above the one to which something happens. -/
def above : ConstructorEvent → Nat
  | entered _ n _ => n
  | linked _ n => n

/-- Whether the constructor with so many above it is entered. -/
def isEntry (n : Nat) : ConstructorEvent → Bool
  | entered _ m _ => m == n
  | linked _ _ => false

/-- Whether the constructor with so many above it calls its super link. -/
def isLink (n : Nat) : ConstructorEvent → Bool
  | entered _ _ _ => false
  | linked _ m => m == n

/-- The constructor that is entered, with the instance. -/
def entrance? : ConstructorEvent → Option (InstanceId × Host.Script)
  | entered i _ script => some (i, script)
  | linked _ _ => none

/-- How often the constructor with so many above it is entered. -/
def entries (es : List ConstructorEvent) (n : Nat) : Nat := es.countP (isEntry n)

/-- How often the constructor with so many above it calls its super link. -/
def links (es : List ConstructorEvent) (n : Nat) : Nat := es.countP (isLink n)

/-- The constructors that are entered, in order, each with the instance. -/
def entrances (es : List ConstructorEvent) : List (InstanceId × Host.Script) := es.filterMap entrance?

/-- What happens at one call of the super link after the other. -/
def linkEvents (i : InstanceId) (n : Nat) (calls : List (List ConstructorEvent)) : List ConstructorEvent :=
  calls.flatMap fun es => linked i n :: es

end ConstructorEvent

open ConstructorEvent

/-- What can happen on an instance when the last constructor of a chain is run: it is entered, and at each call of its
super link the chain above it is run. -/
inductive ChainRun (i : InstanceId) : List Host.Script → List ConstructorEvent → Prop where
  | none : ChainRun i [] []
  | last {chain : List Host.Script} {script : Host.Script} {calls : List (List ConstructorEvent)}
      (hcalls : ∀ es ∈ calls, ChainRun i chain es) :
      ChainRun i (chain ++ [script]) (entered i chain.length script :: linkEvents i chain.length calls)

/-! ## Counting -/

section Counting

variable {i : InstanceId} {n k : Nat} {calls : List (List ConstructorEvent)}

theorem mem_linkEvents {e : ConstructorEvent} :
    e ∈ linkEvents i n calls ↔ ∃ es ∈ calls, e = linked i n ∨ e ∈ es := by
  simp [linkEvents]

theorem entries_entered (script : Host.Script) (es : List ConstructorEvent) :
    entries (entered i n script :: es) k = (if n = k then 1 else 0) + entries es k := by
  simp [entries, List.countP_cons, isEntry, Nat.add_comm]

theorem links_entered (script : Host.Script) (es : List ConstructorEvent) :
    links (entered i n script :: es) k = links es k := by
  simp [links, isLink]

theorem entrances_entered (script : Host.Script) (es : List ConstructorEvent) :
    entrances (entered i n script :: es) = (i, script) :: entrances es :=
  rfl

theorem entries_linkEvents : entries (linkEvents i n calls) k = (calls.map fun es => entries es k).sum := by
  induction calls with
  | nil => rfl
  | cons es calls ih =>
    have hsplit : linkEvents i n (es :: calls) = linked i n :: (es ++ linkEvents i n calls) := rfl
    rw [hsplit, List.map_cons, List.sum_cons, ← ih]
    simp [entries, isEntry]

theorem links_linkEvents :
    links (linkEvents i n calls) k = (calls.map fun es => (if n = k then 1 else 0) + links es k).sum := by
  induction calls with
  | nil => rfl
  | cons es calls ih =>
    have hsplit : linkEvents i n (es :: calls) = linked i n :: (es ++ linkEvents i n calls) := rfl
    rw [hsplit, List.map_cons, List.sum_cons, ← ih]
    simp only [links, List.countP_cons, List.countP_append, isLink, beq_iff_eq]
    omega

end Counting

namespace ChainRun

variable {i : InstanceId} {chain : List Host.Script} {es : List ConstructorEvent} {k : Nat}

/-- Everything happens on the instance to a constructor of the chain, and it is that constructor which is entered. -/
theorem mem (h : ChainRun i chain es) : ∀ e ∈ es, e.self = i ∧ e.above < chain.length ∧
    ∀ script, e = entered i e.above script → chain[e.above]? = some script := by
  induction h with
  | none => exact fun e he => absurd he List.not_mem_nil
  | @last chain script calls hcalls ih =>
    intro e he
    rcases List.mem_cons.1 he with rfl | he
    · refine ⟨rfl, by simp [above], fun other hother => ?_⟩
      obtain ⟨-, -, rfl⟩ := ConstructorEvent.entered.inj hother
      simp [above]
    · obtain ⟨es, hes, rfl | he⟩ := mem_linkEvents.1 he
      · exact ⟨rfl, by simp [above], nofun⟩
      · obtain ⟨hself, hlt, hscript⟩ := ih es hes e he
        rw [List.length_append, List.getElem?_append_left hlt]
        exact ⟨hself, Nat.lt_add_right _ hlt, hscript⟩

theorem eq_nil (h : ChainRun i [] es) : es = [] := by
  rw [List.eq_nil_iff_forall_not_mem]
  intro e he
  exact absurd (h.mem e he).2.1 (Nat.not_lt_zero _)

/-- What happens elsewhere than in the chain is not counted. -/
theorem entries_of_le (h : ChainRun i chain es) (hk : chain.length ≤ k) : entries es k = 0 := by
  rw [entries, List.countP_eq_zero]
  intro e he
  have hlt := (h.mem e he).2.1
  cases e with
  | entered _ m _ => simp [isEntry, above] at hlt ⊢; omega
  | linked _ _ => simp [isEntry]

theorem links_of_le (h : ChainRun i chain es) (hk : chain.length ≤ k) : links es k = 0 := by
  rw [links, List.countP_eq_zero]
  intro e he
  have hlt := (h.mem e he).2.1
  cases e with
  | entered _ _ _ => simp [isLink]
  | linked _ m => simp [isLink, above] at hlt ⊢; omega

/-- The closest constructor is entered once. -/
theorem entries_closest (h : ChainRun i chain es) (hk : k + 1 = chain.length) : entries es k = 1 := by
  cases h with
  | none => simp at hk
  | @last chain script calls hcalls =>
    obtain rfl : k = chain.length := by simpa using hk
    have hinner : (calls.map fun es => entries es chain.length) = calls.map fun _ => 0 :=
      List.map_congr_left fun es hes => (hcalls es hes).entries_of_le le_rfl
    rw [entries_entered, entries_linkEvents, hinner]
    simp

/-- Every other constructor is entered as often as the one below it has called its super link. -/
theorem entries_eq_links (h : ChainRun i chain es) (hk : k + 1 < chain.length) : entries es k = links es (k + 1) := by
  induction h with
  | none => simp at hk
  | @last chain script calls hcalls ih =>
    have hlt : k < chain.length := by simpa using hk
    have hcall : ∀ es ∈ calls, entries es k = (if chain.length = k + 1 then 1 else 0) + links es (k + 1) := by
      intro es hes
      by_cases hlast : chain.length = k + 1
      · -- the constructor is the closest one of the chain above
        rw [if_pos hlast, (hcalls es hes).entries_closest hlast.symm, (hcalls es hes).links_of_le hlast.le]
      · rw [if_neg hlast, Nat.zero_add]
        exact ih es hes (by omega)
    rw [entries_entered, links_entered, entries_linkEvents, links_linkEvents, List.map_congr_left hcall,
      if_neg (by omega), Nat.zero_add]

/-- Only a constructor that has been entered calls its super link. -/
theorem entries_pos_of_links_pos (h : ChainRun i chain es) (hk : 0 < links es k) : 0 < entries es k := by
  induction h with
  | none => exact absurd hk (by simp [links])
  | @last chain script calls hcalls ih =>
    rw [entries_entered]
    by_cases hlast : chain.length = k
    · rw [if_pos hlast]
      omega
    · rw [links_entered, links_linkEvents, List.sum_pos_iff_exists_pos_nat] at hk
      obtain ⟨m, hm, hpos⟩ := hk
      obtain ⟨es, hes, rfl⟩ := List.mem_map.1 hm
      rw [if_neg hlast, Nat.zero_add] at hpos
      have hentries : 0 < (calls.map fun es => entries es k).sum := by
        rw [List.sum_pos_iff_exists_pos_nat]
        exact ⟨_, List.mem_map_of_mem hes, ih es hes hpos⟩
      rw [entries_linkEvents]
      omega

/-- A constructor is entered if and only if all constructors below it call their super links. -/
theorem entries_pos_iff (h : ChainRun i chain es) (hk : k < chain.length) :
    0 < entries es k ↔ ∀ j, k < j → j < chain.length → 0 < links es j := by
  -- downwards from the closest constructor
  induction hd : chain.length - k generalizing k with
  | zero => omega
  | succ d ih =>
    rcases Nat.lt_or_ge (k + 1) chain.length with hlt | hge
    · rw [h.entries_eq_links hlt]
      constructor
      · intro hpos j hj hjn
        rcases Nat.eq_or_lt_of_le (Nat.succ_le_of_lt hj) with rfl | hj
        · exact hpos
        · exact (ih hlt (by omega)).1 (h.entries_pos_of_links_pos hpos) j hj hjn
      · intro hall
        exact hall (k + 1) (Nat.lt_succ_self k) hlt
    · rw [h.entries_closest (by omega)]
      exact ⟨fun _ j hj hjn => absurd hj (by omega), fun _ => Nat.zero_lt_one⟩

/-- If a constructor that is entered does not call its super link, those above it are the ones that are not entered. -/
theorem entries_pos_iff_le (h : ChainRun i chain es) (hk : k < chain.length) (hentered : 0 < entries es k)
    (hstops : links es k = 0) {j : Nat} (hj : j < chain.length) : 0 < entries es j ↔ k ≤ j := by
  rw [h.entries_pos_iff hj]
  constructor
  · intro hall
    by_contra hlt
    exact absurd (hall k (Nat.lt_of_not_le hlt) hk) (by omega)
  · intro hkj l hl hln
    -- all constructors below the one that stops have called their super links
    exact (h.entries_pos_iff hk).1 hentered l (by omega) hln

/-- The last constructor calls its super link as often as the chain above it is run. -/
theorem links_last {script : Host.Script} {calls : List (List ConstructorEvent)}
    (hcalls : ∀ es ∈ calls, ChainRun i chain es) :
    links (entered i chain.length script :: linkEvents i chain.length calls) chain.length = calls.length := by
  have hinner : (calls.map fun es => (if chain.length = chain.length then 1 else 0) + links es chain.length) =
      calls.map fun _ => 1 := by
    refine List.map_congr_left fun es hes => ?_
    rw [if_pos rfl, (hcalls es hes).links_of_le le_rfl]
  rw [links_entered, links_linkEvents, hinner]
  simp

/-- If the constructors below one call their super links once each time that they are entered, and this one does not
call it or has nothing above it, then the constructors from the closest one up to it are entered, in turn and once. -/
theorem entrances_eq (h : ChainRun i chain es) (hk : k < chain.length)
    (honce : ∀ j, k < j → j < chain.length → links es j = entries es j) (hstop : k = 0 ∨ links es k = 0) :
    entrances es = ((chain.drop k).map fun script => (i, script)).reverse := by
  induction h with
  | none => simp at hk
  | @last chain script calls hcalls ih =>
    rcases Nat.lt_or_ge k chain.length with hlt | hge
    · -- the last constructor calls its super link once
      have hlength : calls.length = 1 := by
        rw [← links_last hcalls, honce chain.length hlt (by simp)]
        exact (ChainRun.last hcalls).entries_closest (by simp)
      obtain ⟨es, rfl⟩ := List.length_eq_one_iff.1 hlength
      have hsame {j : Nat} (hj : j < chain.length) :
          entries (entered i chain.length script :: linkEvents i chain.length [es]) j = entries es j ∧
          links (entered i chain.length script :: linkEvents i chain.length [es]) j = links es j := by
        have hne : chain.length ≠ j := by omega
        rw [entries_entered, links_entered, entries_linkEvents, links_linkEvents]
        simp [hne]
      have hrest := ih es List.mem_cons_self hlt
        (fun j hj hjn => by
          rw [← (hsame hjn).1, ← (hsame hjn).2]
          exact honce j hj (by simp; omega))
        (hstop.imp_right fun hzero => by rwa [← (hsame hlt).2])
      have hcall : entrances (linkEvents i chain.length [es]) = entrances es := by
        rw [linkEvents, List.flatMap_singleton, entrances, List.filterMap_cons_none rfl, entrances]
      rw [entrances_entered, hcall, hrest, List.drop_append_of_le_length hlt.le]
      simp
    · -- nothing happens above the last constructor
      obtain rfl : k = chain.length := by simp at hk; omega
      have hquiet : entrances (linkEvents i chain.length calls) = [] := by
        rcases hstop with hzero | hzero
        · obtain rfl : chain = [] := List.length_eq_zero_iff.1 hzero
          rw [entrances, List.filterMap_eq_nil_iff]
          intro e he
          obtain ⟨es, hes, rfl | he⟩ := mem_linkEvents.1 he
          · rfl
          · rw [(hcalls es hes).eq_nil] at he
            exact absurd he List.not_mem_nil
        · rw [links_last hcalls] at hzero
          rw [List.length_eq_zero_iff.1 hzero]
          rfl
      rw [entrances_entered, hquiet]
      simp

/-- If every constructor below the root calls its super link once each time that it is entered, all are entered, in
turn and once. -/
theorem entrances_eq_reverse (h : ChainRun i chain es)
    (honce : ∀ k, 0 < k → k < chain.length → links es k = entries es k) :
    entrances es = (chain.map fun script => (i, script)).reverse := by
  rcases Nat.eq_zero_or_pos chain.length with hnil | hpos
  · obtain rfl : chain = [] := List.length_eq_zero_iff.1 hnil
    rw [h.eq_nil]
    rfl
  · simpa using h.entrances_eq hpos honce (.inl rfl)

/-- The closest constructor is entered first. -/
theorem head_entrances (h : ChainRun i chain es) {script : Host.Script} (hscript : chain.getLast? = some script) :
    (entrances es).head? = some (i, script) := by
  cases h with
  | none => cases hscript
  | last hcalls =>
    rw [List.getLast?_concat] at hscript
    rw [← Option.some.inj hscript]
    rfl

end ChainRun

/-! ## What the constructors do -/

namespace Run

open Watched (lift tell)

section Scripts

variable {i : InstanceId} {n : Nat} {P : List ConstructorEvent → Prop}

/-- All that happens are calls of a super link, and what happens at each of them satisfies `P`. -/
def Links (i : InstanceId) (n : Nat) (P : List ConstructorEvent → Prop) (es : List ConstructorEvent) : Prop :=
  ∃ calls, (∀ call ∈ calls, P call) ∧ es = linkEvents i n calls

theorem Links.nil : Links i n P [] :=
  ⟨[], by simp, rfl⟩

theorem Links.append {es es' : List ConstructorEvent} (h : Links i n P es) (h' : Links i n P es') :
    Links i n P (es ++ es') := by
  obtain ⟨calls, hcalls, rfl⟩ := h
  obtain ⟨calls', hcalls', rfl⟩ := h'
  refine ⟨calls ++ calls', fun call hcall => ?_, by simp [linkEvents]⟩
  exact (List.mem_append.1 hcall).elim (hcalls call) (hcalls' call)

theorem Links.call {es : List ConstructorEvent} (h : P es) : Links i n P (linked i n :: es) := by
  refine ⟨[es], ?_, by simp [linkEvents]⟩
  simpa using h

/-- A run in which only links happen, followed by another one. -/
theorem Links.bind {α β : Type} {m : Watched α} {f : α → Watched β} {w : World} (hm : Links i n P (m.events w))
    (hf : ∀ a w₁, Links i n P ((f a).events w₁)) : Links i n P ((m >>= f).events w) := by
  rcases hrun : m.run w with ⟨e | a, w₁⟩
  · rw [Watched.events_bind_of_error hrun]
    exact hm
  · rw [Watched.events_bind_of_ok hrun]
    exact hm.append (hf a w₁)

theorem Links.lift_bind {α β : Type} {m : Run α} {f : α → Watched β} {w : World}
    (hf : ∀ a w₁, Links i n P ((f a).events w₁)) : Links i n P ((lift m >>= f).events w) :=
  Links.bind .nil hf

variable {cb : Callbacks} {link : Watched Unit} {frame : Frame}

mutual

/-- An action calls the super link, or does not, and nothing else happens to the constructors of the chain. -/
theorem links_watchedAction (hlink : ∀ w, P (link.events w)) : ∀ (a : Host.Action) (w : World),
    Links frame.self frame.chain.length P ((watchedAction cb link frame a).events w)
  | .branch left right yes no, w => by
    unfold watchedAction
    refine .lift_bind fun a w₁ => .lift_bind fun b w₂ => ?_
    split
    · exact links_watchedScript hlink yes w₂
    · exact links_watchedScript hlink no w₂
  | .callSuper, w => by
    unfold watchedAction
    refine .lift_bind fun _ w₁ => ?_
    have htold : (tell (linked frame.self frame.chain.length) >>= fun _ => link >>= fun _ =>
        (pure {} : Watched Outcome)).events w₁ = linked frame.self frame.chain.length :: link.events w₁ := by
      rw [Watched.events_tell_bind]
      exact congrArg _ (Watched.events_bind_lift link (fun _ => (pure {} : Run Outcome)) w₁)
    rw [htold]
    exact .call (hlink w₁)
  | .log text, w => by rw [watchedAction, Watched.events_lift] <;> first | exact .nil | nofun
  | .give value, w => by rw [watchedAction, Watched.events_lift] <;> first | exact .nil | nofun
  | .fail e, w => by rw [watchedAction, Watched.events_lift] <;> first | exact .nil | nofun
  | .prevent, w => by rw [watchedAction, Watched.events_lift] <;> first | exact .nil | nofun
  | .emit name data, w => by rw [watchedAction, Watched.events_lift] <;> first | exact .nil | nofun
  | .command c, w => by rw [watchedAction, Watched.events_lift] <;> first | exact .nil | nofun

theorem links_watchedScript (hlink : ∀ w, P (link.events w)) : ∀ (script : List Host.Action) (w : World),
    Links frame.self frame.chain.length P ((watchedScript cb link frame script).events w)
  | [], w => by
    unfold watchedScript
    exact .nil
  | a :: rest, w => by
    unfold watchedScript
    refine .bind ?_ fun o w₁ => ?_
    · rw [Watched.events_keeping]
      exact links_watchedAction hlink a w
    · cases o.returned with
      | some v => exact .nil
      | none => exact .bind (links_watchedScript hlink rest w₁) fun _ _ => .nil

end

end Scripts

/-- Whatever the constructors of a chain do, the chain is run from its last constructor on, link by link. -/
theorem chainRun_watchedConstructors (depth : Nat) (i : InstanceId) (chain : List Host.Script) (w : World) :
    ChainRun i chain ((watchedConstructors depth i chain).events w) := by
  induction depth generalizing chain w with
  | zero =>
    rcases List.eq_nil_or_concat chain with rfl | ⟨above, script, rfl⟩
    · exact .none
    · rw [List.concat_eq_append]
      unfold watchedConstructors
      rw [List.getLast?_concat, List.dropLast_concat]
      -- the constructor is entered where nothing more can be run, so its script calls nothing
      have hnone : ∀ es ∈ ([] : List (List ConstructorEvent)), ChainRun i above es := by simp
      exact .last hnone
  | succ depth ih =>
    rcases List.eq_nil_or_concat chain with rfl | ⟨above, script, rfl⟩
    · exact .none
    · rw [List.concat_eq_append]
      unfold watchedConstructors
      rw [List.getLast?_concat, List.dropLast_concat]
      dsimp only
      rw [Watched.events_tell_bind]
      have hlinks : Links i above.length (ChainRun i above)
          ((watchedScript (.ofDepth depth) (watchedConstructors depth i above) { self := i, chain := above } script
            >>= fun _ => pure ()).events w) :=
        .bind (links_watchedScript (ih above) script w) fun _ _ => .nil
      obtain ⟨calls, hcalls, hevents⟩ := hlinks
      rw [hevents]
      exact .last hcalls

/-! ## Constructions -/

section Constructions

variable {w : World} {i : InstanceId} {id : ClassId} {c : Class}

/-- Giving an instance its initial state runs the chain of the class, unless it halts before. -/
theorem events_watchedInitialState (depth : Nat) (i : InstanceId) (c : Class) (fields : Dict String Value) (w : World) :
    ChainRun i c.constructors ((watchedInitialState depth i c fields).events w) ∨
      (watchedInitialState depth i c fields).events w = [] ∧
        ∀ w', giveInitialState (.ofDepth depth) i c fields w ≠ (.ok (), w') := by
  rw [← run_watchedInitialState]
  unfold watchedInitialState
  rcases hbefore : (do
      c.descriptor.attributes.forM fun a => setAttribute i a.name a.default
      c.descriptor.properties.forM (initializeProperty (.ofDepth depth) i fields)
      (c.graph.order.filter fun name => !fields.contains name).forM
        (recomputeBinding (.ofDepth depth) i) : Run Unit) w with ⟨e | u, w₁⟩
  · right
    refine ⟨Watched.events_lift_bind_of_error hbefore, fun w' h => ?_⟩
    rw [Watched.run_bind, Watched.run_lift, bind_of_error hbefore] at h
    cases h
  · left
    rw [Watched.events_lift_bind_of_ok hbefore]
    exact chainRun_watchedConstructors depth i c.constructors w₁

theorem events_watchedPopulate (depth : Nat) (i : InstanceId) (c : Class) (fields : Dict String Value) (w : World) :
    (watchedPopulate depth i c fields).events w = (watchedInitialState depth i c fields).events w := by
  unfold watchedPopulate
  rw [Watched.events_bind_lift, Watched.events_recover_lift]

/-- A construction makes a new instance and runs the chain of the class on it, unless it halts before. -/
theorem events_watchedConcrete (depth : Nat) (init : Option Value) (hc : w.class? id = some c) :
    ChainRun ⟨w.instances.size⟩ c.constructors ((watchedConcrete depth id c init).events w) ∨
      (watchedConcrete depth id c init).events w = [] ∧
        ∀ j w', constructConcrete (.ofDepth depth) id c init w ≠ (.ok j, w') := by
  cases hfields : initialFields c.name init with
  | error e =>
    right
    have hread : ofExcept (initialFields c.name init) w = (.error (.failed e), w) := by
      rw [hfields, ofExcept_error]
    refine ⟨Watched.events_lift_bind_of_error hread, fun j w' h => ?_⟩
    obtain ⟨fields, -, hok, -⟩ := constructConcrete_ok h
    rw [hfields] at hok
    cases hok
  | ok fields =>
    have hread : ofExcept (initialFields c.name init) w = (.ok fields, w) := by
      rw [hfields, ofExcept_ok]
    unfold watchedConcrete constructConcrete
    rw [Watched.events_lift_bind_of_ok hread, bind_of_ok hread]
    cases fields.keys.find? fun k => (c.descriptor.property? k).isNone with
    | some k => exact .inr ⟨rfl, fun j w' h => by cases h⟩
    | none =>
      dsimp only
      rcases hcreate : create id c w with ⟨e | i, w₁⟩
      · right
        rw [bind_of_error hcreate]
        exact ⟨Watched.events_lift_bind_of_error hcreate, fun j w' h => by cases h⟩
      · obtain ⟨rfl, -⟩ := create_ok hc hcreate
        rw [Watched.events_lift_bind_of_ok hcreate, bind_of_ok hcreate, events_watchedPopulate]
        rcases events_watchedInitialState depth ⟨w.instances.size⟩ c fields w₁ with hchain | ⟨hnone, hhalts⟩
        · exact .inl hchain
        · refine .inr ⟨hnone, fun j w' h => ?_⟩
          obtain ⟨-, w₂, hgive, -⟩ := populate_ok h
          exact hhalts w₂ hgive

theorem events_watchedConstruct (depth : Nat) (init : Option Value) (hc : w.class? id = some c)
    (hconcrete : c.descriptor.isAbstract = false) :
    (watchedConstruct depth id init).events w = (watchedConcrete depth id c init).events w := by
  unfold watchedConstruct
  rw [Watched.events_keeping, Watched.events_lift_bind_of_ok (theClass_of hc), if_neg (by simp [hconcrete])]

theorem constructConcrete_of_constructInstance {cb : Callbacks} {init : Option Value} {j : InstanceId} {w' : World}
    (hc : w.class? id = some c) (hconcrete : c.descriptor.isAbstract = false)
    (h : constructInstance cb id init w = (.ok j, w')) : ∃ w₁, constructConcrete cb id c init w = (.ok j, w₁) := by
  unfold constructInstance at h
  rw [keeping_apply, bind_of_ok (theClass_of hc), if_neg (by simp [hconcrete])] at h
  exact ⟨_, Prod.ext (Prod.mk.inj h).1 rfl⟩

/-- A line of three classes, of which the middle one has no constructor, and one more whose constructor does not call
its super link. -/
def cards : Session :=
  (({} : Session).step (.load "main" ("<template ooml-class='Base'><b>base</b></template>" ++
    "<template ooml-class='Plain extends Base'></template><template ooml-class='Card extends Plain'></template>" ++
    "<template ooml-class='Mute extends Plain'></template>")
    [("Base", .mk [] (some [.log "base"]) none), ("Card", .mk [] (some [.callSuper, .log "card"]) none),
      ("Mute", .mk [] (some [.log "mute"]) none)])).2

/-- What happens to the constructors when an instance of one of these classes is constructed. -/
def cardEvents (id : ClassId) : List ConstructorEvent := (watchedConstruct 3 id none).events cards.world

/-- Either of the classes at the end has a line of three, with two constructors. -/
theorem cards_line {n : Nat} (hn : n ∈ [2, 3]) : ∃ line c, cards.world.class? ⟨n⟩ = some c ∧
    Line cards.world.classes ⟨n⟩ line ∧ c.descriptor.isAbstract = false ∧ line.length = 3 ∧
    (ownConstructors line).length = 2 := by
  obtain ⟨⟨hbase, hplain⟩, hlast⟩ : ((cards.world.class? ⟨0⟩).any (fun c =>
        c.descriptor.parent == none && c.descriptor.constructor.isSome) = true ∧
      (cards.world.class? ⟨1⟩).any (fun c =>
        c.descriptor.parent == some ⟨⟨0⟩, "Base"⟩ && c.descriptor.constructor.isNone) = true) ∧
      ([2, 3].all fun n => (cards.world.class? ⟨n⟩).any fun c =>
        c.descriptor.parent == some ⟨⟨1⟩, "Plain"⟩ && !c.descriptor.isAbstract && c.descriptor.constructor.isSome) =
        true := by decide +kernel
  obtain ⟨base, hbase, hbaseIs⟩ := (Option.any_eq_true _ _).1 hbase
  obtain ⟨plain, hplain, hplainIs⟩ := (Option.any_eq_true _ _).1 hplain
  obtain ⟨c, hc, hcIs⟩ := (Option.any_eq_true _ _).1 (List.all_eq_true.1 hlast n hn)
  simp only [Bool.and_eq_true, beq_iff_eq, Bool.not_eq_true', Option.isNone_iff_eq_none] at hbaseIs hplainIs hcIs
  obtain ⟨hbaseParent, hbaseOwn⟩ := hbaseIs
  obtain ⟨hplainParent, hplainOwn⟩ := hplainIs
  obtain ⟨⟨hparent, hconcrete⟩, hown⟩ := hcIs
  obtain ⟨first, hfirst⟩ := Option.isSome_iff_exists.1 hbaseOwn
  obtain ⟨own, hown⟩ := Option.isSome_iff_exists.1 hown
  refine ⟨[base] ++ [plain] ++ [c], c, hc, .child hc hparent (.child hplain hplainParent (.root hbase hbaseParent)),
    hconcrete, rfl, ?_⟩
  simp [ownConstructors, hfirst, hplainOwn, hown]

end Constructions

end Run

end ReactiveView
