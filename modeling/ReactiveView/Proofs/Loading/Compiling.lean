import ReactiveView.Proofs.Steps.Runs
import ReactiveView.Proofs.Template.Lookups

/-!
# Compiling the templates of a load

Compiling one template comes down to one computation that may fail (`PendingClass.compiled?`), in the namespace
as it is when the template is taken; if it ends well, the class is added to the world and to the namespace
(`compileClass_apply`). The loop takes the templates one after the other: `Takes` tells which template it takes
in which world, and a loop that fails does so because all that are left wait, or where it compiles a template
that it has taken (`failed_of_compilePending`).

`dependencies_scanned` states that waiting is enough: all that is looked up while a template is read is known by
the time the template is taken, and a load reports a class that is not known only before it compiles anything.
-/

set_option autoImplicit false

namespace ReactiveView

/-- The setting in which the templates of a namespace are read. -/
def Namespace.reading (ns : Namespace) : Template.Reading := ⟨ns.resolve?, ns.settings.strictNames⟩

/-- Whether a name stands for a class in a namespace. -/
def Namespace.knows (ns : Namespace) (name : String) : Bool := (ns.resolve? name).isSome

namespace PendingClass

/-- A template with what the host supplies for it. -/
def definition (behaviors : Behaviors) (p : PendingClass) : Template.Definition where
  header := p.header
  template := p.template
  methods := (behaviors.of p.header.name).methods
  constructor := (behaviors.of p.header.name).constructor

/-- The class that a template is compiled to in a namespace, given its parent. -/
def compiled? (space : NamespaceId) (behaviors : Behaviors) (ns : Namespace) (p : PendingClass)
    (parent : Option (ClassRef × Class)) : Except Error Class := do
  let d ← Template.parse ns.reading (p.definition behaviors) (parent.map fun e => (e.1, e.2.descriptor))
  Class.compile d (parent.map fun e => (e.1.id, e.2)) (some space) ns.queue (behaviors.of p.header.name).factory

end PendingClass

/-- A world with a class added to it and to a namespace. -/
def World.withClass (w : World) (space : NamespaceId) (c : Class) : World :=
  (w.pushClass c).2.modifySpace space fun ns =>
    { ns with classes := ns.classes.insert c.name ⟨(w.pushClass c).1, c.name⟩ }

theorem Class.descriptor_of_compile {d : Descriptor} {parent : Option (ClassId × Class)}
    {ns : Option NamespaceId} {queue : QueueId} {factory : Option Host.Factory} {c : Class}
    (h : Class.compile d parent ns queue factory = .ok c) : c.descriptor = d := by
  unfold Class.compile at h
  (repeat' split at h) <;> cases h <;> rfl

theorem Class.compile_ne_unknownClass (d : Descriptor) (parent : Option (ClassId × Class))
    (ns : Option NamespaceId) (queue : QueueId) (factory : Option Host.Factory) (n : String) :
    Class.compile d parent ns queue factory ≠ .error (.unknownClass n) := by
  intro h
  unfold Class.compile at h
  split at h
  · cases h
  · split at h
    · cases h
    · split at h
      · next e he =>
        obtain rfl := Except.error.inj h
        unfold Graph.of at he
        dsimp only at he
        split at he
        · cases he
        · cases he
      · cases h

namespace Run

variable {space : NamespaceId} {behaviors : Behaviors} {w w' : World} {ns : Namespace} {p : PendingClass}

theorem theSpace_of (h : w.space? space = some ns) : theSpace space w = (.ok ns, w) := by
  change (ofOption (w.space? space)) w = _
  rw [h, ofOption_some]

theorem theSpace_of_none (h : w.space? space = none) : theSpace space w = (.error .lost, w) := by
  change (ofOption (w.space? space)) w = _
  rw [h, ofOption_none]

theorem known_of (h : w.space? space = some ns) : known space w = (.ok ns.knows, w) := by
  unfold known
  rw [bind_of_ok (theSpace_of h)]
  rfl

/-- Compiling a template whose parent has been found. -/
theorem compileClass_apply {parent : Option (ClassRef × Class)} (hns : w.space? space = some ns)
    (hparent : parentOf space p.header w = (.ok parent, w)) :
    compileClass space behaviors p w =
      match p.compiled? space behaviors ns parent with
      | .error e => (.error (.failed e), w)
      | .ok c => (.ok (), w.withClass space c) := by
  unfold compileClass PendingClass.compiled?
  rw [bind_of_ok hparent, bind_of_ok (theSpace_of hns)]
  change (ofExcept (Template.parse ns.reading (p.definition behaviors) _) >>= _) w = _
  cases hd : Template.parse ns.reading (p.definition behaviors) (parent.map fun e => (e.1, e.2.descriptor)) with
  | error e => exact bind_of_error (ofExcept_error e w)
  | ok d =>
    rw [bind_of_ok (ofExcept_ok d w)]
    cases hc : Class.compile d (parent.map fun e => (e.1.id, e.2)) (some space) ns.queue
        (behaviors.of p.header.name).factory with
    | error e =>
      refine (bind_of_error (ofExcept_error e w)).trans ?_
      change _ = match Class.compile d _ _ _ _ with | .error e => _ | .ok c => _
      rw [hc]
    | ok c =>
      refine (bind_of_ok (ofExcept_ok c w)).trans ?_
      change _ = match Class.compile d _ _ _ _ with | .error e => _ | .ok c => _
      rw [hc]
      have hname : c.name = d.name := congrArg Descriptor.name (Class.descriptor_of_compile hc)
      dsimp only
      rw [bind_of_ok (change_apply _ w), update_apply]
      unfold World.withClass
      rw [hname]

/-- A parent that is known is found, or its class has been lost. -/
theorem parentOf_error {h : Template.Header} {e : Halt} (hns : w.space? space = some ns)
    (hparent : ∀ n, h.parent = some n → ns.knows n = true)
    (hrun : parentOf space h w = (.error e, w')) : e = .lost := by
  unfold parentOf at hrun
  cases hname : h.parent with
  | none =>
    rw [hname] at hrun
    cases hrun
  | some name =>
    obtain ⟨ref, href⟩ := Option.isSome_iff_exists.1 (hparent name hname)
    have hresolve : resolveIn space name w = (.ok ref, w) := by
      unfold resolveIn
      rw [bind_of_ok (theSpace_of hns), href]
      rfl
    rw [hname] at hrun
    change (resolveIn space name >>= _) w = _ at hrun
    rw [bind_of_ok hresolve] at hrun
    cases hc : w.class? ref.id with
    | none =>
      rw [bind_of_error (theClass_of_none hc)] at hrun
      cases hrun
      rfl
    | some c =>
      rw [bind_of_ok (theClass_of hc)] at hrun
      cases hrun

/-- A template all of whose look-ups are known does not fail for a class that is not known. -/
theorem compileClass_ne_unknownClass (hns : w.space? space = some ns)
    (hknown : ∀ n ∈ Template.lookups p.header p.template, ns.knows n = true) (n : String) :
    compileClass space behaviors p w ≠ (.error (.failed (.unknownClass n)), w') := by
  intro h
  rcases hparent : parentOf space p.header w with ⟨r, w₁⟩
  cases r with
  | error e =>
    have hlost : e = .lost := by
      refine parentOf_error hns (fun m hm => hknown m ?_) hparent
      exact List.mem_append_left _ (by rw [hm]; exact List.mem_singleton.2 rfl)
    unfold compileClass at h
    rw [bind_of_error hparent, hlost] at h
    cases h
  | ok parent =>
    obtain ⟨rfl, -⟩ := parentOf_eq_ok hparent
    rw [compileClass_apply hns hparent] at h
    cases hc : p.compiled? space behaviors ns parent with
    | ok c =>
      rw [hc] at h
      cases h
    | error e =>
      rw [hc] at h
      cases h
      rcases Template.error_of_bind hc with hparse | ⟨d, -, hcompile⟩
      · have hmem := (Template.looksUp_of_parse hparse).mem_lookups
        have hsome := hknown n hmem
        unfold Namespace.knows at hsome
        rw [show ns.resolve? n = none from Template.lost_of_parse hparse] at hsome
        cases hsome
      · exact Class.compile_ne_unknownClass _ _ _ _ _ n hcompile

end Run

/-! ## The loop -/

namespace PendingClass

/-- Taking a template leaves the others. -/
theorem firstReady?_perm {known : String → Bool} {ps rest : List PendingClass} {p : PendingClass}
    (h : firstReady? known ps = some (p, rest)) : ps.Perm (p :: rest) := by
  induction ps generalizing rest with
  | nil => cases h
  | cons q qs ih =>
    unfold firstReady? at h
    split at h
    · cases h
      exact .refl _
    · obtain ⟨found, hfound, heq⟩ := Option.map_eq_some_iff.1 h
      cases heq
      exact ((ih hfound).cons q).trans (.swap _ _ _)

theorem gather_cons_ok {known : String → Bool} {seen : List String} {m : Markup} {ms : List Markup}
    {ps : List PendingClass} (h : gather known seen (m :: ms) = .ok ps) :
    ∃ header rest, Template.readHeader m = .ok header ∧ known header.name = false ∧ header.name ∉ seen ∧
      gather known (header.name :: seen) ms = .ok rest ∧
      ps = ⟨header, m, Template.requires header m⟩ :: rest := by
  unfold gather at h
  split at h
  · cases h
  · next header hheader =>
    split at h
    · cases h
    · next hfresh =>
      simp only [Bool.or_eq_true, not_or, Bool.not_eq_true, List.contains_eq_mem, decide_eq_false_iff_not]
        at hfresh
      cases hrest : gather known (header.name :: seen) ms with
      | error e =>
        rw [hrest] at h
        cases h
      | ok rest =>
        rw [hrest] at h
        cases h
        exact ⟨header, rest, hheader, hfresh.1, hfresh.2, hrest, rfl⟩

/-- Each template waits for what the scan finds in it. -/
theorem requires_of_mem_gather {known : String → Bool} {seen : List String} {ms : List Markup}
    {ps : List PendingClass} (h : gather known seen ms = .ok ps) {p : PendingClass} (hp : p ∈ ps) :
    p.requires = Template.requires p.header p.template := by
  induction ms generalizing seen ps with
  | nil =>
    cases h
    exact absurd hp List.not_mem_nil
  | cons m ms ih =>
    obtain ⟨header, rest, -, -, -, hrest, rfl⟩ := gather_cons_ok h
    rcases List.mem_cons.1 hp with rfl | hp
    · rfl
    · exact ih hrest hp

theorem readHeader_ne_unknownClass (m : Markup) (n : String) :
    Template.readHeader m ≠ .error (.unknownClass n) := by
  have hdeclaration (isAbstract : Bool) (s : String) :
      Template.Header.ofDeclaration isAbstract s ≠ .error (.unknownClass n) := by
    intro h
    unfold Template.Header.ofDeclaration at h
    dsimp only at h
    (repeat' split at h) <;> cases h
  intro h
  unfold Template.readHeader at h
  split at h
  · exact hdeclaration _ _ h
  · exact hdeclaration _ _ h
  · cases h
  · cases h

/-- Reading the headers asks for no class. -/
theorem gather_ne_unknownClass (known : String → Bool) (seen : List String) (ms : List Markup) (n : String) :
    gather known seen ms ≠ .error (.unknownClass n) := by
  induction ms generalizing seen with
  | nil => nofun
  | cons m ms ih =>
    intro h
    unfold gather at h
    split at h
    · next e he =>
      cases h
      exact readHeader_ne_unknownClass m n he
    · next header _ =>
      split at h
      · cases h
      · cases hrest : gather known (header.name :: seen) ms with
        | error e =>
          rw [hrest] at h
          cases h
          exact ih _ hrest
        | ok rest =>
          rw [hrest] at h
          cases h

end PendingClass

/-- Compiling the templates `pending` from `w` on, the loop comes to take the template `p` in the world `w'`:
the first that is ready is taken now, or a later one after this has been compiled. -/
inductive Takes (space : NamespaceId) (behaviors : Behaviors) :
    World → List PendingClass → World → PendingClass → Prop
  | now {w : World} {ns : Namespace} {pending rest : List PendingClass} {p : PendingClass}
      (hns : w.space? space = some ns) (hp : PendingClass.firstReady? ns.knows pending = some (p, rest)) :
      Takes space behaviors w pending w p
  | later {w w₁ w' : World} {ns : Namespace} {pending rest : List PendingClass} {p p' : PendingClass}
      (hns : w.space? space = some ns) (hp : PendingClass.firstReady? ns.knows pending = some (p, rest))
      (hc : Run.compileClass space behaviors p w = (.ok (), w₁)) (h : Takes space behaviors w₁ rest w' p') :
      Takes space behaviors w pending w' p'

/-- A template that is taken was among those that waited, and all that it waits for is known by then. -/
theorem Takes.ready {space : NamespaceId} {behaviors : Behaviors} {w w' : World} {pending : List PendingClass}
    {p : PendingClass} (h : Takes space behaviors w pending w' p) :
    p ∈ pending ∧ ∃ ns, w'.space? space = some ns ∧ ∀ n ∈ p.requires, ns.knows n = true := by
  induction h with
  | @now w ns pending rest p hns hp =>
    obtain ⟨hmem, hready⟩ := PendingClass.firstReady?_mem _ _ _ _ hp
    exact ⟨hmem, ns, hns, List.all_eq_true.1 hready⟩
  | later hns hp hc h ih =>
    exact ⟨(PendingClass.firstReady?_perm hp).mem_iff.2 (List.mem_cons_of_mem _ ih.1), ih.2⟩

namespace Run

variable {space : NamespaceId} {behaviors : Behaviors} {w w' : World} {ns : Namespace}

theorem compilePending_cons {fuel : Nat} {p : PendingClass} {ps : List PendingClass}
    (hns : w.space? space = some ns) :
    compilePending space behaviors (fuel + 1) (p :: ps) w =
      match PendingClass.firstReady? ns.knows (p :: ps) with
      | none => (.error (.failed (.circularClasses (PendingClass.names (p :: ps)))), w)
      | some (q, rest) => (compileClass space behaviors q >>= fun _ =>
          compilePending space behaviors fuel rest) w := by
  rw [compilePending]
  · rw [bind_of_ok (known_of hns)]
    cases PendingClass.firstReady? ns.knows (p :: ps) <;> rfl
  · nofun

/-- If the loop fails, then all that are left wait, or it has taken a template that fails to compile. -/
theorem failed_of_compilePending {fuel : Nat} {pending : List PendingClass} {e : Error}
    (h : compilePending space behaviors fuel pending w = (.error (.failed e), w')) :
    (∃ names, e = .circularClasses names) ∨
      ∃ p w₁, Takes space behaviors w pending w₁ p ∧
        compileClass space behaviors p w₁ = (.error (.failed e), w') := by
  induction fuel generalizing pending w with
  | zero =>
    cases pending with
    | nil => cases h
    | cons p ps =>
      cases h
      exact Or.inl ⟨_, rfl⟩
  | succ fuel ih =>
    cases pending with
    | nil => cases h
    | cons p ps =>
      cases hns : w.space? space with
      | none =>
        have hlost : known space w = (.error .lost, w) := bind_of_error (theSpace_of_none hns)
        rw [compilePending] at h
        · rw [bind_of_error hlost] at h
          cases h
        · nofun
      | some ns =>
        rw [compilePending_cons hns] at h
        cases hp : PendingClass.firstReady? ns.knows (p :: ps) with
        | none =>
          rw [hp] at h
          cases h
          exact Or.inl ⟨_, rfl⟩
        | some found =>
          obtain ⟨q, rest⟩ := found
          rw [hp] at h
          dsimp only at h
          rcases hc : compileClass space behaviors q w with ⟨r, w₁⟩
          cases r with
          | error e' =>
            rw [bind_of_error hc] at h
            cases h
            exact Or.inr ⟨q, w, .now hns hp, hc⟩
          | ok _ =>
            rw [bind_of_ok hc] at h
            refine (ih h).imp_right ?_
            rintro ⟨p', w₂, htakes, hfails⟩
            exact ⟨p', w₂, .later hns hp hc htakes, hfails⟩

/-- Loading stops for a class that is not known only where the headers have been read and nothing has been
compiled. -/
theorem missing_of_compileAll {documents : List (List Markup)} {n : String}
    (h : compileAll space behaviors documents w = (.error (.failed (.unknownClass n)), w')) :
    w' = w ∧ ∃ ns pending, w.space? space = some ns ∧
      PendingClass.gather ns.classes.contains [] (documents.flatMap Template.classTemplates) = .ok pending ∧
      PendingClass.missing? ns.knows pending = some n := by
  unfold compileAll at h
  cases hns : w.space? space with
  | none =>
    rw [bind_of_error (theSpace_of_none hns)] at h
    cases h
  | some ns =>
    rw [bind_of_ok (theSpace_of hns)] at h
    cases hgather : PendingClass.gather ns.classes.contains [] (documents.flatMap Template.classTemplates) with
    | error e =>
      rw [hgather, bind_of_error (ofExcept_error e w)] at h
      cases h
      exact absurd hgather (PendingClass.gather_ne_unknownClass _ _ _ n)
    | ok pending =>
      rw [hgather, bind_of_ok (ofExcept_ok pending w), bind_of_ok (known_of hns)] at h
      cases hmissing : PendingClass.missing? ns.knows pending with
      | some m =>
        rw [hmissing] at h
        cases h
        exact ⟨rfl, ns, pending, rfl, hgather, hmissing⟩
      | none =>
        rw [hmissing] at h
        rcases failed_of_compilePending h with ⟨names, hnames⟩ | ⟨p, w₁, htakes, hfails⟩
        · cases hnames
        · obtain ⟨hp, ns₁, hns₁, hready⟩ := htakes.ready
          refine absurd hfails (compileClass_ne_unknownClass hns₁ (fun m hm => hready m ?_) n)
          rw [PendingClass.requires_of_mem_gather hgather hp]
          exact Template.lookups_subset_requires _ _ hm

/-- Whatever is loaded: when a template is taken for compiling, every class that is looked up while it is read is
known already, its parent among them; and the only failure for a class that is not known comes from the check
that is made once the headers have been read, which leaves everything as it was. -/
theorem dependencies_scanned (space : NamespaceId) (behaviors : Behaviors) (documents : List (List Markup))
    (w : World) :
    (∀ ns pending, w.space? space = some ns →
      PendingClass.gather ns.classes.contains [] (documents.flatMap Template.classTemplates) = .ok pending →
      ∀ w' p, Takes space behaviors w pending w' p → ∃ ns', w'.space? space = some ns' ∧
        ∀ parent n, Template.LooksUp ns'.reading (p.definition behaviors) parent n → ns'.knows n = true) ∧
    ∀ n w', compileAll space behaviors documents w = (.error (.failed (.unknownClass n)), w') →
      w' = w ∧ ∃ ns pending, w.space? space = some ns ∧
        PendingClass.gather ns.classes.contains [] (documents.flatMap Template.classTemplates) = .ok pending ∧
        PendingClass.missing? ns.knows pending = some n := by
  refine ⟨fun ns pending hns hgather w' p htakes => ?_, fun n w' h => missing_of_compileAll h⟩
  obtain ⟨hp, ns', hns', hready⟩ := htakes.ready
  refine ⟨ns', hns', fun parent n hn => hready n ?_⟩
  rw [PendingClass.requires_of_mem_gather hgather hp]
  exact Template.lookups_subset_requires _ _ hn.mem_lookups

/-- A world with an empty namespace. -/
def openWorld : World where
  screen := (({} : Screen).addQueue 16).2
  spaces := ⟨#[{ settings := {}, queue := ⟨0⟩ }]⟩

/-- The board comes before the tile that it refers to: it waits, and is taken once the tile has been compiled;
without the tile nothing is loaded. -/
theorem boardDocument_spec :
    ((match PendingClass.gather [].contains [] [boardTemplate, tileTemplate] with
      | .ok [b, t] =>
        b.header.name == "Board" && !b.isReady (fun _ => false) && t.isReady (fun _ => false) &&
          match compileClass ⟨0⟩ [] t openWorld with
          | (.ok _, w) => (w.space? ⟨0⟩).any fun ns => b.isReady ns.knows
          | _ => false
      | _ => false) &&
      match (compileAll ⟨0⟩ [] [[boardTemplate]] openWorld).1 with
      | .error (.failed (.unknownClass n)) => n == "Tile"
      | _ => false) = true := by decide +kernel

theorem dependencies_scanned_board :
    (∃ pending w p ns, PendingClass.gather [].contains [] [boardTemplate, tileTemplate] = .ok pending ∧
      Takes ⟨0⟩ [] openWorld pending w p ∧ p.header.name = "Board" ∧ w.space? ⟨0⟩ = some ns ∧
      ∀ parent n, Template.LooksUp ns.reading (p.definition []) parent n → ns.knows n = true) ∧
    ∃ w, compileAll ⟨0⟩ [] [[boardTemplate]] openWorld = (.error (.failed (.unknownClass "Tile")), w) ∧
      w = openWorld := by
  have hspec := boardDocument_spec
  rw [Bool.and_eq_true] at hspec
  obtain ⟨hboard, hunknown⟩ := hspec
  constructor
  · split at hboard
    · next b t hgather =>
      simp only [Bool.and_eq_true, beq_iff_eq, Bool.not_eq_true'] at hboard
      obtain ⟨⟨⟨hname, hwaits⟩, hready⟩, hcompiled⟩ := hboard
      split at hcompiled
      · next w hc =>
        obtain ⟨ns, hns, hknown⟩ := (Option.any_eq_true _ _).1 hcompiled
        have hfirst : PendingClass.firstReady? (fun _ => false) [b, t] = some (t, [b]) := by
          simp [PendingClass.firstReady?, hwaits, hready]
        have hsecond : PendingClass.firstReady? ns.knows [b] = some (b, []) := by
          simp [PendingClass.firstReady?, hknown]
        have htakes : Takes ⟨0⟩ [] openWorld [b, t] w b := .later rfl hfirst hc (.now hns hsecond)
        obtain ⟨ns', hns', hlooks⟩ := (dependencies_scanned ⟨0⟩ [] [[boardTemplate, tileTemplate]] openWorld).1
          _ _ rfl hgather w b htakes
        exact ⟨[b, t], w, b, ns', hgather, htakes, hname, hns', hlooks⟩
      · cases hcompiled
    · cases hboard
  · rcases hrun : compileAll ⟨0⟩ [] [[boardTemplate]] openWorld with ⟨r, w⟩
    rw [hrun] at hunknown
    dsimp only at hunknown
    split at hunknown
    · next n =>
      obtain rfl := beq_iff_eq.1 hunknown
      have hw := ((dependencies_scanned ⟨0⟩ [] [[boardTemplate]] openWorld).2 _ w hrun).1
      exact ⟨w, rfl, hw⟩
    · cases hunknown

end Run

end ReactiveView
