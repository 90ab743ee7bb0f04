import ReactiveView.Proofs.Class.Lines
import ReactiveView.Proofs.Dict
import ReactiveView.Proofs.Loading.Compiling
import ReactiveView.Proofs.Ownership.Settle

/-!
# What a load declares

The classes that a load compiles are those whose headers can be read off the documents before anything is compiled:
there is one for each class template, with the name, the kind and the parent that its header gives
(`Run.compileAll_eq_ok`). The templates are taken in the order in which they become ready, but every one is taken, and
none takes the place of another one, because no name is declared twice.

The parent in a header is a name, and the parent of a class is a class. The name is that of the class, unless the class
is imported: it then goes by the name that the import gives it (`Class.HasHeader`).
-/

set_option autoImplicit false

namespace ReactiveView

theorem exists_forall₂ {α β : Type} {R : α → β → Prop} {as : List α} (h : ∀ a ∈ as, ∃ b, R a b) :
    ∃ bs, List.Forall₂ R as bs := by
  induction as with
  | nil => exact ⟨[], .nil⟩
  | cons a as ih =>
    obtain ⟨b, hb⟩ := h a List.mem_cons_self
    obtain ⟨bs, hbs⟩ := ih fun a' ha' => h a' (List.mem_cons_of_mem _ ha')
    exact ⟨b :: bs, .cons hb hbs⟩

/-- A class has the name, the kind and the parent that a header gives. -/
structure Class.HasHeader (imports : Dict String ClassRef) (c : Class) (h : Template.Header) : Prop where
  name : c.name = h.name
  kind : c.descriptor.isAbstract = h.isAbstract
  parent : Option.Rel (fun name ref => ref.name = name ∨ imports.get? name = some ref) h.parent c.descriptor.parent

/-- The classes of a namespace are known by their own names. -/
def Namespace.Literal (ns : Namespace) : Prop := ∀ name ref, ns.classes.get? name = some ref → ref.name = name

theorem Namespace.Literal.resolve? {ns : Namespace} (h : ns.Literal) {name : String} {ref : ClassRef}
    (href : ns.resolve? name = some ref) : ref.name = name ∨ ns.imports.get? name = some ref := by
  unfold Namespace.resolve? at href
  split at href
  · next found hfound =>
    obtain rfl := Option.some.inj href
    exact Or.inl (h name _ hfound)
  · exact Or.inr href

namespace World

variable {w : World} {space : NamespaceId} {ns : Namespace} {c d : Class} {template : Markup}

/-- A class has been compiled from a template, and is known in the namespace by its name. -/
structure CompiledFrom (w : World) (space : NamespaceId) (template : Markup) (c : Class) : Prop where
  read : ∃ r definition parent, definition.template = template ∧
    Template.parse r definition parent = .ok c.descriptor
  known : ∃ ns ref, w.space? space = some ns ∧ ns.classes.get? c.name = some ref ∧ w.class? ref.id = some c

/-- The classes of a namespace are the ones compiled from the class templates of a document. They have the headers, in
document order. -/
structure Compiles (w : World) (space : NamespaceId) (document : List Markup) (headers : List Template.Header)
    (classes : List Class) : Prop where
  templates : List.Forall₂ (w.CompiledFrom space) (Template.classTemplates document) classes
  nodup : (headers.map (·.name)).Nodup
  headers : ∃ ns, w.space? space = some ns ∧ List.Forall₂ (Class.HasHeader ns.imports) classes headers ∧
    ∀ n, ns.classes.contains n = true ↔ n ∈ headers.map (·.name)

/-! ## Adding a class -/

/-- A namespace that knows one class more. -/
def knowing (w : World) (ns : Namespace) (c : Class) : Namespace :=
  { ns with classes := ns.classes.insert c.name ⟨(w.pushClass c).1, c.name⟩ }

theorem space?_withClass (hns : w.space? space = some ns) (c : Class) :
    (w.withClass space c).space? space = some (w.knowing ns c) := by
  have hpush : (w.pushClass c).2.space? space = some ns := hns
  unfold withClass
  rw [space?_modifySpace_self, hpush]
  rfl

theorem class?_withClass_self (w : World) (space : NamespaceId) (c : Class) :
    (w.withClass space c).class? (w.pushClass c).1 = some c :=
  Table.get?_push_self w.classes c

theorem class?_withClass {id : ClassId} (hd : w.class? id = some d) (space : NamespaceId) (c : Class) :
    (w.withClass space c).class? id = some d := by
  have hlt : id.index < w.classes.size := (Array.getElem?_eq_some_iff.1 hd).1
  exact (Table.get?_push_of_lt w.classes c _ hlt).trans hd

theorem literal_knowing (h : ns.Literal) (w : World) (c : Class) : (w.knowing ns c).Literal := by
  intro name ref href
  unfold knowing at href
  by_cases heq : name = c.name
  · rw [heq, Dict.get?_insert_self] at href
    obtain rfl := Option.some.inj href
    exact heq.symm
  · rw [Dict.get?_insert_of_ne _ _ _ _ (Ne.symm heq)] at href
    exact h name ref href

theorem contains_knowing (w : World) (ns : Namespace) (c : Class) (name : String) :
    (w.knowing ns c).classes.contains name = (name == c.name || ns.classes.contains name) := by
  unfold knowing Dict.contains
  by_cases heq : name = c.name
  · subst heq
    simp [Dict.get?_insert_self]
  · simp [Dict.get?_insert_of_ne _ _ _ _ (Ne.symm heq), heq]

/-- A class stays known while others are added under other names. -/
theorem CompiledFrom.withClass (h : w.CompiledFrom space template d) (hne : d.name ≠ c.name) :
    (w.withClass space c).CompiledFrom space template d := by
  obtain ⟨hread, ns, ref, hns, href, hd⟩ := h
  refine ⟨hread, w.knowing ns c, ref, space?_withClass hns c, ?_, class?_withClass hd space c⟩
  unfold knowing
  dsimp only
  rw [Dict.get?_insert_of_ne _ _ _ _ (Ne.symm hne), href]

/-- Between two worlds templates have been compiled in a namespace, and what was known has stayed known. -/
structure Declares (w : World) (space : NamespaceId) (ns : Namespace) (pending : List PendingClass) (w' : World) :
    Prop where
  names : ∃ ns', w'.space? space = some ns' ∧ ns'.imports = ns.imports ∧
    ∀ n, ns'.classes.contains n = true ↔ n ∈ PendingClass.names pending ∨ ns.classes.contains n = true
  old : ∀ template c, ns.classes.contains c.name = true → w.CompiledFrom space template c →
    w'.CompiledFrom space template c
  new : ∀ p ∈ pending, ∃ c, c.HasHeader ns.imports p.header ∧ w'.CompiledFrom space p.template c

theorem Declares.nil (hns : w.space? space = some ns) : w.Declares space ns [] w where
  names := ⟨ns, hns, rfl, fun n => by simp [PendingClass.names]⟩
  old _ _ _ h := h
  new p hp := absurd hp List.not_mem_nil

/-- The order in which templates wait does not matter. -/
theorem Declares.perm {w' : World} {pending pending' : List PendingClass} (h : w.Declares space ns pending w')
    (hperm : pending'.Perm pending) : w.Declares space ns pending' w' where
  names := by
    obtain ⟨ns', hns', himports, hnames⟩ := h.names
    have hsame : (PendingClass.names pending').Perm (PendingClass.names pending) := hperm.map _
    refine ⟨ns', hns', himports, fun n => ?_⟩
    rw [hsame.mem_iff, hnames]
  old := h.old
  new p hp := h.new p (hperm.mem_iff.1 hp)

/-- One template is compiled, under a name that is not known, and then the others. -/
theorem Declares.cons {w' : World} {p : PendingClass} {pending : List PendingClass}
    (hfree : ns.classes.contains p.header.name = false) (hheader : c.HasHeader ns.imports p.header)
    (hc : (w.withClass space c).CompiledFrom space p.template c)
    (h : (w.withClass space c).Declares space (w.knowing ns c) pending w') :
    w.Declares space ns (p :: pending) w' where
  names := by
    obtain ⟨ns', hns', himports, hnames⟩ := h.names
    have hcons : PendingClass.names (p :: pending) = c.name :: PendingClass.names pending :=
      congrArg (· :: PendingClass.names pending) hheader.name.symm
    refine ⟨ns', hns', himports, fun n => ?_⟩
    rw [hnames, contains_knowing, hcons, List.mem_cons, Bool.or_eq_true, beq_iff_eq, or_left_comm, or_assoc]
  old template d hd hold := by
    have hne : d.name ≠ c.name := by
      intro heq
      rw [heq, hheader.name, hfree] at hd
      cases hd
    apply h.old template d
    · rw [contains_knowing, hd, Bool.or_true]
    · exact hold.withClass hne
  new p' hp' := by
    rcases List.mem_cons.1 hp' with rfl | hp'
    · refine ⟨c, hheader, h.old _ c ?_ hc⟩
      rw [contains_knowing, beq_self_eq_true, Bool.true_or]
    · exact h.new p' hp'

end World

/-! ## Reading the headers -/

namespace PendingClass

/-- What waits to be compiled are the templates, in their order, with headers that can be read and names that are
new and different from each other. -/
theorem headers_of_gather {known : String → Bool} {seen : List String} {ms : List Markup} {ps : List PendingClass}
    (h : gather known seen ms = .ok ps) :
    Template.readHeaders ms = .ok (ps.map (·.header)) ∧ ps.map (·.template) = ms ∧ (names ps).Nodup ∧
      ∀ n ∈ names ps, known n = false ∧ n ∉ seen := by
  induction ms generalizing seen ps with
  | nil =>
    obtain rfl := Except.ok.inj h
    exact ⟨rfl, rfl, List.nodup_nil, fun n hn => absurd hn List.not_mem_nil⟩
  | cons m ms ih =>
    obtain ⟨header, rest, hheader, hknown, hseen, hrest, rfl⟩ := gather_cons_ok h
    obtain ⟨hread, htemplates, hnodup, hnames⟩ := ih hrest
    refine ⟨?_, ?_, ?_, ?_⟩
    · unfold Template.readHeaders
      rw [hheader, hread]
      rfl
    · rw [List.map_cons, htemplates]
    · refine List.nodup_cons.2 ⟨fun hmem => ?_, hnodup⟩
      exact (hnames _ hmem).2 List.mem_cons_self
    · intro n hn
      rcases List.mem_cons.1 hn with rfl | hn
      · exact ⟨hknown, hseen⟩
      · exact ⟨(hnames n hn).1, fun hmem => (hnames n hn).2 (List.mem_cons_of_mem _ hmem)⟩

end PendingClass

namespace Run

open World

variable {space : NamespaceId} {behaviors : Behaviors} {w w' : World} {ns : Namespace} {p : PendingClass}
  {pending : List PendingClass}

/-! ## Compiling one template -/

/-- The parent that is found is the one that the header names. -/
theorem parent_of_parentOf (hns : w.space? space = some ns) (hliteral : ns.Literal) {header : Template.Header}
    {parent : Option (ClassRef × Class)} (h : parentOf space header w = (.ok parent, w')) :
    Option.Rel (fun name ref => ref.name = name ∨ ns.imports.get? name = some ref) header.parent
      (parent.map (·.1)) := by
  unfold parentOf at h
  cases hname : header.parent with
  | none =>
    rw [hname] at h
    obtain rfl := Except.ok.inj (Prod.mk.inj h).1
    exact .none
  | some name =>
    rw [hname] at h
    obtain ⟨ref, _, hresolve, hrest⟩ := bind_eq_ok_iff.1 h
    obtain ⟨rfl, found, hfound, href⟩ := resolveIn_eq_ok hresolve
    obtain rfl := Option.some.inj (hns.symm.trans hfound)
    obtain ⟨c, _, -, hpure⟩ := bind_eq_ok_iff.1 hrest
    obtain rfl := Except.ok.inj (Prod.mk.inj hpure).1
    exact .some (hliteral.resolve? href)

/-- A template that is compiled becomes a class with its header. -/
theorem compileClass_eq_ok (hns : w.space? space = some ns) (hliteral : ns.Literal)
    (h : compileClass space behaviors p w = (.ok (), w')) :
    ∃ c, w' = w.withClass space c ∧ c.HasHeader ns.imports p.header ∧ w'.CompiledFrom space p.template c := by
  rcases hparent : parentOf space p.header w with ⟨_ | parent, w₁⟩
  · unfold compileClass at h
    rw [bind_of_error hparent] at h
    cases h
  · obtain ⟨rfl, -⟩ := parentOf_eq_ok hparent
    have hnamed := parent_of_parentOf hns hliteral hparent
    rw [compileClass_apply hns hparent] at h
    cases hcompiled : p.compiled? space behaviors ns parent with
    | error e =>
      rw [hcompiled] at h
      cases h
    | ok c =>
      rw [hcompiled] at h
      obtain rfl := (Prod.mk.inj h).2
      unfold PendingClass.compiled? at hcompiled
      cases hparse : Template.parse ns.reading (p.definition behaviors) (parent.map fun e => (e.1, e.2.descriptor)) with
      | error e =>
        rw [hparse] at hcompiled
        cases hcompiled
      | ok d =>
        rw [hparse] at hcompiled
        obtain rfl := Class.descriptor_of_compile hcompiled
        obtain ⟨hown, habstract, hup, -⟩ := Template.heading_of_parse hparse
        refine ⟨c, rfl, ⟨hown, habstract, ?_⟩, ⟨_, _, _, rfl, hparse⟩, ?_⟩
        · rw [hup, Option.map_map]
          exact hnamed
        · refine ⟨_, ⟨(w₁.pushClass c).1, c.name⟩, space?_withClass hns c, ?_, class?_withClass_self w₁ space c⟩
          exact Dict.get?_insert_self _ _ _

/-! ## Compiling all -/

/-- Every template that waits is compiled, and what was known stays known. -/
theorem compilePending_eq_ok {fuel : Nat} (hns : w.space? space = some ns) (hliteral : ns.Literal)
    (hfresh : ∀ n ∈ PendingClass.names pending, ns.classes.contains n = false)
    (hnodup : (PendingClass.names pending).Nodup)
    (h : compilePending space behaviors fuel pending w = (.ok (), w')) : w.Declares space ns pending w' := by
  induction fuel generalizing w ns pending with
  | zero =>
    cases pending with
    | nil =>
      obtain rfl := (Prod.mk.inj h).2
      exact .nil hns
    | cons p ps => cases h
  | succ fuel ih =>
    cases pending with
    | nil =>
      obtain rfl := (Prod.mk.inj h).2
      exact .nil hns
    | cons p ps =>
      rw [compilePending_cons hns] at h
      cases hready : PendingClass.firstReady? ns.knows (p :: ps) with
      | none =>
        rw [hready] at h
        cases h
      | some found =>
        obtain ⟨q, rest⟩ := found
        rw [hready] at h
        obtain ⟨_, w₁, hfirst, hrest⟩ := bind_eq_ok_iff.1 h
        obtain ⟨c, rfl, hheader, hcompiled⟩ := compileClass_eq_ok hns hliteral hfirst
        -- the one that is taken has a name that the others have not
        have hperm := PendingClass.firstReady?_perm hready
        have hnames : (PendingClass.names (p :: ps)).Perm (q.header.name :: PendingClass.names rest) :=
          hperm.map fun p : PendingClass => p.header.name
        obtain ⟨hnew, hothers⟩ := List.nodup_cons.1 (hnames.nodup_iff.1 hnodup)
        have hfreshRest : ∀ n ∈ PendingClass.names rest, (w.knowing ns c).classes.contains n = false := by
          intro n hn
          have hne : n ≠ c.name := by
            rintro rfl
            exact hnew (hheader.name ▸ hn)
          rw [contains_knowing, hfresh n (hnames.mem_iff.2 (List.mem_cons_of_mem _ hn))]
          simp [hne]
        have hdeclares := ih (space?_withClass hns c) (literal_knowing hliteral w c) hfreshRest hothers hrest
        exact (hdeclares.cons (hfresh _ (hnames.mem_iff.2 List.mem_cons_self)) hheader hcompiled).perm hperm

/-- A load into a namespace without classes compiles one class from each class template, with the header that can be
read off the template. -/
theorem compileAll_eq_ok {document : List Markup} (hns : w.space? space = some ns) (hempty : ns.classes = [])
    (h : compileAll space behaviors [document] w = (.ok (), w')) :
    ∃ headers classes, Template.readHeaders (Template.classTemplates document) = .ok headers ∧
      w'.Compiles space document headers classes := by
  unfold compileAll at h
  rw [bind_of_ok (theSpace_of hns)] at h
  obtain ⟨pending, _, hwaiting, hchecked⟩ := bind_eq_ok_iff.1 h
  obtain ⟨hgather, rfl⟩ := ofExcept_eq_ok hwaiting
  rw [List.flatMap_singleton] at hgather
  rw [bind_of_ok (known_of hns)] at hchecked
  obtain ⟨hread, htemplates, hnodup, hfresh⟩ := PendingClass.headers_of_gather hgather
  have hnone (n : String) : ns.classes.contains n = false := by
    rw [hempty]
    rfl
  have hliteral : ns.Literal := by
    intro name ref href
    rw [hempty] at href
    cases href
  cases hmissing : PendingClass.missing? ns.knows pending with
  | some name =>
    rw [hmissing] at hchecked
    cases hchecked
  | none =>
    rw [hmissing] at hchecked
    obtain ⟨⟨ns', hns', himports, hcontains⟩, -, hall⟩ :=
      compilePending_eq_ok hns hliteral (fun n _ => hnone n) hnodup hchecked
    obtain ⟨classes, hclasses⟩ := exists_forall₂ hall
    have hnames : PendingClass.names pending = (pending.map (·.header)).map (·.name) := (List.map_map ..).symm
    refine ⟨pending.map (·.header), classes, hread, ?_, hnames ▸ hnodup, ns', hns', ?_, fun n => ?_⟩
    · rw [← htemplates, List.forall₂_map_left_iff]
      exact hclasses.imp fun _ _ hc => hc.2
    · rw [himports, List.forall₂_map_right_iff]
      exact (hclasses.imp fun _ _ hc => hc.1).flip
    · rw [hcontains, hnone, hnames]
      simp

end Run

end ReactiveView
