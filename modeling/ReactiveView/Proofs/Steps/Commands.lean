import ReactiveView.Host.Perform
import ReactiveView.Proofs.Steps.Construction

/-!
# Commands proceed by elementary changes

A command of a host, and every action of a script, proceeds by elementary changes, since it is put together
from the operations that do (`proceeds_perform`, `proceeds_runScript`). What is called back at any depth is
such a command or script again, so callbacks of every depth are steady (`Callbacks.steadyBy_ofDepth`).
-/

set_option autoImplicit false

namespace ReactiveView

/-- The root of an object takes over the attributes of a marker, apart from the one that makes it a marker. -/
def World.takeOver (w : World) (m r : NodeId) : World :=
  w.mapForest fun f => ((f.attrs m).filter fun a => a.name.tag != Template.markerAttr).foldl
    (fun f a => f.setAttr r a.name a.value) f

namespace Run

open World

variable {α β : Type} {w w' : World} {cb : Callbacks} {R S : World → World → Prop} [IsStepping S]

theorem Keeps.mapM [IsPreorder World R] {f : α → Run β} (hf : ∀ a, Keeps R (f a)) (as : List α) :
    Keeps R (as.mapM f) := by
  induction as with
  | nil =>
    rw [List.mapM_nil]
    exact keeps_pure _
  | cons a as ih =>
    rw [List.mapM_cons]
    exact (hf a).bind fun _ => ih.bind fun _ => keeps_pure _

theorem proceeds_modifySpace {n : NamespaceId} {f : Namespace → Namespace}
    (hf : ∀ ns, (f ns).queue = ns.queue) : ProceedsBy S w (w.modifySpace n f) :=
  (Step.space n f hf).proceedsBy (fastens_of_instances rfl)

/-! ## Loading -/

theorem keeps_parentOf [IsPreorder World R] (space : NamespaceId) (h : Template.Header) :
    Keeps R (parentOf space h) := by
  unfold parentOf
  split
  · exact keeps_pure _
  · exact (keeps_resolveIn space _).bind fun ref => (keeps_theClass ref.id).bind fun _ => keeps_pure _

/-- A name that is resolved is one that the namespace knows. -/
theorem resolveIn_eq_ok {space : NamespaceId} {name : String} {ref : ClassRef}
    (hok : resolveIn space name w = (.ok ref, w')) :
    w' = w ∧ ∃ ns, w.space? space = some ns ∧ ns.resolve? name = some ref := by
  unfold resolveIn at hok
  obtain ⟨ns, _, hspace, hrest⟩ := bind_eq_ok_iff.1 hok
  obtain ⟨hns, rfl⟩ := theSpace_eq_ok hspace
  cases href : ns.resolve? name with
  | none =>
    rw [href] at hrest
    cases hrest
  | some r =>
    rw [href] at hrest
    obtain ⟨heq, hworld⟩ := Prod.mk.inj hrest
    exact ⟨hworld.symm, ns, hns, href.trans (congrArg some (Except.ok.inj heq))⟩

/-- The parent that a template names is a class of the world. -/
theorem parentOf_eq_ok {space : NamespaceId} {h : Template.Header} {parent : Option (ClassRef × Class)}
    (hok : parentOf space h w = (.ok parent, w')) :
    w' = w ∧ ∀ p, parent = some p → w.class? p.1.id = some p.2 := by
  unfold parentOf at hok
  cases hname : h.parent with
  | none =>
    rw [hname] at hok
    obtain ⟨hp, rfl⟩ := Prod.mk.inj hok
    obtain rfl := Except.ok.inj hp
    exact ⟨rfl, fun p hp => by cases hp⟩
  | some name =>
    rw [hname] at hok
    obtain ⟨ref, _, hresolve, hrest⟩ := bind_eq_ok_iff.1 hok
    obtain ⟨rfl, -⟩ := resolveIn_eq_ok hresolve
    obtain ⟨c, _, hclass, hpure⟩ := bind_eq_ok_iff.1 hrest
    obtain ⟨hc, rfl⟩ := theClass_eq_ok hclass
    obtain ⟨hp, rfl⟩ := Prod.mk.inj hpure
    obtain rfl := Except.ok.inj hp
    refine ⟨rfl, fun p hp => ?_⟩
    obtain rfl := Option.some.inj hp
    exact hc

/-- A class that is compiled is added after its parent. -/
theorem proceeds_compileClass (space : NamespaceId) (behaviors : Behaviors) (p : PendingClass) :
    Keeps (ProceedsBy S) (compileClass space behaviors p) := by
  intro w hw
  refine steps_bind (keeps_parentOf space p.header) hw fun parent w hparent _ _ => ?_
  obtain ⟨rfl, hparent⟩ := parentOf_eq_ok hparent
  refine steps_bind (keeps_theSpace space) hw fun ns w hspace _ _ => ?_
  obtain ⟨hns, rfl⟩ := theSpace_eq_ok hspace
  refine steps_bind (keeps_ofExcept _) hw fun d w hread _ _ => ?_
  obtain ⟨hparse, rfl⟩ := ofExcept_eq_ok hread
  refine steps_bind (keeps_ofExcept _) hw fun c w hcompiled _ _ => ?_
  obtain ⟨hcompile, rfl⟩ := ofExcept_eq_ok hcompiled
  have hpush : w.Step (w.pushClass c).2 := by
    refine .addClass c (fun hT => ?_) ⟨space, ns, hns, Class.queue_compile hcompile⟩
    exact .push hT _ _ parent hparent d hparse (some space) ns.queue _ c hcompile
  rw [bind_of_ok (change_apply _ _)]
  exact .head (hpush.by_instances rfl) (.single (Step.by_instances (.space space _ fun _ => rfl) rfl))

theorem keeps_known [IsPreorder World R] (space : NamespaceId) : Keeps R (known space) :=
  (keeps_theSpace space).bind fun _ => keeps_pure _

theorem proceeds_compilePending (space : NamespaceId) (behaviors : Behaviors) (fuel : Nat)
    (pending : List PendingClass) : Keeps (ProceedsBy S) (compilePending space behaviors fuel pending) := by
  induction fuel generalizing pending with
  | zero =>
    cases pending with
    | nil => exact keeps_pure _
    | cons p ps => exact keeps_fail _
  | succ fuel ih =>
    cases pending with
    | nil => exact keeps_pure _
    | cons p ps =>
      refine (keeps_known space).bind fun known => ?_
      split
      · exact keeps_fail _
      · exact (proceeds_compileClass space behaviors _).bind fun _ => ih _

theorem proceeds_compileAll (space : NamespaceId) (behaviors : Behaviors)
    (documents : List (List Markup)) : Keeps (ProceedsBy S) (compileAll space behaviors documents) := by
  refine (keeps_theSpace space).bind fun ns => (keeps_ofExcept _).bind fun pending => ?_
  refine (keeps_known space).bind fun known => ?_
  split
  · exact keeps_fail _
  · exact proceeds_compilePending space behaviors _ pending

theorem proceeds_constructFromText (hcb : cb.SteadyBy S) (id : ClassId) (text : String) :
    Keeps (ProceedsBy S) (constructFromText cb id text) :=
  (keeps_ofExcept _).bind fun _ => hcb.construct id _

theorem proceeds_constructMarked (hcb : cb.SteadyBy S) (id : ClassId) (marker : NodeId) :
    Keeps (ProceedsBy S) (constructMarked cb id marker) := by
  refine (keeps_ask _).bind fun text => ?_
  split
  · exact hcb.construct id none
  · exact proceeds_constructFromText hcb id text

/-- A root takes over attributes of a marker one by one. -/
theorem steps_setAttrs {i : InstanceId} {r m : NodeId} (hr : w.rootOf? i = some r)
    (hm : (w.forest.attr? m Template.markerAttr).isSome = true) (as : List Attr)
    (has : ∀ a ∈ as, (w.forest.attr? m a.name.tag).isSome = true) :
    StepsBy S w (w.mapForest fun f => as.foldl (fun f a => f.setAttr r a.name a.value) f) := by
  induction as generalizing w with
  | nil => exact .refl
  | cons a as ih =>
    have hkeep {t : String} (ht : (w.forest.attr? m t).isSome = true) :=
      Forest.isSome_attr?_setAttr w.forest r a.name a.value ht
    exact .head (Step.by_instances (.mark hr hm a (has a List.mem_cons_self)) rfl)
      (ih (w := w.mapForest fun f => f.setAttr r a.name a.value) hr (hkeep hm)
        fun a' ha' => hkeep (has a' (List.mem_cons_of_mem _ ha')))

theorem isSome_attr?_of_mem_attrs {f : Forest} {n : NodeId} {a : Attr} (ha : a ∈ f.attrs n) :
    (f.attr? n a.name.tag).isSome = true := by
  unfold Forest.attr? attrValue?
  rw [Option.isSome_map, List.find?_isSome]
  exact ⟨a, ha, by simp⟩

theorem steps_takeOver {i : InstanceId} {r m : NodeId} (hr : w.rootOf? i = some r)
    (hm : (w.forest.attr? m Template.markerAttr).isSome = true) : StepsBy S w (w.takeOver m r) :=
  steps_setAttrs hr hm _ fun _ ha => isSome_attr?_of_mem_attrs (List.mem_filter.1 ha).1

/-- What a marker asks for is put in its place, if it is a marker at all. -/
theorem proceeds_placeMarker (hcb : cb.SteadyBy S) (space : NamespaceId) (marker : NodeId) :
    Keeps (ProceedsBy S) (placeMarker cb space marker) := by
  intro w hw
  unfold placeMarker
  rw [bind_of_ok (ask_apply _ w)]
  generalize hwords : (Text.words ((w.forest.attr? marker Template.markerAttr).getD "").toList).map String.ofList =
    words
  split
  · next className objectName =>
    have hm : (w.forest.attr? marker Template.markerAttr).isSome = true := by
      by_contra hnone
      rw [Option.not_isSome_iff_eq_none.1 hnone] at hwords
      cases hwords
    refine steps_bind (keeps_theSpace space) hw fun ns w₁ hspace _ _ => ?_
    obtain ⟨-, rfl⟩ := theSpace_eq_ok hspace
    dsimp only
    split
    · exact .refl
    · refine steps_bind (keeps_resolveIn space _) hw fun ref w₂ hresolve _ _ => ?_
      obtain ⟨rfl, -⟩ := resolveIn_eq_ok hresolve
      refine steps_bind (proceeds_constructMarked hcb ref.id marker) hw fun i w₃ _ hw₃ hsteps => ?_
      refine steps_bind (keeps_theRoot i) hw₃ fun root w₄ hroot _ _ => ?_
      obtain ⟨hroot, rfl⟩ := theRoot_eq_ok hroot
      have htake := steps_takeOver (S := S) hroot (Steps.isSome_attr? hsteps.steps hw hm)
      have hput := upkeep_insertAfter (R := ProceedsBy S) (w := w₄.takeOver marker root) hroot marker
      rw [bind_of_ok (update_apply _ _)]
      refine htake.trans (keeps_bind_at hput (fun _ w => ?_) (StepsBy.sound htake hw₃))
      exact upkeep_trans (IsLettingGo.unlink w marker) (proceeds_modifySpace fun _ => rfl)
  · exact .refl

theorem proceeds_placeMarkers (hcb : cb.SteadyBy S) (space : NamespaceId) (document : NodeId) :
    Keeps (ProceedsBy S) (placeMarkers cb space document) := by
  refine Keeps.scope ((keeps_ask _).bind fun markers => ?_)
  refine (Keeps.forM (fun n => keeps_pin _) _).bind fun _ => Keeps.forM (fun n => ?_) _
  exact (proceeds_placeMarker hcb space n).scope.bind fun _ => keeps_unpin _

theorem putsRoots_plantDocument (w : World) (trees : List Markup) : w.PutsRoots (w.forest.plantDocument trees).2 := by
  intro n p hp
  rcases Nat.lt_or_ge n.index w.forest.size with hold | hnew
  · exact Or.inl ((Forest.recorded?_plantDocument w.forest trees hold).symm.trans hp)
  · exact Or.inr (Or.inl hnew)

theorem proceeds_loadDocuments (hcb : cb.SteadyBy S) (space : NamespaceId) (behaviors : Behaviors)
    (sources : List String) : Keeps (ProceedsBy S) (loadDocuments cb space behaviors sources) := by
  refine Keeps.scope ((keeps_pin _).bind fun _ => ?_)
  refine (proceeds_compileAll space behaviors _).bind fun _ => ?_
  refine (Keeps.mapM (fun trees => ?_) _).bind fun tops => ?_
  · refine Keeps.bind (fun w => ?_) fun n => (keeps_pin _).bind fun _ => keeps_pure _
    exact IsUpkeep.moves w _ (.plantDocument w.forest trees) (putsRoots_plantDocument w trees)
  · refine (Keeps.forM (proceeds_placeMarkers hcb space) _).bind fun _ => ?_
    exact Keeps.bind (fun w => proceeds_modifySpace fun _ => rfl) fun _ => keeps_pure _

/-! ## Targets and labels -/

theorem keeps_target [IsNoting R] (frame : Option Frame) (name : Option String) :
    Keeps R (target frame name) := by
  unfold target
  split
  · exact keeps_running frame
  · split
    · exact keeps_pure _
    · exact keeps_labelled _
  · exact keeps_labelled _

theorem keeps_theColl [IsNoting R] (v : Value) : Keeps R (theColl v) :=
  (keeps_ofOption _).bind fun _ => (keeps_pin _).bind fun _ => keeps_pure _

theorem keeps_collectionAt [IsNoting R] (frame : Option Frame) (ref : Host.CollectionRef) :
    Keeps R (collectionAt frame ref) := by
  cases ref with
  | property owner name =>
    exact (keeps_target frame owner).bind fun i => (keeps_getProperty i name).bind fun v => keeps_theColl v
  | held label =>
    exact keeps_get.bind fun _ => (keeps_ofOption _).bind fun _ => (keeps_pin _).bind fun _ => keeps_pure _

theorem keeps_register [IsUpkeep R] (label : String) (i : InstanceId) : Keeps R (register label i) :=
  keeps_update_quiet (fun _ => rfl) (fun _ => rfl) (fun _ => rfl) (fun _ => rfl) fun _ => rfl

theorem keeps_registerAs [IsUpkeep R] (label : Option String) (i : InstanceId) :
    Keeps R (registerAs label i) :=
  Keeps.forM_option (fun l => keeps_register l i) label

theorem keeps_found [IsUpkeep R] (label : Option String) (i : Option InstanceId) :
    Keeps R (found label i) := by
  cases i with
  | none => exact keeps_pure _
  | some i => exact (keeps_registerAs label i).bind fun _ => (keeps_ask _).bind fun _ => keeps_pure _

theorem keeps_foundAll [IsUpkeep R] (labels : List String) (is : List InstanceId) :
    Keeps R (foundAll labels is) :=
  (Keeps.forM (fun e : String × InstanceId => keeps_register e.1 e.2) _).bind fun _ =>
    (Keeps.mapM (fun _ => keeps_ask _) is).bind fun _ => keeps_pure _

theorem keeps_madeAnswer [IsUpkeep R] (label : Option String) (i : InstanceId) :
    Keeps R (madeAnswer label i) :=
  (keeps_registerAs label i).bind fun _ => keeps_ask _

/-! ## Commands -/

/-- A namespace comes with a queue of its own. -/
theorem steps_addSpace (w : World) (settings : Settings) (imports : Dict String ClassRef) {w' : World}
    (hs : w'.screen = (w.screen.addQueue settings.writeDelay).2) (hc : w'.classes = w.classes)
    (hi : w'.instances = w.instances) (hk : w'.collections = w.collections)
    (hn : w'.spaces = w.spaces.push
      { settings := settings, queue := (w.screen.addQueue settings.writeDelay).1, imports := imports }) :
    StepsBy S w w' :=
  .head (Step.by_instances (.addSpace settings.writeDelay
    { settings := settings, queue := (w.screen.addQueue settings.writeDelay).1, imports := imports } rfl) rfl)
    (.single (Step.by_instances (.quiet hs hc hi hk hn) hi))

theorem proceeds_spaceNamed (name : String) : Keeps (ProceedsBy S) (spaceNamed name) := by
  refine keeps_get.bind fun w => ?_
  split
  · exact keeps_pure _
  · intro w hw
    exact steps_addSpace w _ _ rfl rfl rfl rfl rfl

theorem proceeds_importClass (e : String × String × String) : Keeps (ProceedsBy S) (importClass e) :=
  (proceeds_spaceNamed _).bind fun space => (keeps_resolveIn space _).bind fun _ => keeps_pure _

theorem proceeds_createNamespace (name : String) (settings : Option Json)
    (imports : List (String × String × String)) :
    Keeps (ProceedsBy S) (createNamespace name settings imports) := by
  refine (keeps_ofExcept _).bind fun settings => (Keeps.mapM proceeds_importClass imports).bind fun imports => ?_
  refine Keeps.bind (fun w hw => ?_) fun _ => keeps_pure _
  exact steps_addSpace w _ _ rfl rfl rfl rfl rfl

theorem proceeds_poll (q : QueueId) (delta : Int) :
    Keeps (ProceedsBy S) (change fun w =>
      let (n, screen) := w.screen.pollAfterDeadline q delta
      (n, { w with screen := screen })) := by
  intro w hw
  rw [change_apply]
  rcases w.screen.pollAfterDeadline_eq q delta with h | h
  · rw [h]
  · rw [h]
    exact .single (Step.by_instances (.flush q) rfl)

theorem proceeds_onNamespace (hcb : cb.SteadyBy S) (frame : Option Frame) (name : String)
    (op : Host.NamespaceOp) : Keeps (ProceedsBy S) (onNamespace cb frame name op) := by
  have hspace := proceeds_spaceNamed (S := S) name
  cases op with
  | create settings imports => exact proceeds_createNamespace name settings imports
  | names => exact hspace.bind fun n => (keeps_theSpace n).bind fun _ => keeps_pure _
  | debug => exact hspace.bind fun n => (keeps_theSpace n).bind fun _ => keeps_pure _
  | document position tag =>
    refine hspace.bind fun n => (keeps_theSpace n).bind fun ns => ?_
    unfold documentElements
    split
    · exact keeps_pure _
    · exact keeps_ask _
  | classSummary className =>
    exact hspace.bind fun n => (keeps_resolveIn n _).bind fun _ => (keeps_theClass _).bind fun _ => keeps_ask _
  | classDescriptor className =>
    exact hspace.bind fun n => (keeps_resolveIn n _).bind fun _ => (keeps_theClass _).bind fun _ => keeps_pure _
  | isA className other =>
    exact hspace.bind fun n => (keeps_resolveIn n _).bind fun _ => (keeps_resolveIn n _).bind fun _ => keeps_ask _
  | construct className init label =>
    exact hspace.bind fun n => (keeps_resolveIn n _).bind fun _ => (keeps_evaluateOption frame _).bind fun _ =>
      (hcb.construct _ _).bind fun i => keeps_madeAnswer label i
  | constructText className text label =>
    exact hspace.bind fun n => (keeps_resolveIn n _).bind fun ref =>
      (proceeds_constructFromText hcb ref.id text).bind fun i => keeps_madeAnswer label i
  | constructWith className factory init label =>
    exact hspace.bind fun n => (keeps_resolveIn n _).bind fun ref => (keeps_evaluateOption frame _).bind fun _ =>
      (proceeds_constructThrough hcb ref.id n factory _).bind fun i => keeps_madeAnswer label i
  | object objectName label =>
    refine hspace.bind fun n => (keeps_theSpace n).bind fun ns => ?_
    split
    · exact keeps_pure _
    · exact keeps_madeAnswer label _
  | flush =>
    exact hspace.bind fun n => (keeps_theSpace n).bind fun ns => (proceeds_flushQueue ns.queue).bind fun _ =>
      keeps_pure _
  | poll delta =>
    refine hspace.bind fun n => (keeps_theSpace n).bind fun ns => ?_
    exact (proceeds_poll ns.queue delta).bind fun _ => keeps_pure _
  | queue =>
    exact hspace.bind fun n => (keeps_theSpace n).bind fun _ => keeps_get.bind fun _ =>
      (keeps_ofOption _).bind fun _ => keeps_pure _

theorem proceeds_load (hcb : cb.SteadyBy S) (name : String) (sources : List String) (behaviors : Behaviors)
    (tellNumber : Bool) : Keeps (ProceedsBy S) (load cb name sources behaviors tellNumber) := by
  refine (proceeds_spaceNamed name).bind fun n => (proceeds_loadDocuments hcb n behaviors sources).bind fun _ => ?_
  exact (keeps_theSpace n).bind fun _ => keeps_pure _

theorem proceeds_onInstance (hcb : cb.SteadyBy S) (frame : Option Frame) (i : InstanceId)
    (op : Host.InstanceOp) : Keeps (ProceedsBy S) (onInstance cb frame i op) := by
  cases op with
  | get name label =>
    exact (keeps_getProperty i name).bind fun v => (Keeps.forM_option (keeps_registerAs label) _).bind fun _ =>
      keeps_ask _
  | set name v =>
    exact (keeps_evaluate frame v).bind fun v => (proceeds_setProperty hcb i name v).bind fun _ => keeps_pure _
  | attr name => exact (keeps_getAttribute i name).bind fun _ => keeps_ask _
  | attrs =>
    exact ((keeps_theClassOf i).bind fun _ => (keeps_theInstance i).bind fun _ => keeps_pure _).bind
      fun _ => keeps_ask _
  | setAttr name v =>
    exact (keeps_evaluate frame v).bind fun v => (proceeds_setAttribute i name v).bind fun _ => keeps_pure _
  | setAttrs values =>
    exact (keeps_evaluateFields frame values).bind fun vs => (proceeds_setAttributes i _).bind fun _ => keeps_pure _
  | assign v =>
    exact (keeps_evaluate frame v).bind fun v => (proceeds_assign hcb i v).bind fun _ => keeps_pure _
  | values => exact (keeps_theInstance i).bind fun _ => keeps_ask _
  | toObject => exact keeps_ask _
  | toJson => exact keeps_ask _
  | html => exact keeps_ask _
  | text => exact (keeps_theRoot i).bind fun _ => keeps_ask _
  | classOf => exact (keeps_theClassOf i).bind fun _ => keeps_ask _
  | same other => exact (keeps_target frame _).bind fun _ => keeps_pure _
  | debug => exact (keeps_theClassOf i).bind fun _ => (keeps_theInstance i).bind fun _ => keeps_ask _
  | state => exact (keeps_theRoot i).bind fun _ => keeps_ask _
  | attach parent name =>
    exact (keeps_target frame _).bind fun p => (proceeds_attach hcb i p name).bind fun _ => keeps_pure _
  | detach => exact (proceeds_detach hcb i).bind fun _ => keeps_pure _
  | exposed key =>
    refine (keeps_theInstance i).bind fun x => ?_
    split
    · exact keeps_pure _
    · exact keeps_ask _
  | call name data =>
    exact (keeps_evaluate frame data).bind fun v => (proceeds_callMethod hcb i name none v).bind fun _ => keeps_ask _
  | dispatch name data =>
    exact (keeps_evaluate frame data).bind fun v => (proceeds_dispatchEvent hcb i name v).bind fun _ => keeps_pure _
  | domEvent path event data =>
    exact (keeps_theRoot i).bind fun _ => keeps_get.bind fun _ => (keeps_ofOption _).bind fun n =>
      (keeps_pin _).bind fun _ => (keeps_evaluate frame data).bind fun v =>
        (proceeds_handleHostEvent hcb i n event v).bind fun _ => keeps_pure _
  | trigger key event data =>
    exact (keeps_evaluate frame data).bind fun v => (proceeds_trigger hcb i key event v).bind fun _ => keeps_pure _
  | hold name label =>
    refine (keeps_getProperty i name).bind fun v => (keeps_theColl v).bind fun c => ?_
    exact Keeps.bind (keeps_update_quiet (fun _ => rfl) (fun _ => rfl) (fun _ => rfl) (fun _ => rfl) fun _ => rfl)
      fun _ => keeps_pure _

theorem proceeds_onCollection (hcb : cb.SteadyBy S) (frame : Option Frame) (k : CollectionId)
    (op : Host.CollectionOp) : Keeps (ProceedsBy S) (onCollection cb frame k op) := by
  cases op with
  | push v => exact (keeps_evaluate frame v).bind fun v => (proceeds_push hcb k v).bind fun _ => keeps_pure _
  | unshift v => exact (keeps_evaluate frame v).bind fun v => (proceeds_unshift hcb k v).bind fun _ => keeps_pure _
  | pop label => exact (proceeds_pop hcb k).bind fun _ => keeps_found label _
  | shift label => exact (proceeds_shift hcb k).bind fun _ => keeps_found label _
  | remove position label => exact (proceeds_removeItem hcb k position).bind fun _ => keeps_found label _
  | get position label => exact keeps_get.bind fun _ => keeps_found label _
  | insert position v =>
    exact (keeps_evaluate frame v).bind fun v => (proceeds_insertItem hcb k position v).bind fun _ => keeps_pure _
  | move source target => exact (proceeds_moveItem hcb k source target).bind fun _ => keeps_pure _
  | splice start count values labels =>
    exact (keeps_evaluateItems frame values).bind fun vs => (proceeds_splice hcb k start count vs).bind fun is =>
      keeps_foundAll labels is
  | replaceAll values labels =>
    exact (keeps_evaluateItems frame values).bind fun vs => (proceeds_replaceAll hcb k vs).bind fun is =>
      keeps_foundAll labels is
  | items => exact keeps_get.bind fun _ => (Keeps.mapM (fun _ => keeps_ask _) _).bind fun _ => keeps_pure _
  | indexOf item => exact (keeps_target frame _).bind fun _ => keeps_ask _
  | info => exact (keeps_theCollection k).bind fun _ => keeps_ask _
  | debug => exact keeps_ask _
  | toArray start stop => exact keeps_ask _
  | toJson start stop indentation =>
    exact keeps_get.bind fun _ => (keeps_ofExcept _).bind fun _ => keeps_pure _

/-- Every command proceeds by elementary changes. -/
theorem proceeds_perform (hcb : cb.SteadyBy S) (frame : Option Frame) (c : Host.Command) :
    Keeps (ProceedsBy S) (perform cb frame c) := by
  cases c with
  | namespaceOp name op => exact proceeds_onNamespace hcb frame name op
  | load name html behaviors => exact proceeds_load hcb name _ behaviors _
  | loadFiles name files directory behaviors =>
    exact (keeps_ofExcept _).bind fun entries => proceeds_load hcb name _ behaviors _
  | instanceOp name op => exact (keeps_target frame name).bind fun i => proceeds_onInstance hcb frame i op
  | listen name kind event tag script =>
    exact (keeps_target frame name).bind fun i => (keeps_ofExcept _).bind fun kind =>
      (proceeds_listen i kind event _).bind fun _ => keeps_pure _
  | drop label =>
    refine (keeps_ask _).bind fun there => Keeps.bind ?_ fun _ => keeps_pure _
    exact keeps_update_quiet (fun _ => rfl) (fun _ => rfl) (fun _ => rfl) (fun _ => rfl) fun _ => rfl
  | collectionOp source op => exact (keeps_collectionAt frame source).bind fun k => proceeds_onCollection hcb frame k op

/-! ## Scripts -/

mutual

theorem proceeds_runAction (hcb : cb.SteadyBy S) (frame : Frame) :
    ∀ a : Host.Action, Keeps (ProceedsBy S) (runAction cb frame a)
  | .log text => by
    unfold runAction
    exact (keeps_note _).bind fun _ => keeps_pure _
  | .give value => by
    unfold runAction
    exact (keeps_evaluate _ value).bind fun _ => keeps_pure _
  | .fail e => by
    unfold runAction
    exact keeps_fail e
  | .branch left right yes no => by
    unfold runAction
    refine (keeps_evaluate _ left).bind fun a => (keeps_evaluate _ right).bind fun b => ?_
    split
    · exact proceeds_runScript hcb frame yes
    · exact proceeds_runScript hcb frame no
  | .callSuper => by
    unfold runAction
    exact (keeps_note _).bind fun _ => (proceeds_runConstructors hcb _ _).bind fun _ => keeps_pure _
  | .prevent => by
    unfold runAction
    exact keeps_pure _
  | .emit name data => by
    unfold runAction
    exact (keeps_evaluate _ data).bind fun v => (hcb.dispatch _ name v).bind fun _ => keeps_pure _
  | .command c => by
    unfold runAction
    exact (proceeds_perform hcb (some frame) c).bind fun _ => keeps_pure _

theorem proceeds_runScript (hcb : cb.SteadyBy S) (frame : Frame) :
    ∀ s : List Host.Action, Keeps (ProceedsBy S) (runScript cb frame s)
  | [] => by
    unfold runScript
    exact keeps_pure _
  | a :: rest => by
    unfold runScript
    refine (proceeds_runAction hcb frame a).scope.bind fun o => ?_
    split
    · exact keeps_pure _
    · exact (proceeds_runScript hcb frame rest).bind fun _ => keeps_pure _

end

end Run

namespace Callbacks

open ReactiveView.Run

variable {S : World → World → Prop} [IsStepping S]

theorem steadyBy_exhausted : exhausted.SteadyBy S where
  construct _ _ := keeps_throw _
  accepts _ _ _ _ _ _ hok := by cases hok
  script _ _ := keeps_throw _
  dispatch _ _ _ := keeps_throw _

/-- However deeply calls may be nested, what is called back is steady. -/
theorem steadyBy_ofDepth (depth : Nat) : (ofDepth depth).SteadyBy S := by
  induction depth with
  | zero => exact steadyBy_exhausted
  | succ depth ih =>
    exact {
      construct := proceeds_constructInstance ih
      accepts := fun _ _ _ _ _ hw hok name => accepts_constructInstance ih hw hok name
      script := proceeds_runScript ih
      dispatch := proceeds_dispatchEvent ih }

theorem steady_ofDepth (depth : Nat) : (ofDepth depth).Steady := steady_iff.2 (steadyBy_ofDepth depth)

end Callbacks

end ReactiveView
