import ReactiveView.Proofs.Closed.Construction
import ReactiveView.Proofs.Steps.Commands
import ReactiveView.Session

/-!
# Commands keep worlds regular

A command leaves a regular world regular (`Run.stays_perform`), and so does what is called back at any depth
(`Callbacks.careful_ofDepth`): whatever is registered under a label, named as an object or told to a script has
been made or found before.
-/

set_option autoImplicit false

namespace ReactiveView

namespace Run

open World

variable {α β : Type} {w w' : World} {cb : Callbacks} {i : InstanceId} {frame : Option Frame}

/-! ## Loading -/

/-- A class that is compiled is added after its parent. -/
theorem regrows_compileClass (space : NamespaceId) (behaviors : Behaviors) (p : PendingClass) :
    Keeps Regrows (compileClass space behaviors p) := by
  refine Stays.keeps fun w => .bind_read (R := fun _ _ => True) (keeps_parentOf space p.header) fun parent hparent => ?_
  obtain ⟨-, hparent⟩ := parentOf_eq_ok hparent
  refine .bind_read (keeps_theSpace space) fun ns hspace => ?_
  refine .bind_read (keeps_ofExcept _) fun d hread => .bind_read (keeps_ofExcept _) fun c hcompiled => ?_
  have hparse := (ofExcept_eq_ok hread).1
  have hcompile := (ofExcept_eq_ok hcompiled).1
  have hpush : w.Regrows (w.pushClass c).2 := regrows_pushClass fun hT =>
    .push hT _ _ parent hparent d hparse (some space) ns.queue _ c hcompile
  have hchange : Stays (change fun w => w.pushClass c) w fun _ _ => True := fun hw =>
    ⟨(hpush hw).1, (hpush hw).2, fun _ _ => trivial⟩
  refine hchange.bind fun id w₁ _ _ => .update ?_ fun _ => trivial
  exact regrows_modifySpace space fun hw ns hns => hw.object space ns hns

theorem regrows_compilePending (space : NamespaceId) (behaviors : Behaviors) (fuel : Nat)
    (pending : List PendingClass) : Keeps Regrows (compilePending space behaviors fuel pending) := by
  induction fuel generalizing pending with
  | zero =>
    cases pending with
    | nil => exact keeps_pure _
    | cons p ps => exact keeps_fail _
  | succ fuel ih =>
    cases pending with
    | nil => exact keeps_pure _
    | cons p ps =>
      refine (keeps_known space).bind fun known => ?_
      split
      · exact keeps_fail _
      · exact (regrows_compileClass space behaviors _).bind fun _ => ih _

theorem regrows_compileAll (space : NamespaceId) (behaviors : Behaviors)
    (documents : List (List Markup)) : Keeps Regrows (compileAll space behaviors documents) := by
  refine (keeps_theSpace space).bind fun ns => (keeps_ofExcept _).bind fun pending => ?_
  refine (keeps_known space).bind fun known => ?_
  split
  · exact keeps_fail _
  · exact regrows_compilePending space behaviors _ pending

section Loading

variable (hcb : cb.Careful)

include hcb

theorem stays_constructMarked (id : ClassId) (marker : NodeId) :
    Stays (constructMarked cb id marker) w fun i w' => w'.Knows i := by
  refine .after (keeps_ask _) fun text w₁ _ => ?_
  split
  · exact hcb.construct id none w₁
  · exact stays_constructFromText hcb id text

/-- The object that a marker asks for is named after it has been made. -/
theorem regrows_placeMarker (space : NamespaceId) (marker : NodeId) : Keeps Regrows (placeMarker cb space marker) := by
  refine Stays.keeps fun w => .after (R := fun _ _ => True) (keeps_ask _) fun declaration w₁ _ => ?_
  split
  · refine .after (keeps_theSpace space) fun ns w₂ _ => ?_
    dsimp only
    split
    · exact .fail_bind _
    · refine .after (keeps_resolveIn space _) fun ref w₃ _ => ?_
      refine (stays_constructMarked hcb ref.id marker).bind fun i w₄ _ hi => .after (keeps_theRoot i) fun root w₅ hl₅ => ?_
      refine Stays.after (fun w => regrows_mapForest ?_) fun _ w₆ hl₆ => ?_
      · exact .foldl (fun f a => .setAttr f root _ _) _ _
      · refine .after (regrows_edit fun f => .insertAfter f marker root) fun _ w₇ hl₇ => ?_
        have hi := ((hi.larger hl₅).larger hl₆).larger hl₇
        have hunlink : w₇.Regrows (w₇.mapForest fun f => f.unlink marker) := regrows_mapForest (.unlink _ marker)
        refine .update (IsTrans.trans _ _ _ hunlink ?_) fun _ => trivial
        refine regrows_modifySpace space fun hw ns hns e he => ?_
        exact (Dict.eq_or_mem_of_mem_insert he).elim (fun heq => heq ▸ hi) (hw.object space ns hns e)
  · exact .fail _

theorem regrows_placeMarkers (space : NamespaceId) (document : NodeId) :
    Keeps Regrows (placeMarkers cb space document) := by
  refine Keeps.inScope_regrows ((keeps_ask _).bind fun markers => ?_)
  refine (Keeps.forM (fun n => Stays.keeps fun _ => stays_pin (by intro j hj; cases hj)) _).bind fun _ => ?_
  refine Keeps.forM (fun n => ?_) _
  exact (regrows_placeMarker hcb space n).inScope_regrows.bind fun _ => regrows_unpin _

theorem regrows_loadDocuments (space : NamespaceId) (behaviors : Behaviors) (sources : List String) :
    Keeps Regrows (loadDocuments cb space behaviors sources) := by
  have hpin (h : Held) (hnone : ∀ j, h ≠ .inst j) : Keeps Regrows (pin h) :=
    Stays.keeps fun _ => stays_pin fun j hj => absurd hj (hnone j)
  refine Keeps.inScope_regrows ((hpin _ fun j hj => by cases hj).bind fun _ => ?_)
  refine (regrows_compileAll space behaviors _).bind fun _ => ?_
  refine (Keeps.mapM (fun trees => ?_) _).bind fun tops => ?_
  · refine Keeps.bind (fun w => ?_) fun n => (hpin _ fun j hj => by cases hj).bind fun _ => keeps_pure _
    exact regrows_mapForest (f := fun f => (f.plantDocument trees).2) (.plantDocument w.forest trees)
  · refine (Keeps.forM (regrows_placeMarkers hcb space) _).bind fun _ => ?_
    refine Keeps.bind (fun w => regrows_modifySpace space fun hw ns hns => hw.object space ns hns) fun _ => ?_
    exact keeps_pure _

end Loading

/-! ## Targets and labels -/

theorem stays_target (hframe : ∀ f ∈ frame, w.KnowsFrame f) (name : Option String) :
    Stays (target frame name) w fun i w' => w'.Knows i := by
  unfold target
  split
  · exact stays_running hframe
  · next f =>
    split
    · exact .pure (hframe f rfl).self
    · exact stays_labelled _
  · exact stays_labelled _

theorem regrows_theColl (v : Value) : Keeps Regrows (theColl v) :=
  (keeps_ofOption _).bind fun _ =>
    Keeps.bind (Stays.keeps fun _ => stays_pin (by intro j hj; cases hj)) fun _ => keeps_pure _

theorem stays_collectionAt (hframe : ∀ f ∈ frame, w.KnowsFrame f) (ref : Host.CollectionRef) :
    Stays (collectionAt frame ref) w fun _ _ => True := by
  cases ref with
  | property owner name =>
    refine (stays_target hframe owner).bind fun i _ _ _ => .after (keeps_getProperty i name) fun v _ _ => ?_
    exact .of_keeps (regrows_theColl v)
  | held label =>
    refine .after keeps_get fun _ _ _ => .after (keeps_ofOption _) fun k _ _ => ?_
    exact (stays_pin (by intro j hj; cases hj)).bind fun _ _ _ _ => .pure trivial

/-- What gets a label is there. -/
theorem stays_register (hi : w.Knows i) (label : String) : Stays (register label i) w fun _ _ => True := by
  refine .update (regrows_of_same rfl rfl rfl rfl .rfl fun _ j hj => ?_) fun _ => trivial
  rcases List.mem_append.1 hj with hpin | hlabel
  · exact Or.inl (List.mem_append_left _ hpin)
  · obtain ⟨e, he, rfl⟩ := List.mem_map.1 hlabel
    rcases Dict.eq_or_mem_of_mem_insert he with rfl | hold
    · exact Or.inr hi
    · exact Or.inl (List.mem_append_right _ (List.mem_map_of_mem hold))

theorem stays_registerAs (hi : w.Knows i) (label : Option String) :
    Stays (registerAs label i) w fun _ _ => True := by
  cases label with
  | none => exact .pure trivial
  | some l => exact stays_register hi l

theorem stays_found (label : Option String) {i : Option InstanceId} (hi : ∀ j ∈ i, w.Knows j) :
    Stays (found label i) w fun _ _ => True := by
  cases i with
  | none => exact .pure trivial
  | some i =>
    exact (stays_registerAs (hi i rfl) label).bind fun _ _ _ _ => .of_keeps ((keeps_ask _).bind fun _ => keeps_pure _)

theorem stays_foundAll (labels : List String) {is : List InstanceId} (his : ∀ i ∈ is, w.Knows i) :
    Stays (foundAll labels is) w fun _ _ => True := by
  refine (Stays.forM fun e he w' hl => ?_).bind fun _ _ _ _ =>
    .of_keeps ((Keeps.mapM (fun _ => keeps_ask _) is).bind fun _ => keeps_pure _)
  exact stays_register ((his e.2 (List.of_mem_zip he).2).larger hl) e.1

theorem stays_madeAnswer (hi : w.Knows i) (label : Option String) : Stays (madeAnswer label i) w fun _ _ => True :=
  (stays_registerAs hi label).bind fun _ _ _ _ => .of_keeps (keeps_ask _)

/-! ## Commands -/

/-- A namespace comes with a queue of its own. -/
theorem regrows_addSpace (w : World) (settings : Settings) (imports : Dict String ClassRef) (r : Registry)
    (hr : r.instances = w.registry.instances) :
    w.Regrows { ({ w with screen := (w.screen.addQueue settings.writeDelay).2 }.pushSpace {
      settings := settings, queue := (w.screen.addQueue settings.writeDelay).1, imports := imports }).2 with
        registry := r } := by
  have hqueue : w.Regrows (w.mapScreen fun s => (s.addQueue settings.writeDelay).2) := regrows_mapScreen .rfl
  have hspace : World.Regrows _ ((w.mapScreen fun s => (s.addQueue settings.writeDelay).2).pushSpace {
      settings := settings, queue := (w.screen.addQueue settings.writeDelay).1, imports := imports }).2 :=
    regrows_pushSpace rfl
  refine IsTrans.trans _ _ _ hqueue (IsTrans.trans _ _ _ hspace ?_)
  refine regrows_of_same rfl rfl rfl rfl .rfl fun _ j hj => Or.inl ?_
  unfold World.handles at hj ⊢
  dsimp only at hj
  rw [hr] at hj
  exact hj

theorem regrows_spaceNamed (name : String) : Keeps Regrows (spaceNamed name) := by
  refine keeps_get.bind fun w => ?_
  split
  · exact keeps_pure _
  · exact fun w => regrows_addSpace w {} _ _ rfl

theorem regrows_importClass (e : String × String × String) : Keeps Regrows (importClass e) :=
  (regrows_spaceNamed _).bind fun space => (keeps_resolveIn space _).bind fun _ => keeps_pure _

theorem regrows_createNamespace (name : String) (settings : Option Json)
    (imports : List (String × String × String)) : Keeps Regrows (createNamespace name settings imports) := by
  refine (keeps_ofExcept _).bind fun settings => (Keeps.mapM regrows_importClass imports).bind fun imports => ?_
  exact Keeps.bind (fun w => regrows_addSpace w settings _ _ rfl) fun _ => keeps_pure _

theorem regrows_poll (q : QueueId) (delta : Int) :
    Keeps Regrows (change fun w =>
      let (n, screen) := w.screen.pollAfterDeadline q delta
      (n, { w with screen := screen })) := by
  intro w
  rw [change_apply]
  refine regrows_mapScreen (f := fun s => (s.pollAfterDeadline q delta).2) ?_
  rcases w.screen.pollAfterDeadline_eq q delta with h | h
  · rw [h]
    exact .rfl
  · rw [h]
    exact .of_sameLinks (Screen.sameLinks_flush _ _)

section Commands

variable (hcb : cb.Careful)

include hcb

theorem stays_onNamespace (hframe : ∀ f ∈ frame, w.KnowsFrame f) (name : String) (op : Host.NamespaceOp) :
    Stays (onNamespace cb frame name op) w fun _ _ => True := by
  have hspace := regrows_spaceNamed name
  have hlater {w' : World} (hl : w.Larger w') : ∀ f ∈ frame, w'.KnowsFrame f := fun f hf => (hframe f hf).larger hl
  cases op with
  | create settings imports => exact .of_keeps (regrows_createNamespace name settings imports)
  | names => exact .of_keeps (hspace.bind fun n => (keeps_theSpace n).bind fun _ => keeps_pure _)
  | debug => exact .of_keeps (hspace.bind fun n => (keeps_theSpace n).bind fun _ => keeps_pure _)
  | document position tag =>
    refine .of_keeps (hspace.bind fun n => (keeps_theSpace n).bind fun ns => ?_)
    unfold documentElements
    split
    · exact keeps_pure _
    · exact keeps_ask _
  | classSummary className =>
    exact .of_keeps (hspace.bind fun n => (keeps_resolveIn n _).bind fun _ => (keeps_theClass _).bind fun _ =>
      keeps_ask _)
  | classDescriptor className =>
    exact .of_keeps (hspace.bind fun n => (keeps_resolveIn n _).bind fun _ => (keeps_theClass _).bind fun _ =>
      keeps_pure _)
  | isA className other =>
    exact .of_keeps (hspace.bind fun n => (keeps_resolveIn n _).bind fun _ => (keeps_resolveIn n _).bind fun _ =>
      keeps_ask _)
  | construct className init label =>
    refine .after hspace fun n w₁ hl₁ => .after (keeps_resolveIn n _) fun ref w₂ hl₂ => ?_
    refine (stays_evaluateOption (hlater (hl₁.trans hl₂)) init).bind fun v w₃ _ _ => ?_
    exact (hcb.construct _ _ w₃).bind fun i _ _ hi => stays_madeAnswer hi label
  | constructText className text label =>
    refine .after hspace fun n w₁ _ => .after (keeps_resolveIn n _) fun ref w₂ _ => ?_
    exact (stays_constructFromText hcb ref.id text).bind fun i _ _ hi => stays_madeAnswer hi label
  | constructWith className factory init label =>
    refine .after hspace fun n w₁ hl₁ => .after (keeps_resolveIn n _) fun ref w₂ hl₂ => ?_
    refine (stays_evaluateOption (hlater (hl₁.trans hl₂)) init).bind fun v w₃ _ _ => ?_
    exact (stays_constructThrough hcb ref.id n factory _).bind fun i _ _ hi => stays_madeAnswer hi label
  | object objectName label =>
    refine .after hspace fun n w₁ _ => .of_regular fun hw => .bind_read (keeps_theSpace n) fun ns hns => ?_
    split
    · exact .pure trivial
    · next i hi => exact stays_madeAnswer (hw.object n ns (theSpace_eq_ok hns).1 _ (Dict.mem_of_get? hi)) label
  | flush =>
    exact .of_keeps (hspace.bind fun n => (keeps_theSpace n).bind fun ns => (regrows_flushQueue ns.queue).bind fun _ =>
      keeps_pure _)
  | poll delta =>
    exact .of_keeps (hspace.bind fun n => (keeps_theSpace n).bind fun ns => (regrows_poll ns.queue delta).bind fun _ =>
      keeps_pure _)
  | queue =>
    exact .of_keeps (hspace.bind fun n => (keeps_theSpace n).bind fun _ => keeps_get.bind fun _ =>
      (keeps_ofOption _).bind fun _ => keeps_pure _)

theorem regrows_load (name : String) (sources : List String) (behaviors : Behaviors) (tellNumber : Bool) :
    Keeps Regrows (load cb name sources behaviors tellNumber) := by
  refine (regrows_spaceNamed name).bind fun n => (regrows_loadDocuments hcb n behaviors sources).bind fun _ => ?_
  exact (keeps_theSpace n).bind fun _ => keeps_pure _

theorem stays_onInstance (hframe : ∀ f ∈ frame, w.KnowsFrame f) (i : InstanceId) (op : Host.InstanceOp) :
    Stays (onInstance cb frame i op) w fun _ _ => True := by
  cases op with
  | get name label =>
    refine (stays_getProperty i name).bind fun v w₁ _ hv => ?_
    have hregister : Stays (v.inst?.forM (registerAs label)) w₁ fun _ _ => True := by
      cases hinst : v.inst? with
      | none => exact .pure trivial
      | some j =>
        refine stays_registerAs (hv j ?_) label
        cases v <;> cases hinst
        exact List.mem_singleton_self j
    exact hregister.bind fun _ _ _ _ => .of_keeps (keeps_ask _)
  | set name v =>
    exact (stays_evaluate v hframe).bind fun v _ _ _ =>
      .of_keeps ((regrows_setProperty hcb i name v).bind fun _ => keeps_pure _)
  | attr name => exact .of_keeps ((keeps_getAttribute i name).bind fun _ => keeps_ask _)
  | attrs =>
    exact .of_keeps (((keeps_theClassOf i).bind fun _ => (keeps_theInstance i).bind fun _ => keeps_pure _).bind
      fun _ => keeps_ask _)
  | setAttr name v =>
    exact (stays_evaluate v hframe).bind fun v _ _ _ =>
      .of_keeps ((regrows_setAttribute i name v).bind fun _ => keeps_pure _)
  | setAttrs values =>
    exact (stays_evaluateFields values hframe).bind fun vs _ _ _ =>
      .of_keeps ((regrows_setAttributes i _).bind fun _ => keeps_pure _)
  | assign v =>
    exact (stays_evaluate v hframe).bind fun v _ _ _ =>
      .of_keeps ((regrows_assign hcb i v).bind fun _ => keeps_pure _)
  | values => exact .of_keeps ((keeps_theInstance i).bind fun _ => keeps_ask _)
  | toObject => exact .of_keeps (keeps_ask _)
  | toJson => exact .of_keeps (keeps_ask _)
  | html => exact .of_keeps (keeps_ask _)
  | text => exact .of_keeps ((keeps_theRoot i).bind fun _ => keeps_ask _)
  | classOf => exact .of_keeps ((keeps_theClassOf i).bind fun _ => keeps_ask _)
  | same other => exact (stays_target hframe _).bind fun _ _ _ _ => .pure trivial
  | debug => exact .of_keeps ((keeps_theClassOf i).bind fun _ => (keeps_theInstance i).bind fun _ => keeps_ask _)
  | state => exact .of_keeps ((keeps_theRoot i).bind fun _ => keeps_ask _)
  | attach parent name =>
    exact (stays_target hframe _).bind fun p _ _ _ =>
      .of_keeps ((regrows_attach hcb i p name).bind fun _ => keeps_pure _)
  | detach => exact .of_keeps ((regrows_detach hcb i).bind fun _ => keeps_pure _)
  | exposed key =>
    refine .of_keeps ((keeps_theInstance i).bind fun x => ?_)
    split
    · exact keeps_pure _
    · exact keeps_ask _
  | call name data =>
    exact (stays_evaluate data hframe).bind fun v _ _ hv =>
      (stays_callMethod hcb i name none hv).bind fun _ _ _ _ => .of_keeps (keeps_ask _)
  | dispatch name data =>
    exact (stays_evaluate data hframe).bind fun v _ _ hv =>
      (stays_dispatchEvent hcb i name hv).bind fun _ _ _ _ => .pure trivial
  | domEvent path event data =>
    refine .after (keeps_theRoot i) fun root w₁ hl₁ => .after keeps_get fun _ w₂ hl₂ => ?_
    refine .after (keeps_ofOption _) fun n w₃ hl₃ => (stays_pin (by intro j hj; cases hj)).bind fun _ w₄ hl₄ _ => ?_
    have hframe (f : Frame) (hf : f ∈ frame) : w₄.KnowsFrame f :=
      (hframe f hf).larger (((hl₁.trans hl₂).trans hl₃).trans hl₄)
    exact (stays_evaluate data hframe).bind fun v _ _ hv =>
      (stays_handleHostEvent hcb i n event hv).bind fun _ _ _ _ => .pure trivial
  | trigger key event data =>
    exact (stays_evaluate data hframe).bind fun v _ _ hv =>
      (stays_trigger hcb i key event hv).bind fun _ _ _ _ => .pure trivial
  | hold name label =>
    refine .of_keeps ((keeps_getProperty i name).bind fun v => (regrows_theColl v).bind fun c => ?_)
    refine Keeps.bind (fun w => ?_) fun _ => keeps_pure _
    exact regrows_of_same rfl rfl rfl rfl .rfl fun _ j hj => Or.inl hj

theorem stays_onCollection (hframe : ∀ f ∈ frame, w.KnowsFrame f) (k : CollectionId) (op : Host.CollectionOp) :
    Stays (onCollection cb frame k op) w fun _ _ => True := by
  cases op with
  | push v =>
    exact (stays_evaluate v hframe).bind fun v _ _ _ => .of_keeps ((regrows_push hcb k v).bind fun _ => keeps_pure _)
  | unshift v =>
    exact (stays_evaluate v hframe).bind fun v _ _ _ =>
      .of_keeps ((regrows_unshift hcb k v).bind fun _ => keeps_pure _)
  | pop label => exact (stays_pop hcb k).bind fun _ _ _ hi => stays_found label hi
  | shift label => exact (stays_shift hcb k).bind fun _ _ _ hi => stays_found label hi
  | remove position label =>
    exact (stays_removeItem hcb k position).bind fun i _ _ hi => stays_found label fun j hj => Option.some.inj hj ▸ hi
  | get position label =>
    refine .of_regular fun hw => .bind_same (get_apply w) (stays_found label fun j hj => ?_)
    exact hw.listed (List.mem_of_getElem? hj)
  | insert position v =>
    exact (stays_evaluate v hframe).bind fun v _ _ _ =>
      .of_keeps ((regrows_insertItem hcb k position v).bind fun _ => keeps_pure _)
  | move source target => exact .of_keeps ((regrows_moveItem hcb k source target).bind fun _ => keeps_pure _)
  | splice start count values labels =>
    exact (stays_evaluateItems values hframe).bind fun vs _ _ _ =>
      (stays_splice hcb k start count vs).bind fun is _ _ his => stays_foundAll labels his
  | replaceAll values labels =>
    exact (stays_evaluateItems values hframe).bind fun vs _ _ _ =>
      (stays_replaceAll hcb k vs).bind fun is _ _ his => stays_foundAll labels his
  | items => exact .of_keeps (keeps_get.bind fun _ => (Keeps.mapM (fun _ => keeps_ask _) _).bind fun _ => keeps_pure _)
  | indexOf item => exact (stays_target hframe _).bind fun _ _ _ _ => .of_keeps (keeps_ask _)
  | info => exact .of_keeps ((keeps_theCollection k).bind fun _ => keeps_ask _)
  | debug => exact .of_keeps (keeps_ask _)
  | toArray start stop => exact .of_keeps (keeps_ask _)
  | toJson start stop indentation =>
    exact .of_keeps (keeps_get.bind fun _ => (keeps_ofExcept _).bind fun _ => keeps_pure _)

/-- Every command leaves a regular world regular. -/
theorem stays_perform (hframe : ∀ f ∈ frame, w.KnowsFrame f) (c : Host.Command) :
    Stays (perform cb frame c) w fun _ _ => True := by
  cases c with
  | namespaceOp name op => exact stays_onNamespace hcb hframe name op
  | load name html behaviors => exact .of_keeps (regrows_load hcb name _ behaviors _)
  | loadFiles name files directory behaviors =>
    exact .of_keeps ((keeps_ofExcept _).bind fun entries => regrows_load hcb name _ behaviors _)
  | instanceOp name op =>
    refine (stays_target hframe name).bind fun i w₁ hl₁ _ => ?_
    exact stays_onInstance hcb (fun f hf => (hframe f hf).larger hl₁) i op
  | listen name kind event tag script =>
    refine (stays_target hframe name).bind fun i _ _ _ => ?_
    exact .of_keeps ((keeps_ofExcept _).bind fun kind => (regrows_listen i kind event _).bind fun _ => keeps_pure _)
  | drop label =>
    refine .of_keeps ((keeps_ask _).bind fun there => Keeps.bind (fun w => ?_) fun _ => keeps_pure _)
    refine regrows_of_same rfl rfl rfl rfl .rfl fun _ j hj => Or.inl ?_
    rcases List.mem_append.1 hj with hpin | hlabel
    · exact List.mem_append_left _ hpin
    · obtain ⟨e, he, rfl⟩ := List.mem_map.1 hlabel
      exact List.mem_append_right _ (List.mem_map_of_mem (List.mem_of_mem_filter he))
  | collectionOp source op =>
    refine (stays_collectionAt hframe source).bind fun k w₁ hl₁ _ => ?_
    exact stays_onCollection hcb (fun f hf => (hframe f hf).larger hl₁) k op

end Commands

/-! ## Scripts -/

mutual

theorem stays_runAction (hcb : cb.Careful) : ∀ (a : Host.Action) {frame : Frame} {w : World}, w.KnowsFrame frame →
    Stays (runAction cb frame a) w fun o w' => ∀ v ∈ o.returned, w'.KnowsValue v
  | .log text, frame, w, _ => by
    unfold runAction
    exact .after (regrows_note _) fun _ _ _ => .pure fun v hv => by cases hv
  | .give value, frame, w, hframe => by
    unfold runAction
    refine (stays_evaluate value fun f hf => Option.some.inj hf ▸ hframe).bind fun v _ _ hv => .pure fun u hu => ?_
    exact Option.some.inj hu ▸ hv
  | .fail e, frame, w, _ => by
    unfold runAction
    exact .fail e
  | .branch left right yes no, frame, w, hframe => by
    unfold runAction
    refine (stays_evaluate left fun f hf => Option.some.inj hf ▸ hframe).bind fun a w₁ hl₁ _ => ?_
    have hframe₁ := hframe.larger hl₁
    refine (stays_evaluate right fun f hf => Option.some.inj hf ▸ hframe₁).bind fun b w₂ hl₂ _ => ?_
    split
    · exact stays_runScript hcb yes (hframe₁.larger hl₂)
    · exact stays_runScript hcb no (hframe₁.larger hl₂)
  | .callSuper, frame, w, hframe => by
    unfold runAction
    refine .after (regrows_note _) fun _ w₁ hl₁ => ?_
    exact (stays_runConstructors hcb (hframe.larger hl₁).self _).bind fun _ _ _ _ => .pure fun v hv => by cases hv
  | .prevent, frame, w, _ => by
    unfold runAction
    exact .pure fun v hv => by cases hv
  | .emit name data, frame, w, hframe => by
    unfold runAction
    refine (stays_evaluate data fun f hf => Option.some.inj hf ▸ hframe).bind fun v w₁ _ hv => ?_
    exact (hcb.dispatch _ _ _ w₁ hv).bind fun _ _ _ _ => .pure fun v hv => by cases hv
  | .command c, frame, w, hframe => by
    unfold runAction
    exact (stays_perform hcb (fun f hf => Option.some.inj hf ▸ hframe) c).bind fun _ _ _ _ =>
      .pure fun v hv => by cases hv

theorem stays_runScript (hcb : cb.Careful) : ∀ (s : List Host.Action) {frame : Frame} {w : World}, w.KnowsFrame frame →
    Stays (runScript cb frame s) w fun o w' => ∀ v ∈ o.returned, w'.KnowsValue v
  | [], frame, w, _ => by
    unfold runScript
    exact .pure fun v hv => by cases hv
  | a :: rest, frame, w, hframe => by
    unfold runScript
    have haction : Stays (keeping Outcome.held (runAction cb frame a)) w
        fun o w' => ∀ v ∈ o.returned, w'.KnowsValue v := by
      refine (stays_runAction hcb a hframe).keeping (fun o w' ho j hj => ?_) fun o w' w'' ho hl v hv => (ho v hv).larger hl
      unfold Outcome.held at hj
      split at hj
      · next v hv => exact ho v hv j (mem_ofValue hj)
      · cases hj
    refine haction.bind fun o w₁ hl₁ ho => ?_
    split
    · exact .pure ho
    · exact (stays_runScript hcb rest (hframe.larger hl₁)).bind fun o' _ _ ho' => .pure ho'

end

end Run

theorem Callbacks.careful_ofDepth (depth : Nat) : (Callbacks.ofDepth depth).Careful := by
  induction depth with
  | zero =>
    exact ⟨fun _ _ _ => Run.Stays.throw _, fun _ _ _ _ => Run.Stays.throw _, fun _ _ _ _ _ => Run.Stays.throw _⟩
  | succ depth ih =>
    exact ⟨fun id init _ => Run.stays_constructInstance ih id init, fun _ s _ hframe => Run.stays_runScript ih s hframe,
      fun i name _ _ hd => Run.stays_dispatchEvent ih i name hd⟩

end ReactiveView
