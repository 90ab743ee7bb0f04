import ReactiveView.Markup.Reader
import ReactiveView.Template.Catalog
import ReactiveView.World.Construction

/-!
# Loading documents

Loading documents into a namespace takes three steps. First the headers of all class templates are
read; a name may be declared only once, and every class that is referred to must be declared in the
documents or known already. Then the templates are compiled, again and again the first of those that
wait for nothing; if all that are left wait, the references are circular. Last, every marker that stands
in a document in the ordinary way is replaced by the root of a new object, which takes over the other
attributes of the marker.

A step that fails leaves what the steps before it have done; only the documents are then dropped.

`firstReady?_mem` states that a template that is taken is one of those that wait, and is ready.
-/

set_option autoImplicit false

namespace ReactiveView

/-- A class template that has not been compiled. -/
structure PendingClass where
  header : Template.Header
  template : Markup
  requires : List String

namespace PendingClass

/-- Reads the headers of templates. A name that is known or has been seen is refused. -/
def gather (known : String → Bool) (seen : List String) :
    List Markup → Except Error (List PendingClass)
  | [] => .ok []
  | m :: ms =>
    match Template.readHeader m with
    | .error e => .error e
    | .ok h =>
      if known h.name || seen.contains h.name then .error (.classExists h.name)
      else (gather known (h.name :: seen) ms).map fun rest => ⟨h, m, Template.requires h m⟩ :: rest

/-- The names of templates. -/
def names (pending : List PendingClass) : List String := pending.map (·.header.name)

/-- The first class that is referred to but neither known nor among the templates. -/
def missing? (known : String → Bool) (pending : List PendingClass) : Option String :=
  (pending.flatMap (·.requires)).find? fun r => !(names pending).contains r && !known r

/-- Whether all that a template refers to is known. -/
def isReady (known : String → Bool) (p : PendingClass) : Bool := p.requires.all known

/-- The first template that is ready, and the others. -/
def firstReady? (known : String → Bool) :
    List PendingClass → Option (PendingClass × List PendingClass)
  | [] => none
  | p :: ps =>
    if p.isReady known then some (p, ps)
    else (firstReady? known ps).map fun found => (found.1, p :: found.2)

/-- A template that is taken is ready and was among those that wait. -/
theorem firstReady?_mem (known : String → Bool) (ps rest : List PendingClass) (p : PendingClass)
    (h : firstReady? known ps = some (p, rest)) : p ∈ ps ∧ p.isReady known = true := by
  induction ps generalizing rest with
  | nil => cases h
  | cons q qs ih =>
    unfold firstReady? at h
    split at h
    · next hq => cases h; exact ⟨List.mem_cons_self, hq⟩
    · cases hf : firstReady? known qs with
      | none => simp [hf] at h
      | some found =>
        obtain ⟨p', rest'⟩ := found
        simp only [hf, Option.map_some, Option.some.injEq, Prod.mk.injEq] at h
        obtain ⟨rfl, _⟩ := h
        exact ⟨List.mem_cons_of_mem _ (ih rest' hf).1, (ih rest' hf).2⟩

end PendingClass

/-- What a host supplies for classes, by name. -/
abbrev Behaviors := List (String × Host.Behavior)

/-- What a host supplies for a class. -/
def Behaviors.of (bs : Behaviors) (name : String) : Host.Behavior :=
  match bs.find? fun e => e.1 == name with
  | some e => e.2
  | none => .none

/-- The markers that stand in a document in the ordinary way. -/
def Forest.markers (f : Forest) (document : NodeId) : List NodeId :=
  (f.nodesBelow false f.size document).filter fun n => (f.attr? n Template.markerAttr).isSome

namespace Run

/-- Whether a class is known in a namespace. -/
def known (space : NamespaceId) : Run (String → Bool) := do
  let ns ← theSpace space
  return fun name => (ns.resolve? name).isSome

/-- The class that a template descends from. -/
def parentOf (space : NamespaceId) (h : Template.Header) : Run (Option (ClassRef × Class)) := do
  match h.parent with
  | none => return none
  | some name =>
    let ref ← resolveIn space name
    return some (ref, ← theClass ref.id)

/-- Reads and compiles a class template. -/
def compileClass (space : NamespaceId) (behaviors : Behaviors) (p : PendingClass) : Run Unit := do
  let behavior := behaviors.of p.header.name
  let parent ← parentOf space p.header
  let ns ← theSpace space
  let d ← ofExcept <| Template.parse ⟨ns.resolve?, ns.settings.strictNames⟩
    { header := p.header, template := p.template, methods := behavior.methods,
      constructor := behavior.constructor }
    (parent.map fun e => (e.1, e.2.descriptor))
  let c ← ofExcept <| Class.compile d (parent.map fun e => (e.1.id, e.2)) (some space) ns.queue
    behavior.factory
  let id ← change fun w => w.pushClass c
  update fun w => w.modifySpace space fun ns =>
    { ns with classes := ns.classes.insert d.name ⟨id, d.name⟩ }

/-- Compiles templates, each once all it refers to is known. -/
def compilePending (space : NamespaceId) (behaviors : Behaviors) :
    Nat → List PendingClass → Run Unit
  | _, [] => pure ()
  | 0, pending => fail (.circularClasses (PendingClass.names pending))
  | fuel + 1, pending => do
    match PendingClass.firstReady? (← known space) pending with
    | none => fail (.circularClasses (PendingClass.names pending))
    | some (p, rest) =>
      compileClass space behaviors p
      compilePending space behaviors fuel rest

/-- Compiles the class templates of documents. -/
def compileAll (space : NamespaceId) (behaviors : Behaviors) (documents : List (List Markup)) :
    Run Unit := do
  let ns ← theSpace space
  let templates := documents.flatMap Template.classTemplates
  let pending ← ofExcept (PendingClass.gather ns.classes.contains [] templates)
  match PendingClass.missing? (← known space) pending with
  | some name => fail (.unknownClass name)
  | none => compilePending space behaviors pending.length pending

/-- Makes the object that a marker asks for. -/
def constructMarked (cb : Callbacks) (c : ClassId) (marker : NodeId) : Run InstanceId := do
  let text ← ask fun w => Text.trimmed (w.forest.tree marker).textContent
  if text.isEmpty then cb.construct c none else constructFromText cb c text

/-- Replaces a marker by the object that it asks for. -/
def placeMarker (cb : Callbacks) (space : NamespaceId) (marker : NodeId) : Run Unit := do
  let declaration ← ask fun w => (w.forest.attr? marker Template.markerAttr).getD ""
  match (Text.words declaration.toList).map String.ofList with
  | [className, objectName] =>
    if (← theSpace space).objects.contains objectName then fail (.objectExists objectName)
    let ref ← resolveIn space className
    let i ← constructMarked cb ref.id marker
    let root ← theRoot i
    update fun w => w.mapForest fun f =>
      ((f.attrs marker).filter fun a => a.name.tag != Template.markerAttr).foldl
        (fun f a => f.setAttr root a.name a.value) f
    edit fun f => f.insertAfter marker root
    update fun w =>
      (w.mapForest fun f => f.unlink marker).modifySpace space fun ns =>
        { ns with objects := ns.objects.insert objectName i }
  | _ => fail (.badMarker declaration)

/-- Replaces the markers of a document; each is let go once it has been replaced. -/
def placeMarkers (cb : Callbacks) (space : NamespaceId) (document : NodeId) : Run Unit :=
  inScope do
    let markers ← ask fun w => w.forest.markers document
    markers.forM fun n => pin (.node n)
    markers.forM fun n => do
      inScope (placeMarker cb space n)
      unpin (.node n)

/-- Loads documents into a namespace; gives their number. -/
def loadDocuments (cb : Callbacks) (space : NamespaceId) (behaviors : Behaviors)
    (sources : List String) : Run Nat :=
  inScope do
    pin (.space space)
    let documents := sources.map Markup.Document.read
    compileAll space behaviors documents
    let tops ← documents.mapM fun trees => do
      let n ← change fun w =>
        let (n, forest) := w.forest.plantDocument trees
        (n, w.mapForest fun _ => forest)
      pin (.node n)
      return n
    tops.forM (placeMarkers cb space)
    update fun w => w.modifySpace space fun ns => { ns with documents := ns.documents ++ tops }
    return tops.length

end Run

end ReactiveView
