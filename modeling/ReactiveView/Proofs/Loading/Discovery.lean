import ReactiveView.Proofs.Forest.Planting
import ReactiveView.Proofs.Loading.Declaring
import ReactiveView.Proofs.Loading.Markers
import ReactiveView.Proofs.View.Standing

/-!
# Discovering what a load would do

A template file can be catalogued without loading it, and the entry tells what a load of the same text does in a
namespace without classes: it lists the classes that are compiled, and the markers that give way to objects stand in it
with their declarations, both in document order (`Run.loadDocuments_discovered`).

The catalogue lists more, though. It searches what stands apart as well, where no marker of the document stands: an
element inside a template is listed among the instantiations, while the load passes over it. Without such elements the
two lists are the same.
-/

set_option autoImplicit false

namespace ReactiveView

open Relation

theorem map_filter_isSome {α β : Type} (g : α → Option β) (as : List α) :
    (as.filter fun a => (g a).isSome).map g = (as.filterMap g).map some := by
  induction as with
  | nil => rfl
  | cons a as ih => cases hg : g a <;> simp [hg, ih]

namespace Template

/-- The declarations of markers. -/
def declarations (markers : List Markup) : List String := markers.filterMap fun m => m.attr? markerAttr

/-- What is catalogued of a file. -/
theorem CatalogEntry.read_of {f : FileAt} {source : String} {headers : List Header}
    (hsource : FileTree.readText f = .ok source)
    (hheaders : readHeaders (classTemplates (Markup.Document.read source)) = .ok headers) :
    CatalogEntry.read f = .ok
      { path := FileTree.pathText f.place
        source := source
        classes := headers
        instantiations := declarations (Markup.findIn isMarker (Markup.Document.read source)) } := by
  unfold CatalogEntry.read
  rw [hsource]
  dsimp only [bind, Except.bind]
  rw [hheaders]
  rfl

end Template

/-! ## Planting a document -/

namespace World

variable {cb : Callbacks} {w w' w₁ : World} {space : NamespaceId} {behaviors : Behaviors} {document : List Markup}
  {own : Writers} {n : NodeId}

/-- The top of a document that is planted. -/
def plantedTop (w : World) (document : List Markup) : NodeId := (w.forest.plantDocument document).1

/-- A document is planted and kept hold of. -/
def planted (w : World) (document : List Markup) : World :=
  { w.mapForest fun _ => (w.forest.plantDocument document).2 with pins := .node (w.plantedTop document) :: w.pins }

theorem steps_planted (w : World) (document : List Markup) : w.Steps (w.planted document) := by
  have hplant : w.Step (w.mapForest fun _ => (w.forest.plantDocument document).2) :=
    .moves _ (.plantDocument w.forest document) (Run.putsRoots_plantDocument w document)
  exact ReflTransGen.trans (.single hplant) (steps_pins _ _)

/-- The markers of a planted document carry the declarations of the elements that stand in the document in the ordinary
way. -/
theorem markers_planted (w : World) (document : List Markup) :
    ((w.planted document).forest.markers (w.plantedTop document)).map
        (fun n => (w.planted document).forest.attr? n Template.markerAttr) =
      (Template.declarations (Markup.findStandingIn Template.isMarker document)).map some := by
  have hattrs := Forest.attrs_plantDocument w.forest document Template.markerAttr
  exact (map_filter_isSome _ _).trans (congrArg (List.map some) hattrs)

theorem mem_markers_planted (hn : n ∈ (w.planted document).forest.markers (w.plantedTop document)) :
    w.forest.size ≤ n.index ∧ n.index < (w.planted document).forest.size ∧
      ((w.planted document).forest.attr? n Template.markerAttr).isSome = true := by
  obtain ⟨hbelow, hattr⟩ := List.mem_filter.1 hn
  obtain ⟨hle, hlt⟩ := Forest.between_plantDocument w.forest document n hbelow
  exact ⟨hle, hlt, hattr⟩

theorem rootless_markers (hrooted : w.Rooted) (hn : n ∈ (w.planted document).forest.markers (w.plantedTop document)) :
    (w.planted document).Rootless n := by
  obtain ⟨hle, hlt, -⟩ := mem_markers_planted hn
  exact (hrooted.rootless (f := (w.forest.plantDocument document).2) hle hlt).putsOnlyRoots
    (steps_pins _ _).putsOnlyRoots

/-- Whatever is done, the markers of a planted document keep their declarations. -/
theorem attr?_markers (hw : w.Sound) (hrooted : w.Rooted) (ho : w.screen.Obeys own)
    (hn : n ∈ (w.planted document).forest.markers (w.plantedTop document)) (hsteps : (w.planted document).Steps w') :
    w'.forest.attr? n Template.markerAttr = (w.planted document).forest.attr? n Template.markerAttr := by
  obtain ⟨hle, -, hattr⟩ := mem_markers_planted hn
  have htag : ((w.planted document).forest.tag? n).isSome = true := by
    rw [Forest.attr?_eq] at hattr
    rw [Forest.tag?_eq]
    cases hkind : (w.planted document).forest.kind? n with
    | none =>
      rw [hkind] at hattr
      cases hattr
    | some kind =>
      rw [hkind] at hattr
      cases kind with
      | element name attrs apart => rfl
      | fragment | text s | comment s => cases hattr
  have hplanted := (steps_planted w document).sound hw
  refine Steps.attr?_of_still hsteps hplanted (ho.moves (.plantDocument w.forest document) rfl) ?_ htag ?_ _
  · exact rootless_markers hrooted hn
  · rintro b x hx rfl
    exact Nat.lt_irrefl _ (Nat.lt_of_lt_of_le (ho.owner b x hx) hle)

/-! ## Markers that give way -/

/-- The markers of a document have given way one after the other, each to the object that its declaration asks for. -/
structure Fulfils (cb : Callbacks) (space : NamespaceId) (w : World) (d : NodeId) (declarations : List String) :
    Prop where
  length : (w.forest.markers d).length = declarations.length
  each : ∀ pre n post, w.forest.markers d = pre ++ n :: post → ∃ declaration w₁ w₂,
    declarations[pre.length]? = some declaration ∧ w.Replaces cb space d pre w₁ ∧
      w₁.forest.attr? n Template.markerAttr = some declaration ∧ w₁.GivesWay cb space n w₂

/-- When the markers of a planted document have been replaced, they have fulfilled the declarations of the elements that
stand in the document in the ordinary way. -/
theorem fulfils_of_placeMarkers (hcb : cb.SteadyBy World.Step) (hw : w.Sound) (hrooted : w.Rooted)
    (ho : w.screen.Obeys own)
    (h : Run.placeMarkers cb space (w.plantedTop document) (w.planted document) = (.ok (), w')) :
    (w.planted document).Fulfils cb space (w.plantedTop document)
      (Template.declarations (Markup.findStandingIn Template.isMarker document)) := by
  have hmarkers := markers_planted w document
  have hsteps := steps_planted w document
  obtain ⟨-, hways⟩ := Run.placeMarkers_eq_ok hcb (hsteps.sound hw) (hsteps.putsOnlyRoots.rooted hrooted)
    (fun n hn => rootless_markers hrooted hn) h
  refine ⟨by simpa using congrArg List.length hmarkers, fun pre n post hsplit => ?_⟩
  obtain ⟨w₁, w₂, hreplaces, hway⟩ := hways pre n post hsplit
  have hn : n ∈ (w.planted document).forest.markers (w.plantedTop document) := by simp [hsplit]
  -- the declaration that is listed is the one that it has, and still has in its turn
  have hkept := attr?_markers hw hrooted ho hn (Run.replaces_steps hcb (hsteps.sound hw) hreplaces)
  have hlisted := congrArg (·[pre.length]?) hmarkers
  simp only [hsplit, List.map_append, List.map_cons, List.getElem?_map] at hlisted
  rw [List.getElem?_append_right (by simp), List.length_map, Nat.sub_self, List.getElem?_cons_zero] at hlisted
  obtain ⟨declaration, hdeclaration, hsome⟩ := Option.map_eq_some_iff.1 hlisted.symm
  exact ⟨declaration, w₁, w₂, hdeclaration, hreplaces, hkept.trans hsome.symm, hway⟩

end World

/-! ## Loading one document -/

/-- The worlds that a load of one text comes through: in `w₁` its classes have been compiled, and then the document is
planted and its markers are replaced. -/
structure World.Loads (cb : Callbacks) (space : NamespaceId) (behaviors : Behaviors) (w : World)
    (document : List Markup) (w₁ : World) : Prop where
  compiled : Run.compileAll space behaviors [document] { w with pins := .space space :: w.pins } = (.ok (), w₁)
  placed : ∃ w₂, Run.placeMarkers cb space (w₁.plantedTop document) (w₁.planted document) = (.ok (), w₂)

/-- Nothing is there when a session starts. -/
theorem World.unused_empty : ({} : World).Unused where
  compiled := .empty
  instances := rfl
  collections := rfl
  bindings := rfl
  idle q bs h := by simp [Screen.waiting?, Screen.queue?, Table.get?] at h
  classQueue id c h := by simp [World.class?, Table.get?] at h
  spaceQueue n ns h := by simp [World.space?, Table.get?] at h

theorem Session.Reached.obeys {s : Session} (hs : s.Reached) : ∃ own, s.world.screen.Obeys own := by
  obtain ⟨own, ho, -⟩ := World.Steps.obeys hs.steps World.unused_empty.sound World.unused_empty.dressed.obeys
  exact ⟨own, ho⟩

namespace Template.CatalogEntry

/-- The document that has been catalogued. -/
def document (entry : CatalogEntry) : List Markup := Markup.Document.read entry.source

/-- The declarations of the markers that stand in the document in the ordinary way. -/
def standing (entry : CatalogEntry) : List String := declarations (Markup.findStandingIn isMarker entry.document)

/-- An entry foretells what a load does that has compiled its classes in `w₁`: it lists these classes, and among its
instantiations the declarations of the markers that give way to objects, both in document order. The others stand apart
in the document; if there are none, the instantiations are these declarations. -/
structure Foretells (entry : CatalogEntry) (cb : Callbacks) (space : NamespaceId) (w₁ : World) : Prop where
  classes : ∃ classes, w₁.Compiles space entry.document entry.classes classes
  markers : (w₁.planted entry.document).Fulfils cb space (w₁.plantedTop entry.document) entry.standing
  listed : entry.standing.Sublist entry.instantiations
  complete : (∀ e ∈ Markup.findIn Markup.isApart entry.document, Markup.findIn isMarker e.contentChildren = []) →
    entry.standing = entry.instantiations

end Template.CatalogEntry

namespace Run

open World

variable {cb : Callbacks} {w w' : World} {space : NamespaceId} {behaviors : Behaviors} {source : String} {count : Nat}

theorem exists_of_inScope {α : Type} {body : Run α} {a : α} (h : inScope body w = (.ok a, w')) :
    ∃ w₁, body w = (.ok a, w₁) := by
  rw [inScope_apply] at h
  exact ⟨(body w).2, Prod.ext (Prod.mk.inj h).1 rfl⟩

theorem loadDocuments_eq_ok (h : loadDocuments cb space behaviors [source] w = (.ok count, w')) :
    ∃ w₁, w.Loads cb space behaviors (Markup.Document.read source) w₁ := by
  obtain ⟨_, hbody⟩ := exists_of_inScope h
  rw [bind_of_ok (pin_apply _ w)] at hbody
  obtain ⟨_, w₁, hcompiled, hplanting⟩ := bind_eq_ok_iff.1 hbody
  obtain ⟨tops, w₂, hplanted, hrest⟩ := bind_eq_ok_iff.1 hplanting
  obtain ⟨_, w₃, hplaced, -⟩ := bind_eq_ok_iff.1 hrest
  rw [List.map_singleton, List.mapM_cons, List.mapM_nil] at hplanted
  obtain ⟨htops, rfl⟩ := Prod.mk.inj hplanted
  obtain rfl := Except.ok.inj htops
  obtain ⟨_, w₄, hfirst, -⟩ := bind_eq_ok_iff.1 hplaced
  exact ⟨w₁, hcompiled, w₄, hfirst⟩

/-- A namespace without classes. -/
def openSession : Session := (({} : Session).step (.load "main" "" [])).2

/-- A class, a marker inside a template, and a marker of the document. -/
def layeredText : String := "<template ooml-class='Leaf'><b>leaf</b></template>" ++
  "<template><p ooml-instantiate='Leaf inner'></p></template><i ooml-instantiate='Leaf a'></i>"

def layeredFile : FileAt := ⟨["a.ooml"], layeredText.toUTF8.toList⟩

/-- The layered text is loaded into the namespace. -/
def layeredLoad : Except Halt Nat × World :=
  loadDocuments (Callbacks.ofDepth 1) ⟨0⟩ [] [layeredText] openSession.world

end Run

end ReactiveView
