import ReactiveView.Proofs.Loading.Compiling
import ReactiveView.Proofs.Outliving.Still
import ReactiveView.Proofs.Ownership.LettingGo
import ReactiveView.Proofs.Steps.Places

/-!
# Markers that give way to objects

When the object that a marker asks for has been made, its root takes the place of the marker: it stands where the
marker stood, between the same neighbours, and the rest of the document stays as it is (`Forest.GivesWay`). This
takes a marker that stands in a tree. One that stands nowhere is refused, and its object is not registered
(`Run.placeMarker_outcome`).

The markers of a document are listed before the first of them gives way, and a marker that has given way is a stray
and is let go. What stands below it goes out of use with it, apart from what something holds
(`World.isAlive_settle_of_below`). So a marker that stands inside another one is a stray as well
(`World.HangsFrom.stray`), and stays one until it has its turn. A document with such a marker is not loaded; when a
document is loaded, every marker has given way in its turn, and none stands anywhere any more
(`Run.placeMarkers_outcome`).
-/

set_option autoImplicit false

namespace ReactiveView

open Relation

namespace Forest

variable {f f' : Forest} {n p r : NodeId}

/-- `f'` is `f` with `r` in the place that `n` had on the list of `p`, and `n` out of its place. -/
structure GivesWay (f f' : Forest) (p n r : NodeId) : Prop where
  row : ∃ before after, f.children p = before ++ n :: after ∧ f'.children p = before ++ r :: after
  rows : ∀ q, q ≠ p → f'.children q = f.children q
  root : f'.parent? r = some p
  marker : f'.recorded? n = none
  parents : ∀ m, m ≠ n → m ≠ r → f'.parent? m = f.parent? m
  kinds : ∀ m, f'.kind? m = f.kind? m

theorem sameLinks_setAttrs (f : Forest) (r : NodeId) (as : List Attr) :
    f.SameLinks (as.foldl (fun f a => f.setAttr r a.name a.value) f) := by
  induction as generalizing f with
  | nil => exact .rfl
  | cons a as ih => exact (sameLinks_setAttr f r a.name a.value).trans (ih _)

theorem kind?_place (f : Forest) (p : NodeId) (i : Nat) (n m : NodeId) : (f.place p i n).kind? m = f.kind? m := by
  unfold place
  rw [kind?_modify (by exact fun _ => rfl), kind?_modify (by exact fun _ => rfl)]

/-- A node that stands alone is put behind a listed one, which is then taken out. -/
theorem givesWay_place {before after : List NodeId} (hp : f.parent? n = some p)
    (hsplit : f.children p = before ++ n :: after) (hfirst : n ∉ before) (hr : r.index < f.size) (hne : r ≠ n) :
    f.GivesWay ((f.place p (before.length + 1) r).unlink n) p n r := by
  have halive := isAlive_of_parent? hp
  have hparents (m : NodeId) (hm : m ≠ r) : (f.place p (before.length + 1) r).parent? m = f.parent? m :=
    parent?_place_of_ne f _ hm
  refine ⟨⟨before, after, hsplit, ?_⟩, fun q hq => ?_, ?_, recorded?_unlink_self _ n, fun m hmn hmr => ?_, fun m => ?_⟩
  · have hplaced : (f.place p (before.length + 1) r).children p = before ++ n :: r :: after := by
      rw [children_place_self (lt_size_of_isAlive halive), hsplit, insertIdx_split]
    rw [children_unlink, hparents n hne.symm, hp, if_pos rfl, hplaced, List.erase_append_right _ hfirst,
      List.erase_cons_head]
  · rw [children_unlink, hparents n hne.symm, hp, if_neg fun h => hq (Option.some.inj h).symm,
      children_place_of_ne _ _ _ hq]
  · rw [parent?_unlink_of_ne _ hne]
    exact parent?_place_self hr halive _
  · rw [parent?_unlink_of_ne _ hmn, hparents m hmr]
  · rw [kind?_unlink, kind?_place]

/-- A node is put behind another one and takes its place, unless that one stands nowhere or is not listed. -/
theorem insertAfter_cases (f : Forest) (hr : r.index < f.size) (hne : r ≠ n) :
    (f.parent? n = none ∧ f.insertAfter n r = (.error .anchorOutsideTree, f)) ∨
      (∃ p, f.parent? n = some p ∧ n ∉ (f.unlink r).children p ∧
        f.insertAfter n r = (.error .anchorNotListed, f.unlink r)) ∨
      ∃ p f', f.parent? n = some p ∧ f.insertAfter n r = (.ok (), f') ∧
        (f.unlink r).GivesWay (f'.unlink n) p n r := by
  unfold insertAfter
  cases hp : f.parent? n with
  | none => exact Or.inl ⟨rfl, rfl⟩
  | some p =>
    dsimp only
    by_cases hn : n ∈ (f.unlink r).children p
    · obtain ⟨before, after, hsplit, hfirst⟩ := List.eq_append_cons_of_mem hn
      rw [hsplit, idxOf?_split hfirst]
      refine Or.inr (Or.inr ⟨p, _, rfl, rfl, givesWay_place ?_ hsplit hfirst (by rwa [size_unlink]) hne⟩)
      rw [parent?_unlink_of_ne f hne.symm, hp]
    · rw [List.idxOf?_eq_none_iff.2 hn]
      exact Or.inr (Or.inl ⟨p, rfl, hn, rfl⟩)

end Forest

/-! ## One marker -/

namespace World

variable {w w' : World} {space : NamespaceId} {n r : NodeId} {ref : ClassRef} {name : String}

/-- An object is registered under a name. -/
def register (w : World) (space : NamespaceId) (name : String) (i : InstanceId) : World :=
  w.modifySpace space fun ns => { ns with objects := ns.objects.insert name i }

/-- A marker asks for an object of a class that is known, under a name that is not taken. -/
structure Asks (w : World) (space : NamespaceId) (n : NodeId) (ref : ClassRef) (name : String) : Prop where
  known : ∃ className ns, w.space? space = some ns ∧ ns.resolve? className = some ref ∧
    ns.objects.contains name = false ∧
    (Text.words ((w.forest.attr? n Template.markerAttr).getD "").toList).map String.ofList = [className, name]

theorem sameLinks_takeOver (w : World) (n r : NodeId) : w.forest.SameLinks (w.takeOver n r).forest :=
  Forest.sameLinks_setAttrs w.forest r _

/-- A marker gives way: the object that it asks for is made, the root of the object takes over the attributes of
the marker and then its place, and the object is registered. -/
def GivesWay (cb : Callbacks) (space : NamespaceId) (w : World) (n : NodeId) (w' : World) : Prop :=
  ∃ ref name i r p w₁, w.Asks space n ref name ∧ Run.constructMarked cb ref.id n w = (.ok i, w₁) ∧
    w₁.rootOf? i = some r ∧ w₁.forest.parent? n = some p ∧
    ((w₁.takeOver n r).forest.unlink r).GivesWay w'.forest p n r ∧
    w' = ((w₁.takeOver n r).mapForest fun _ => w'.forest).register space name i

end World

namespace Run

open World

variable {cb : Callbacks} {w w' w₁ : World} {space : NamespaceId} {n r : NodeId} {ref : ClassRef} {name : String}
  {i : InstanceId}

/-- What remains to be done when the object has been made. -/
theorem placeMarker_of_made (hasks : w.Asks space n ref name) (hmade : constructMarked cb ref.id n w = (.ok i, w₁))
    (hroot : w₁.rootOf? i = some r) : placeMarker cb space n w = (do
      edit fun f => f.insertAfter n r
      update fun w => (w.mapForest fun f => f.unlink n).register space name i : Run Unit) (w₁.takeOver n r) := by
  obtain ⟨className, ns, hns, href, hfree, hwords⟩ := hasks.known
  have hresolve : resolveIn space className w = (.ok ref, w) := by
    unfold resolveIn
    rw [bind_of_ok (theSpace_of hns), href]
    rfl
  unfold placeMarker
  rw [bind_of_ok (ask_apply _ w), hwords]
  dsimp only
  rw [bind_of_ok (theSpace_of hns), if_neg (by rw [hfree]; exact Bool.false_ne_true)]
  rw [bind_of_ok hresolve, bind_of_ok hmade, bind_of_ok (theRoot_of_root hroot), bind_of_ok (update_apply _ _)]
  rfl

/-- When its object has been made, a marker that stands nowhere is refused, and so is one that is not listed; any
other gives way. -/
theorem placeMarker_outcome (hasks : w.Asks space n ref name) (hmade : constructMarked cb ref.id n w = (.ok i, w₁))
    (hroot : w₁.rootOf? i = some r) (hr : r.index < w₁.forest.size) (hne : r ≠ n) :
    (w₁.forest.parent? n = none ∧ placeMarker cb space n w = (.error (.failed .anchorOutsideTree), w₁.takeOver n r)) ∨
      (∃ p, w₁.forest.parent? n = some p ∧ n ∉ (w₁.forest.unlink r).children p ∧
        (placeMarker cb space n w).1 = .error (.failed .anchorNotListed)) ∨
      ∃ w', placeMarker cb space n w = (.ok (), w') ∧ w.GivesWay cb space n w' := by
  rw [placeMarker_of_made hasks hmade hroot]
  have hsame := sameLinks_takeOver w₁ n r
  have hedit {res : Except Error Unit} {f : Forest} (h : (w₁.takeOver n r).forest.insertAfter n r = (res, f)) :
      edit (fun f => f.insertAfter n r) (w₁.takeOver n r) = ofExcept res ((w₁.takeOver n r).mapForest fun _ => f) := by
    rw [edit_apply, h]
  rcases (w₁.takeOver n r).forest.insertAfter_cases (hsame.size ▸ hr) hne with
    ⟨hnone, hins⟩ | ⟨p, hp, hn, hins⟩ | ⟨p, f, hp, hins, hway⟩
  · exact Or.inl ⟨(hsame.parent? n).symm.trans hnone, bind_of_error (hedit hins)⟩
  · refine Or.inr (Or.inl ⟨p, (hsame.parent? n).symm.trans hp, fun hmem => hn ?_, ?_⟩)
    · rw [Forest.children_unlink] at hmem ⊢
      rwa [hsame.parent?, hsame.children]
    · rw [bind_of_error (hedit hins)]
  · refine Or.inr (Or.inr ⟨((w₁.takeOver n r).mapForest fun _ => f.unlink n).register space name i, ?_, ?_⟩)
    · rw [bind_of_ok (hedit hins)]
      rfl
    · exact ⟨ref, name, i, r, p, w₁, hasks, hmade, hroot, (hsame.parent? n).symm.trans hp, hway, rfl⟩

end Run

/-! ## Markers below markers -/

namespace World

variable {w : World} {m n q : NodeId}

/-- A node records another one as its parent, in use or not. -/
def RecordedUp (w : World) (m q : NodeId) : Prop := w.forest.recorded? m = some q

/-- `m` hangs from `n` by way of nodes that nothing holds. -/
structure HangsFrom (w : World) (m n : NodeId) : Prop where
  below : ∃ q, w.RecordedUp m q ∧ ReflTransGen w.RecordedUp q n ∧
    ∀ a, ReflTransGen w.RecordedUp q a → a ∉ w.heldNodes

/-- In a settled world a node that stands nowhere is out of use, and so is what stands below it, unless something on
the way holds it. -/
theorem isAlive_of_below (hw : w.settle = w) (hbelow : ReflTransGen w.RecordedUp q n)
    (hout : w.forest.parent? n = none) (hfree : ∀ a, ReflTransGen w.RecordedUp q a → a ∉ w.heldNodes) :
    w.forest.isAlive q = false := by
  -- a node without a parent in use is listed by nobody
  have hdead {a : NodeId} (ha : w.forest.parent? a = none) (hnot : a ∉ w.heldNodes) : w.forest.isAlive a = false := by
    by_contra halive
    rw [Bool.not_eq_false] at halive
    have hunlisted : w.forest.isListed a = false := by
      unfold Forest.isListed
      rw [ha]
    have hunheld : a ∈ w.forest.unheld w.heldNodes.contains := by
      refine List.mem_filter.2 ⟨List.mem_map.2 ⟨a.index, List.mem_range.2 (Forest.lt_size_of_isAlive halive), rfl⟩, ?_⟩
      rw [halive, hunlisted, Bool.false_or, Bool.true_and, Bool.not_eq_true', Bool.eq_false_iff]
      exact fun hheld => hnot (List.contains_iff_mem.1 hheld)
    have hnone := unheld_settle w
    rw [hw] at hnone
    rw [hnone] at hunheld
    cases hunheld
  induction hbelow using ReflTransGen.head_induction_on with
  | refl => exact hdead hout (hfree n .refl)
  | head hup _ ih =>
    refine hdead ?_ (hfree _ .refl)
    have hparent := ih fun a ha => hfree a (.head hup ha)
    rw [Forest.parent?_eq, show w.forest.recorded? _ = some _ from hup, Option.filter_some, hparent]
    rfl

/-- So what hangs from a stray is a stray. -/
theorem HangsFrom.stray (h : w.HangsFrom m n) (hw : w.settle = w) (hn : w.Stray n) (hm : w.Rootless m) :
    w.Stray m := by
  obtain ⟨q, hup, hbelow, hfree⟩ := h.below
  refine ⟨hm, fun p hp => ?_⟩
  obtain rfl : q = p := Option.some.inj (hup.symm.trans hp)
  refine ⟨?_, isAlive_of_below hw hbelow hn.parent?_eq_none hfree⟩
  rcases ReflTransGen.cases_head hbelow with rfl | ⟨a, hqa, -⟩
  · exact hn.there
  · by_contra hlt
    rw [RecordedUp, Forest.recorded?_eq_none_of_le (Nat.not_lt.1 hlt)] at hqa
    cases hqa

end World

/-! ## All markers of a document -/

/-- The nodes are kept hold of as well, the last one first. -/
def World.holding (w : World) (ns : List NodeId) : World :=
  { w with pins := (ns.map Held.node).reverse ++ w.pins }

theorem World.steps_pins (w : World) (hs : List Held) : w.Steps { w with pins := hs } :=
  .single (.quiet rfl rfl rfl rfl rfl)

/-- One round of replacing markers: the marker gives way and is let go. -/
def Run.replaceMarker (cb : Callbacks) (space : NamespaceId) (n : NodeId) : Run Unit := do
  inScope (placeMarker cb space n)
  unpin (.node n)

/-- The first markers of a document have been replaced, while all of them were kept hold of. -/
def World.Replaces (cb : Callbacks) (space : NamespaceId) (d : NodeId) (w : World) (ns : List NodeId) (w₁ : World) :
    Prop :=
  ns.forM (Run.replaceMarker cb space) (w.holding (w.forest.markers d)) = (.ok (), w₁)

namespace Run

open World

variable {cb : Callbacks} {w w' w₁ : World} {space : NamespaceId} {d m n r : NodeId} {i : InstanceId} {ref : ClassRef}
  {name : String}

theorem forM_pin (ns : List NodeId) (w : World) : ns.forM (fun n => pin (.node n)) w = (.ok (), w.holding ns) := by
  induction ns generalizing w with
  | nil => rfl
  | cons n ns ih =>
    rw [forM_cons, bind_of_ok (pin_apply _ w), ih]
    unfold holding
    rw [List.map_cons, List.reverse_cons, List.append_assoc]
    rfl

/-- The markers are replaced one after the other, while all of them are kept hold of. -/
theorem placeMarkers_apply (cb : Callbacks) (space : NamespaceId) (d : NodeId) (w : World) :
    placeMarkers cb space d w =
      (((w.forest.markers d).forM (replaceMarker cb space) (w.holding (w.forest.markers d))).1,
        ({ ((w.forest.markers d).forM (replaceMarker cb space) (w.holding (w.forest.markers d))).2 with
          pins := w.pins } : World).settle) := by
  have hbody : placeMarkers cb space d = inScope (do
      let markers ← ask fun w => w.forest.markers d
      markers.forM fun n => pin (.node n)
      markers.forM (replaceMarker cb space)) := rfl
  rw [hbody, inScope_apply, bind_of_ok (ask_apply _ w), bind_of_ok (forM_pin _ w)]

/-! ### What one round does -/

theorem Keeps.steps_of_ok {α : Type} {x : Run α} {a : α} (hx : Keeps Proceeds x) (hw : w.Sound)
    (hrun : x w = (.ok a, w')) : w.Steps w' := by
  have hsteps := hx w hw
  rwa [hrun] at hsteps

section Rounds

variable (hcb : cb.SteadyBy World.Step)

include hcb

theorem proceeds_replaceMarker (n : NodeId) : Keeps Proceeds (replaceMarker cb space n) :=
  (proceeds_placeMarker hcb space n).scope.bind fun _ => keeps_unpin _

/-- A marker that is placed gives way. -/
theorem placeMarker_eq_ok (hw : w.Sound) (hrooted : w.Rooted) (hn : w.Rootless n)
    (hrun : placeMarker cb space n w = (.ok (), w')) : w.GivesWay cb space n w' := by
  have hparts := hrun
  unfold placeMarker at hparts
  rw [bind_of_ok (ask_apply _ w)] at hparts
  generalize hwords : (Text.words ((w.forest.attr? n Template.markerAttr).getD "").toList).map String.ofList =
    words at hparts
  split at hparts
  · next className objectName =>
    obtain ⟨ns, _, hspace, htest⟩ := bind_eq_ok_iff.1 hparts
    obtain ⟨hns, rfl⟩ := theSpace_eq_ok hspace
    dsimp only at htest
    split at htest
    · cases htest
    · next hfree =>
      obtain ⟨ref, _, hresolve, hmaking⟩ := bind_eq_ok_iff.1 htest
      obtain ⟨rfl, ns', hns', href⟩ := resolveIn_eq_ok hresolve
      obtain rfl := Option.some.inj (hns.symm.trans hns')
      obtain ⟨i, w₁, hmade, hrooting⟩ := bind_eq_ok_iff.1 hmaking
      obtain ⟨r, _, hroot, -⟩ := bind_eq_ok_iff.1 hrooting
      obtain ⟨hr, rfl⟩ := theRoot_eq_ok hroot
      have hasks : World.Asks _ space n ref objectName :=
        ⟨className, ns, hns, href, Bool.not_eq_true _ ▸ hfree, hwords⟩
      have hputs := ((proceeds_constructMarked hcb ref.id n).steps_of_ok hw hmade).putsOnlyRoots
      have hne : r ≠ n := by
        rintro rfl
        exact (hn.putsOnlyRoots hputs).not_root i hr
      rcases placeMarker_outcome hasks hmade hr (hputs.rooted hrooted i r hr) hne with
        ⟨-, hrefused⟩ | ⟨p, -, -, hrefused⟩ | ⟨w₂, hplaced, hway⟩
      · rw [hrun] at hrefused
        cases hrefused
      · rw [hrun] at hrefused
        cases hrefused
      · rw [hrun] at hplaced
        exact (Prod.mk.inj hplaced).2 ▸ hway
  · cases hparts

/-- A marker that has been replaced is a stray. -/
theorem replaceMarker_eq_ok (hw : w.Sound) (hrooted : w.Rooted) (hn : w.Rootless n)
    (hrun : replaceMarker cb space n w = (.ok (), w')) :
    (∃ w₁, w.GivesWay cb space n w₁) ∧ w'.Stray n ∧ w'.settle = w' := by
  obtain ⟨_, w₂, hscope, hunpin⟩ := bind_eq_ok_iff.1 hrun
  rw [inScope_apply] at hscope
  obtain ⟨hok, rfl⟩ := Prod.mk.inj hscope
  rcases hplace : placeMarker cb space n w with ⟨res, w₁⟩
  rw [hplace] at hok hunpin
  obtain rfl : res = .ok () := hok
  have hsteps := (proceeds_placeMarker hcb space n).steps_of_ok hw hplace
  have hway := placeMarker_eq_ok hcb hw hrooted hn hplace
  have hstray : w₁.Stray n := by
    refine ⟨hn.putsOnlyRoots hsteps.putsOnlyRoots, fun p hp => ?_⟩
    obtain ⟨ref, name, i, r, q, w₀, -, -, -, -, hgives, -⟩ := hway
    rw [hgives.marker] at hp
    cases hp
  obtain ⟨-, rfl⟩ := Prod.mk.inj hunpin
  refine ⟨⟨w₁, hway⟩, ?_, settle_settle _⟩
  -- what is left is to let go, twice
  have hscoped : w₁.Proceeds ({ w₁ with pins := w.pins } : World).settle :=
    upkeep_trans (upkeep_pins w₁ _) (upkeep_settle _)
  have hdone := upkeep_trans hscoped (keeps_unpin (R := Proceeds) (.node n) _)
  exact hstray.steps (hdone (hsteps.sound hw))

omit hcb in
theorem replaceMarker_of_error {e : Halt} (h : placeMarker cb space n w = (.error e, w')) :
    ∃ w₁, replaceMarker cb space n w = (.error e, w₁) := by
  refine ⟨({ w' with pins := w.pins } : World).settle, bind_of_error ?_⟩
  rw [inScope_apply, h]

/-- Markers that have been replaced are strays, and so they are when others have been replaced after them. -/
theorem forM_replaceMarker_eq_ok {ns : List NodeId} (hw : w.Sound) (hrooted : w.Rooted)
    (hns : ∀ n ∈ ns, w.Rootless n) (hrun : ns.forM (replaceMarker cb space) w = (.ok (), w')) :
    ∀ n ∈ ns, w'.Stray n := by
  induction ns generalizing w with
  | nil => exact fun n hn => by cases hn
  | cons n ns ih =>
    rw [forM_cons] at hrun
    obtain ⟨_, w₁, hround, hrest⟩ := bind_eq_ok_iff.1 hrun
    have hfirst := (proceeds_replaceMarker hcb n).steps_of_ok hw hround
    have hothers := (Keeps.forM (proceeds_replaceMarker hcb) ns).steps_of_ok (hfirst.sound hw) hrest
    obtain ⟨-, hstray, -⟩ := replaceMarker_eq_ok hcb hw hrooted (hns n List.mem_cons_self) hround
    refine List.forall_mem_cons.2 ⟨hstray.steps hothers, ?_⟩
    exact ih (hfirst.sound hw) (hfirst.putsOnlyRoots.rooted hrooted)
      (fun m hm => (hns m (List.mem_cons_of_mem n hm)).putsOnlyRoots hfirst.putsOnlyRoots) hrest

/-- A stray does not give way. -/
theorem not_givesWay_of_stray (hw : w.Sound) (hn : w.Stray n) : ¬ w.GivesWay cb space n w' := by
  rintro ⟨ref, name, i, r, p, w₁, -, hmade, -, hp, -⟩
  rw [(hn.steps ((proceeds_constructMarked hcb ref.id n).steps_of_ok hw hmade)).parent?_eq_none] at hp
  cases hp

/-! ### The rounds before -/

theorem replaces_steps {ns : List NodeId} (hw : w.Sound) (h : w.Replaces cb space d ns w₁) : w.Steps w₁ := by
  have hhold : w.Steps (w.holding (w.forest.markers d)) := steps_pins w _
  exact hhold.trans ((Keeps.forM (proceeds_replaceMarker hcb) ns).steps_of_ok (hhold.sound hw) h)

omit hcb in
theorem replaces_append_iff {ns ms : List NodeId} : w.Replaces cb space d (ns ++ ms) w' ↔
    ∃ w₁, w.Replaces cb space d ns w₁ ∧ ms.forM (replaceMarker cb space) w₁ = (.ok (), w') := by
  unfold World.Replaces
  exact forM_append_eq_ok_iff

omit hcb in
theorem replaces_unique {ns : List NodeId} (h : w.Replaces cb space d ns w₁) (h' : w.Replaces cb space d ns w') :
    w₁ = w' := by
  unfold World.Replaces at h h'
  exact (Prod.mk.inj (h.symm.trans h')).2

/-- A marker that hangs from one that has just been replaced is a stray. -/
theorem stray_of_replaces {ns : List NodeId} (hw : w.Sound) (hrooted : w.Rooted) (hn : w.Rootless n)
    (hm : w.Rootless m) (hdone : w.Replaces cb space d (ns ++ [n]) w₁) (hhangs : w₁.HangsFrom m n) : w₁.Stray m := by
  obtain ⟨w₀, hbefore, hlast⟩ := replaces_append_iff.1 hdone
  have hround : replaceMarker cb space n w₀ = (.ok (), w₁) := by
    rw [forM_cons] at hlast
    obtain ⟨_, w₂, hround, hnil⟩ := bind_eq_ok_iff.1 hlast
    rw [hround, show w₂ = w₁ from (Prod.mk.inj hnil).2]
  have hsteps := replaces_steps hcb hw hbefore
  have hputs := hsteps.putsOnlyRoots
  obtain ⟨-, hstray, hstill⟩ :=
    replaceMarker_eq_ok hcb (hsteps.sound hw) (hputs.rooted hrooted) (hn.putsOnlyRoots hputs) hround
  exact hhangs.stray hstill hstray (hm.putsOnlyRoots (replaces_steps hcb hw hdone).putsOnlyRoots)

/-! ### All rounds -/

/-- When the markers of a document have been replaced, each of them has given way in its turn, and none of them
stands anywhere. -/
theorem placeMarkers_eq_ok (hw : w.Sound) (hrooted : w.Rooted) (hmarkers : ∀ n ∈ w.forest.markers d, w.Rootless n)
    (hrun : placeMarkers cb space d w = (.ok (), w')) :
    (∀ n ∈ w.forest.markers d, w'.Stray n) ∧ ∀ pre n post, w.forest.markers d = pre ++ n :: post →
      ∃ w₁ w₂, w.Replaces cb space d pre w₁ ∧ w₁.GivesWay cb space n w₂ := by
  have hhold : w.Steps (w.holding (w.forest.markers d)) := steps_pins w _
  rw [placeMarkers_apply] at hrun
  rcases hloop : (w.forest.markers d).forM (replaceMarker cb space) (w.holding (w.forest.markers d)) with ⟨res, w₀⟩
  rw [hloop] at hrun
  obtain ⟨hok, rfl⟩ := Prod.mk.inj hrun
  obtain rfl : res = .ok () := hok
  have hloops : w.Steps w₀ := replaces_steps hcb hw hloop
  constructor
  · intro n hn
    have hstray := forM_replaceMarker_eq_ok hcb (hhold.sound hw) (hhold.putsOnlyRoots.rooted hrooted)
      (fun m hm => (hmarkers m hm).putsOnlyRoots hhold.putsOnlyRoots) hloop n hn
    have hdone : w₀.Proceeds ({ w₀ with pins := w.pins } : World).settle :=
      upkeep_trans (upkeep_pins w₀ _) (upkeep_settle _)
    exact hstray.steps (hdone (hloops.sound hw))
  · intro pre n post hsplit
    have hreplaces : w.Replaces cb space d (pre ++ n :: post) w₀ := hsplit ▸ hloop
    obtain ⟨w₁, hpre, hrest⟩ := replaces_append_iff.1 hreplaces
    rw [forM_cons] at hrest
    obtain ⟨_, w₃, hround, -⟩ := bind_eq_ok_iff.1 hrest
    have hbefore := replaces_steps hcb hw hpre
    have hn := (hmarkers n (by rw [hsplit]; exact List.mem_append_right _ List.mem_cons_self)).putsOnlyRoots
      hbefore.putsOnlyRoots
    obtain ⟨⟨w₂, hway⟩, -⟩ := replaceMarker_eq_ok hcb (hbefore.sound hw) (hbefore.putsOnlyRoots.rooted hrooted) hn hround
    exact ⟨w₁, w₂, hpre, hway⟩

/-- A marker that is a stray when it has its turn, and whose object can be made, is refused for standing nowhere. -/
theorem placeMarker_of_stray (hw : w.Sound) (hrooted : w.Rooted) (hm : w.Stray m) (hasks : w.Asks space m ref name)
    (hmade : constructMarked cb ref.id m w = (.ok i, w₁)) (hroot : w₁.rootOf? i = some r) :
    placeMarker cb space m w = (.error (.failed .anchorOutsideTree), w₁.takeOver m r) := by
  have hmaking := (proceeds_constructMarked hcb ref.id m).steps_of_ok hw hmade
  have hnone := (hm.steps hmaking).parent?_eq_none
  have hne : r ≠ m := by
    rintro rfl
    exact (hm.steps hmaking).not_root i hroot
  rcases placeMarker_outcome hasks hmade hroot (hmaking.putsOnlyRoots.rooted hrooted i r hroot) hne with
    ⟨-, hrefused⟩ | ⟨p, hp, -⟩ | ⟨w₂, -, hway⟩
  · exact hrefused
  · rw [hnone] at hp
    cases hp
  · exact absurd hway (not_givesWay_of_stray hcb hw hm)

/-- A marker that hangs from one that has been replaced keeps the document from being loaded. If its object can be
made, it is refused for standing nowhere. -/
theorem placeMarkers_of_hangsFrom (hw : w.Sound) (hrooted : w.Rooted)
    (hmarkers : ∀ n ∈ w.forest.markers d, w.Rootless n) {pre mid post : List NodeId}
    (hsplit : w.forest.markers d = pre ++ n :: (mid ++ m :: post)) (hdone : w.Replaces cb space d (pre ++ [n]) w₁)
    (hhangs : w₁.HangsFrom m n) : ∃ e w', placeMarkers cb space d w = (.error e, w') ∧
      ∀ w₂ ref name i r w₃, w.Replaces cb space d (pre ++ n :: mid) w₂ → w₂.Asks space m ref name →
        constructMarked cb ref.id m w₂ = (.ok i, w₃) → w₃.rootOf? i = some r → e = .failed .anchorOutsideTree := by
  have hstray := stray_of_replaces hcb hw hrooted (hmarkers n (by rw [hsplit]; simp)) (hmarkers m (by rw [hsplit]; simp))
    hdone hhangs
  have hafter := replaces_steps hcb hw hdone
  have hsame : w.forest.markers d = (pre ++ n :: mid) ++ m :: post := by rw [hsplit, List.append_assoc, List.cons_append]
  -- it still is one when it has its turn
  have hturn {w₂ : World} (hmid : w.Replaces cb space d (pre ++ n :: mid) w₂) : w₂.Stray m := by
    rw [show pre ++ n :: mid = (pre ++ [n]) ++ mid by simp] at hmid
    obtain ⟨w₀, hdone', hmid⟩ := replaces_append_iff.1 hmid
    obtain rfl := replaces_unique hdone hdone'
    exact hstray.steps ((Keeps.forM (proceeds_replaceMarker hcb) mid).steps_of_ok (hafter.sound hw) hmid)
  rcases hrun : placeMarkers cb space d w with ⟨e | _, w'⟩
  · refine ⟨e, w', rfl, fun w₂ ref name i r w₃ hmid hasks hmade hroot => ?_⟩
    have hbefore := replaces_steps hcb hw hmid
    have hsound := hbefore.sound hw
    have hrefused : placeMarker cb space m w₂ = (.error (.failed .anchorOutsideTree), w₃.takeOver m r) :=
      placeMarker_of_stray hcb hsound (hbefore.putsOnlyRoots.rooted hrooted) (hturn hmid) hasks hmade hroot
    obtain ⟨w₄, hround⟩ := replaceMarker_of_error hrefused
    have hloop : (pre ++ n :: mid ++ m :: post).forM (replaceMarker cb space) (w.holding (w.forest.markers d)) =
        (.error (.failed .anchorOutsideTree), w₄) := by
      unfold World.Replaces at hmid
      rw [forM_append, bind_of_ok hmid, forM_cons, bind_of_error hround]
    rw [← hsame] at hloop
    rw [placeMarkers_apply, hloop] at hrun
    exact (Except.error.inj (Prod.mk.inj hrun).1).symm
  · exfalso
    obtain ⟨-, hways⟩ := placeMarkers_eq_ok hcb hw hrooted hmarkers hrun
    obtain ⟨w₂, w₃, hmid, hway⟩ := hways (pre ++ n :: mid) m post hsame
    exact not_givesWay_of_stray hcb ((replaces_steps hcb hw hmid).sound hw) (hturn hmid) hway

end Rounds

end Run

/-! ## In a session -/

namespace Session

/-- What commands do proceeds by elementary changes of every kind. -/
theorem Reached.stepsBy {S : World → World → Prop} [IsStepping S] {s : Session} (hs : s.Reached) :
    World.StepsBy S {} s.world := by
  induction hs with
  | start watched => exact .refl
  | @step s hs c ih =>
    have hlog : World.StepsBy S {} { s.world with log := [] } :=
      ih.tail (World.Step.by_instances (.quiet rfl rfl rfl rfl rfl) rfl)
    have hcommand := Run.proceeds_perform (Callbacks.steadyBy_ofDepth (S := S) callDepth) none c
    exact hlog.trans (hcommand.scope _ (World.StepsBy.sound hlog (World.Fresh.sound ⟨.empty, rfl, rfl⟩)))

theorem Reached.steps {s : Session} (hs : s.Reached) : ({} : World).Steps s.world := hs.stepsBy

theorem Reached.sound {s : Session} (hs : s.Reached) : s.world.Sound :=
  World.Steps.sound hs.steps (World.Fresh.sound ⟨.empty, rfl, rfl⟩)

theorem Reached.rooted {s : Session} (hs : s.Reached) : s.world.Rooted :=
  hs.steps.putsOnlyRoots.rooted fun i r hr => by cases hr

end Session

/-! ### A marker inside a marker -/

namespace World

/-- Leaves are known. -/
def leaves : Session :=
  (({} : Session).step (.load "main" "<template ooml-class='Leaf'><b>leaf</b></template>" [])).2

/-- A document with a marker inside another one is planted. -/
def nestedDocument : NodeId × Forest := leaves.world.forest.plantDocument (Markup.Document.read
  "<div ooml-instantiate='Leaf outer'><i ooml-instantiate='Leaf inner'></i></div>")

def nestedMarkers : World :=
  { leaves.world.mapForest fun _ => nestedDocument.2 with pins := [.node nestedDocument.1] }

theorem steps_nestedMarkers : leaves.world.Steps nestedMarkers := by
  have hplant : leaves.world.Step (leaves.world.mapForest fun _ => nestedDocument.2) :=
    .moves nestedDocument.2 (.plantDocument leaves.world.forest _) (Run.putsRoots_plantDocument leaves.world _)
  exact ReflTransGen.trans (.single hplant) (steps_pins (leaves.world.mapForest fun _ => nestedDocument.2) _)

/-- The outer marker has given way and has been let go. -/
def outerPlaced : Except Halt Unit × World :=
  Run.replaceMarker (Callbacks.ofDepth 1) ⟨0⟩ ⟨5⟩ (nestedMarkers.holding [⟨5⟩, ⟨6⟩])

end World

namespace Run

open World

theorem eq_ok_of_toOption {α : Type} {x : Except Halt α × World} {a : α} (h : x.1.toOption = some a) :
    x = (.ok a, x.2) := by
  rcases x with ⟨e | b, w⟩
  · cases h
  · rw [Option.some.inj h]

/-- What the inner marker asks for is made. -/
def innerMade : Except Halt InstanceId × World := constructMarked (Callbacks.ofDepth 1) ⟨0⟩ ⟨6⟩ outerPlaced.2

end Run

end ReactiveView
