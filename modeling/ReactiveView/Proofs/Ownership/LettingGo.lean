import ReactiveView.Host.Perform
import ReactiveView.Proofs.Forest.Kinds
import ReactiveView.Proofs.Ownership.Thin
import ReactiveView.Proofs.Upkeep

/-!
# What going out of use leaves behind

Letting go changes no record but for the attachment and for what is in use, and no node but for its links
(`World.Wanes`). When holders go away in an orderly world, in use stays whoever a handle holds or a holder that
stays. All others set their children free: these lose the place and the parent of their root, keep their records
and print as before, and collections that outlive their owner are left empty. Nobody else loses anything
(`World.LetsGo`, `World.Orderly.letsGo_settle`).

A view prints as before because the nodes below its root are those of views that stay: a root that is listed
somewhere is the root of an occupant (`Layout.Linked.inhabited_down`).
-/

set_option autoImplicit false

namespace ReactiveView

namespace Forest

variable {f f' : Forest} {n m : NodeId}

/-! ## Trees that print alike -/

theorem treeBelow_succ (f : Forest) (fuel : Nat) (n : NodeId) :
    f.treeBelow (fuel + 1) n =
      match f.kind? n with
      | some (.text s) => .text s
      | some (.comment s) => .comment s
      | some (.element name attrs apart) => .element name attrs apart ((f.children n).map (f.treeBelow fuel))
      | some .fragment => .element (.html "") [] false ((f.children n).map (f.treeBelow fuel))
      | none => .text "" := by
  unfold kind? children
  rw [treeBelow]
  cases f.node? n with
  | none => rfl
  | some node => cases hk : node.kind <;> simp only [Option.map_some, hk]

/-- A set of nodes that is closed under going down, with the same kinds and the same lists, stands for the
same trees. -/
theorem treeBelow_congr {Good : NodeId → Prop} (hdown : ∀ n c, Good n → c ∈ f.children n → Good c)
    (hkind : ∀ n, f'.kind? n = f.kind? n) (hchildren : ∀ n, Good n → f'.children n = f.children n)
    (fuel : Nat) (hn : Good n) : f'.treeBelow fuel n = f.treeBelow fuel n := by
  induction fuel generalizing n with
  | zero => rfl
  | succ fuel ih =>
    have hbelow : (f.children n).map (f'.treeBelow fuel) = (f.children n).map (f.treeBelow fuel) :=
      List.map_congr_left fun c hc => ih (hdown n c hn hc)
    rw [treeBelow_succ, treeBelow_succ, hkind, hchildren n hn, hbelow]

/-! ## What nodes are -/

theorem kind?_unlink (f : Forest) (n m : NodeId) : (f.unlink n).kind? m = f.kind? m := by
  unfold unlink
  refine (kind?_modify (g := fun node => { node with parent := none }) fun _ => rfl).trans ?_
  split
  · exact kind?_modify (g := fun node => { node with children := node.children.erase n }) fun _ => rfl
  · rfl

theorem kind?_release (f : Forest) (dead : List NodeId) (m : NodeId) : (f.release dead).kind? m = f.kind? m := by
  unfold kind?
  rw [node?_release, Option.map_map]
  rfl

theorem kind?_sweep (f : Forest) (held : NodeId → Bool) (fuel : Nat) (m : NodeId) :
    (f.sweep held fuel).kind? m = f.kind? m := by
  induction fuel generalizing f with
  | zero => rfl
  | succ fuel ih =>
    unfold sweep
    split
    · rfl
    · rw [ih, kind?_release]

end Forest

namespace Layout.Linked

variable {L : Layout} {f : Forest} {att : InstanceId → Option Place} {live stays : InstanceId → Prop}
  {occ : Place → List InstanceId} {n c : NodeId}

/-- What is listed in the view of one who stays is in the view of one who stays, if the occupants of those who
stay do. -/
theorem inhabited_down (h : L.Linked f att live occ)
    (hstays : ∀ pl P m i, stays P → L.spot pl = some (P, m) → i ∈ occ pl → stays i)
    (hn : L.Inhabited f stays n) (hc : c ∈ f.children n) : L.Inhabited f stays c := by
  obtain ⟨P, r, hP, hr, hwithin⟩ := hn
  by_cases hroot : L.IsRoot c
  · obtain ⟨i, hi⟩ := hroot
    obtain ⟨pl, Q, m, hmem, hspot, hm⟩ := h.listed i c n hi hc
    obtain ⟨Q', m', hspot', hQ⟩ := h.live_owner i pl hmem
    obtain ⟨rfl, rfl⟩ := Prod.mk.inj (Option.some.inj (hspot.symm.trans hspot'))
    obtain ⟨r', hr', hwithin'⟩ := h.within_list hQ hspot hm
    obtain rfl := hwithin.unique h.tidy ⟨P, hr⟩ ⟨Q, hr'⟩ hwithin'
    obtain rfl := h.sound.root_inj P Q r hr hr'
    exact ⟨i, c, hstays pl P m i hP hspot hmem, hi, .top⟩
  · exact ⟨P, r, hP, hr, .listed hroot hc hwithin⟩

end Layout.Linked

/-- A record without what letting go may change. -/
def Instance.lasting (x : Instance) : Instance := { x with attachment := none, alive := false }

/-- A record without what letting go may change. -/
def Collection.lasting (x : Collection) : Collection := { x with items := [], alive := false }

namespace World

variable {w w' w'' : World} {i P : InstanceId} {pl : Place} {m : NodeId}

/-! ## Records that last -/

/-- Attachments may have been cleared and items taken, and instances and collections may have gone out of use;
otherwise records and nodes are as before. -/
structure Wanes (w w' : World) : Prop where
  classes : w'.classes = w.classes
  objects : ∀ n, (w'.space? n).map (·.objects) = (w.space? n).map (·.objects)
  record : ∀ i, (w'.inst? i).map Instance.lasting = (w.inst? i).map Instance.lasting
  listing : ∀ k, (w'.coll? k).map Collection.lasting = (w.coll? k).map Collection.lasting
  attachment : ∀ i, w'.attachment? i = w.attachment? i ∨ w'.attachment? i = none
  alive : ∀ i, w'.isAlive i = true → w.isAlive i = true
  kind : ∀ n, w'.forest.kind? n = w.forest.kind? n
  size : w'.forest.size = w.forest.size

namespace Wanes

theorem rfl : w.Wanes w :=
  ⟨.refl _, fun _ => .refl _, fun _ => .refl _, fun _ => .refl _, fun _ => .inl (.refl _), fun _ => id,
    fun _ => .refl _, .refl _⟩

theorem trans (h : w.Wanes w') (h' : w'.Wanes w'') : w.Wanes w'' where
  classes := h'.classes.trans h.classes
  objects n := (h'.objects n).trans (h.objects n)
  record i := (h'.record i).trans (h.record i)
  listing k := (h'.listing k).trans (h.listing k)
  attachment i := by
    rcases h'.attachment i with heq | hnone
    · rw [heq]
      exact h.attachment i
    · exact .inr hnone
  alive i hi := h.alive i (h'.alive i hi)
  kind n := (h'.kind n).trans (h.kind n)
  size := h'.size.trans h.size

/-- A change of the live trees that keeps what the nodes are. -/
theorem mapForest (w : World) {g : Forest → Forest} (hkind : ∀ f n, (g f).kind? n = f.kind? n)
    (hsize : ∀ f, (g f).size = f.size) : w.Wanes (w.mapForest g) :=
  { Wanes.rfl (w := w) with kind := hkind w.forest, size := hsize w.forest }

theorem modifyInstance (w : World) (i : InstanceId) {f : Instance → Instance}
    (hf : ∀ x, (f x).lasting = x.lasting) (hatt : ∀ j, (w.modifyInstance i f).attachment? j = w.attachment? j ∨
      (w.modifyInstance i f).attachment? j = none)
    (halive : ∀ j, (w.modifyInstance i f).isAlive j = true → w.isAlive j = true) :
    w.Wanes (w.modifyInstance i f) :=
  { Wanes.rfl (w := w) with
    record := map_inst?_modifyInstance _ hf w i
    attachment := hatt
    alive := halive }

theorem modifyCollection (w : World) (k : CollectionId) {f : Collection → Collection}
    (hf : ∀ x, (f x).lasting = x.lasting) : w.Wanes (w.modifyCollection k f) :=
  { Wanes.rfl (w := w) with listing := map_coll?_modifyCollection _ hf w k }

theorem shape (h : w.Wanes w') : w.SameShape w' where
  classes := h.classes
  inst i := by
    have hmap (o : Option Instance) : o.map Instance.shape = (o.map Instance.lasting).map Instance.shape := by
      rw [Option.map_map]
      rfl
    rw [hmap (w'.inst? i), hmap (w.inst? i), h.record]
  coll k := by
    have hmap (o : Option Collection) : o.map Collection.shape = (o.map Collection.lasting).map Collection.shape := by
      rw [Option.map_map]
      rfl
    rw [hmap (w'.coll? k), hmap (w.coll? k), h.listing]
  objects := h.objects

end Wanes

instance : IsLettingGo Wanes where
  refl _ := .rfl
  trans _ _ _ := .trans
  unlink w n := .mapForest w (fun f m => f.kind?_unlink n m) fun f => f.size_unlink n
  sweep w held := .mapForest w (fun f m => f.kind?_sweep held _ m) fun f => f.size_sweep held _
  free w i := by
    refine .modifyInstance w i (fun _ => rfl) (fun j => ?_) fun j hj => ?_
    · have hatt := congrFun (attachment?_setAttachment_none w i) j
      by_cases hij : j = i
      · rw [hij, Function.update_self] at hatt
        exact .inr (hij ▸ hatt)
      · rw [Function.update_of_ne hij] at hatt
        exact .inl hatt
    · rwa [← isAlive_congr (map_inst?_setAttachment (·.alive) (fun _ _ => rfl) w i none j)]
  retire w i := by
    refine .modifyInstance w i (fun _ => rfl) (fun j => .inl ?_) fun j hj => ?_
    · exact attachment?_congr (map_inst?_buried (·.attachment) (fun _ _ => rfl) w i j)
    · have halive := (isAlive_buried w i j).symm.trans hj
      exact (Bool.and_eq_true_iff.1 halive).1
  retireColl w k := .modifyCollection w k fun _ => rfl
  retireSpace w n :=
    { Wanes.rfl (w := w) with objects := (calm_modifySpace w n (by exact fun _ => rfl)).shape.objects }
  clear w k := .modifyCollection w k fun _ => rfl

theorem wanes_settle (w : World) : w.Wanes w.settle := upkeep_settle w

/-! ## What is left behind -/

/-- Holders have gone away: in use is still what a handle holds, or a holder that stays. What its holder has
left is free, with its root out of the tree. Lists whose owner is gone are empty. Everything else is as it was. -/
structure LetsGo (w w' : World) : Prop where
  alive_iff : ∀ i, w'.isAlive i = true ↔ w.isAlive i = true ∧ (i ∈ w'.handles ∨
    ∃ pl P, w.placeOf? i = some pl ∧ w.ownerOf? pl = some P ∧ w'.isAlive P = true)
  record : ∀ i, (w'.inst? i).map Instance.lasting = (w.inst? i).map Instance.lasting
  held : ∀ i pl P, w.placeOf? i = some pl → w.ownerOf? pl = some P → w'.isAlive P = true →
    w'.attachment? i = w.attachment? i
  freed : ∀ i pl P, w.placeOf? i = some pl → w.ownerOf? pl = some P → w'.isAlive P = false →
    w'.attachment? i = none ∧ ∀ r, w.rootOf? i = some r → w'.forest.parent? r = none
  free : ∀ i, w.attachment? i = none → w'.attachment? i = none
  listing : ∀ k, (w'.coll? k).map Collection.lasting = (w.coll? k).map Collection.lasting
  items : ∀ k x, w.coll? k = some x → w'.itemsOf k = if w'.isAlive x.owner then x.items else []
  html : ∀ i, w'.isAlive i = true → w'.html i = w.html i

namespace Orderly

variable (hw : w.Orderly)

include hw

/-- A place that holds somebody has a marker in the view of its owner. -/
theorem exists_spot {P : InstanceId} (hi : i ∈ w.occupants pl) (howner : w.ownerOf? pl = some P) :
    ∃ m, w.layout.spot pl = some (P, m) := by
  obtain ⟨Q, m, hspot, -⟩ := hw.linked.live_owner i pl hi
  obtain rfl := Option.some.inj ((ownerOf?_of_spot hspot).symm.trans howner)
  exact ⟨m, hspot⟩

/-- A place whose owner is gone is empty. -/
theorem occupants_eq_nil (hP : ∀ P m, w.layout.spot pl = some (P, m) → w.isAlive P ≠ true) : w.occupants pl = [] := by
  refine List.eq_nil_iff_forall_not_mem.2 fun i hi => ?_
  obtain ⟨P, m, hspot, halive⟩ := hw.linked.live_owner i pl hi
  exact hP P m hspot halive

theorem handles_settle : w.settle.handles = w.handles := by
  unfold handles
  rw [pins_settle, (hw.settle.2.1 _ w.anchored_empty).registry]

/-- Whoever stays is held by a handle or by one who stays. -/
theorem held_of_stays (hi : w.settle.isAlive i = true) : w.isAlive i = true ∧ (i ∈ w.handles ∨
    ∃ pl P m, i ∈ w.occupants pl ∧ w.layout.spot pl = some (P, m) ∧ w.settle.isAlive P = true) := by
  refine ⟨(wanes_settle w).alive i hi, ?_⟩
  rcases (hw.anchored_settle i hi).2 with hhandle | ⟨pl, P, m, hocc, hspot, hP⟩
  · rw [hw.handles_settle] at hhandle
    exact .inl hhandle
  · have hplace := (thins_settle w).place i pl ((hw.settle.1.linked.place_iff i pl).2 hocc)
    rw [(wanes_settle w).shape.layout] at hspot
    exact .inr ⟨pl, P, m, (hw.linked.place_iff i pl).1 hplace, hspot, hP⟩

/-- So those who stay are respected. -/
theorem respects_settle : w.Respects (fun i => w.settle.isAlive i = true) w.settle :=
  hw.settle.2.1 _ fun _ hi => hw.held_of_stays hi

theorem stays_of_occupant {P : InstanceId} (hi : i ∈ w.occupants pl) (hspot : w.layout.spot pl = some (P, m))
    (hP : w.settle.isAlive P = true) : w.settle.isAlive i = true ∧ i ∈ w.settle.occupants pl := by
  have hocc : i ∈ w.settle.occupants pl := by
    rw [hw.respects_settle.occ pl P m hP hspot]
    exact hi
  exact ⟨hw.settle.1.linked.live_item i pl hocc, hocc⟩

/-- Whoever stays prints as before. -/
theorem html_settle (hi : w.settle.isAlive i = true) : w.settle.html i = w.html i := by
  obtain ⟨r, hr⟩ := hw.linked.rooted i ((wanes_settle w).alive i hi)
  have hr' : w.settle.rootOf? i = some r := ((wanes_settle w).shape.rootOf? i).trans hr
  have hroot : w.rootOf? i = some r := hr
  have htree : w.settle.forest.tree r = w.forest.tree r := by
    unfold Forest.tree
    rw [(wanes_settle w).size]
    have hdown : ∀ n c, w.layout.Inhabited w.forest (fun j => w.settle.isAlive j = true) n →
        c ∈ w.forest.children n → w.layout.Inhabited w.forest (fun j => w.settle.isAlive j = true) c :=
      fun n c hn hc => hw.linked.inhabited_down
        (fun pl P m j hP hspot hj => (hw.stays_of_occupant hj hspot hP).1) hn hc
    refine Forest.treeBelow_congr hdown (wanes_settle w).kind ?_ _ ⟨i, r, hi, hr, .top⟩
    rintro n ⟨P, rP, hP, hrP, hn⟩
    exact (hw.respects_settle.view P hP rP n hrP hn).2
  unfold html
  rw [hr', hroot]
  exact congrArg Markup.printed htree

/-- Settling lets go of what nothing holds, and of nothing else. -/
theorem letsGo_settle : w.LetsGo w.settle where
  alive_iff i := by
    constructor
    · intro hi
      obtain ⟨halive, hhandle | ⟨pl, P, m, hocc, hspot, hP⟩⟩ := hw.held_of_stays hi
      · rw [hw.handles_settle]
        exact ⟨halive, .inl hhandle⟩
      · exact ⟨halive, .inr ⟨pl, P, (hw.linked.place_iff i pl).2 hocc, ownerOf?_of_spot hspot, hP⟩⟩
    · rintro ⟨-, hhandle | ⟨pl, P, hplace, howner, hP⟩⟩
      · exact hw.settle.1.handled i hhandle
      · have hocc := (hw.linked.place_iff i pl).1 hplace
        obtain ⟨m, hspot⟩ := hw.exists_spot hocc howner
        exact (hw.stays_of_occupant hocc hspot hP).1
  record := (wanes_settle w).record
  held i pl P hplace howner hP := by
    have hocc := (hw.linked.place_iff i pl).1 hplace
    obtain ⟨m, hspot⟩ := hw.exists_spot hocc howner
    have hplace' := (hw.settle.1.linked.place_iff i pl).2 (hw.stays_of_occupant hocc hspot hP).2
    refine ((wanes_settle w).attachment i).resolve_right fun hnone => ?_
    rw [placeOf?_eq_none_iff_attachment?.2 hnone] at hplace'
    cases hplace'
  freed i pl P hplace howner hP := by
    have hnone : w.settle.placeOf? i = none := by
      refine Option.eq_none_iff_forall_ne_some.2 fun pl' hplace' => ?_
      obtain rfl := Option.some.inj (hplace.symm.trans ((thins_settle w).place i pl' hplace'))
      obtain ⟨Q, m, hspot, hQ⟩ :=
        hw.settle.1.linked.live_owner i pl ((hw.settle.1.linked.place_iff i pl).1 hplace')
      rw [(wanes_settle w).shape.layout] at hspot
      obtain rfl := Option.some.inj ((ownerOf?_of_spot hspot).symm.trans howner)
      rw [hP] at hQ
      cases hQ
    refine ⟨placeOf?_eq_none_iff_attachment?.1 hnone, fun r => (thins_settle w).parted i r ?_⟩
    rw [hnone, hplace]
    exact nofun
  free i hfree := by
    rcases (wanes_settle w).attachment i with heq | hnone
    · exact heq.trans hfree
    · exact hnone
  listing := (wanes_settle w).listing
  items k x hx := by
    have hspot := spot_of_coll? hx
    change w.settle.occupants (.sequence k) = _
    split
    · next hP =>
      rw [hw.respects_settle.occ (.sequence k) x.owner x.anchor hP hspot]
      change w.itemsOf k = x.items
      unfold itemsOf
      rw [hx]
    · next hP =>
      refine hw.settle.1.occupants_eq_nil fun Q m hspot' => ?_
      rw [(wanes_settle w).shape.layout, hspot] at hspot'
      obtain ⟨rfl, -⟩ := Prod.mk.inj (Option.some.inj hspot')
      exact hP
  html _ := hw.html_settle

end Orderly

/-! ## When everything is held -/

/-- Instances, places, values and labels are as before. -/
structure AsBefore (w w' : World) : Prop where
  shape : w.SameShape w'
  registry : w'.registry = w.registry
  alive : ∀ i, w'.isAlive i = w.isAlive i
  attachment : ∀ i, w'.attachment? i = w.attachment? i
  occupants : w'.occupants = w.occupants
  stored : ∀ P name, w'.stored? P name = w.stored? P name

/-- Settling changes nothing of this if every instance in use is held. -/
theorem Orderly.asBefore_settle (hw : w.Orderly) (hs : w.Anchored fun i => w.isAlive i = true) :
    w.AsBefore w.settle := by
  have hlets := hw.letsGo_settle
  have hstays (i : InstanceId) (hi : w.isAlive i = true) : w.settle.isAlive i = true :=
    (hw.settle.2.1 _ hs).alive i hi
  refine ⟨(wanes_settle w).shape, (hw.settle.2.1 _ hs).registry, fun i => ?_, fun i => ?_, funext fun pl => ?_,
    fun P name => ?_⟩
  · exact Bool.eq_iff_iff.2 ⟨(wanes_settle w).alive i, hstays i⟩
  · cases hplace : w.placeOf? i with
    | none =>
      have hfree := placeOf?_eq_none_iff_attachment?.1 hplace
      exact (hlets.free i hfree).trans hfree.symm
    | some pl =>
      obtain ⟨P, m, hspot, hP⟩ := hw.linked.live_owner i pl ((hw.linked.place_iff i pl).1 hplace)
      exact hlets.held i pl P hplace (ownerOf?_of_spot hspot) (hstays P hP)
  · by_cases hP : ∃ P m, w.layout.spot pl = some (P, m) ∧ w.isAlive P = true
    · obtain ⟨P, m, hspot, hP⟩ := hP
      exact (hw.settle.2.1 _ hs).occ pl P m hP hspot
    · rw [hw.occupants_eq_nil fun P m hspot halive => hP ⟨P, m, hspot, halive⟩]
      refine hw.settle.1.occupants_eq_nil fun P m hspot halive => hP ⟨P, m, ?_, (wanes_settle w).alive P halive⟩
      rw [← (wanes_settle w).shape.layout]
      exact hspot
  · refine stored?_congr (wanes_settle w).shape ?_ name
    have hmap (o : Option Instance) : o.map (·.values) = (o.map Instance.lasting).map (·.values) := by
      rw [Option.map_map]
      rfl
    rw [hmap (w.settle.inst? P), hmap (w.inst? P), (wanes_settle w).record]

end World

end ReactiveView
