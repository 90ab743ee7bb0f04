import ReactiveView.Proofs.Projection.Bindings
import ReactiveView.Proofs.Projection.Refilling

/-!
# Filling an instance from data

The properties of an instance are written one after the other from data. After some of the writes
(`World.Filling`), the primitive properties that are determined by them have their final values, and the slots
and collections that have been written hold younger instances, which show what is to be shown. Every write
succeeds and keeps this for what has been written before (`World.Filling.setProperty`), whatever the order.
When everything has been written, the instance shows the data (`World.Filling.shows`).
-/

set_option autoImplicit false

namespace ReactiveView

namespace World

variable {w w' w'' : World} {hit : Place → Prop} {T : InstanceId} {c : Class} {x : Instance} {n : Nat}
  {p : PropertyDescriptor} {v : Value} {pl : Place} {m : NodeId} {level : Nat} {js : List Json} {j : Json}
  {tbl : Table Class} {done : String → Prop}

/-! ## Writes of primitive properties -/

/-- The places of primitive properties, which hold no instances. -/
def PlainPlace (T : InstanceId) (c : Class) (pl : Place) : Prop :=
  ∃ p ∈ c.descriptor.properties, p.kind.isPrimitive = true ∧ pl = .slot T p.name

/-- The values of primitive properties change, and nothing else. -/
def WritesPlain (T : InstanceId) (c : Class) (w w' : World) : Prop :=
  w.Built → w.classOf? T = some c → w.isAlive T = true → w.Calm w' ∧ w.Intact (PlainPlace T c) w'

theorem Calm.intact (h : w.Calm w') (hstored : ∀ P x name, w.inst? P = some x → ¬ hit (.slot P name) →
    w'.stored? P name = w.stored? P name) : w.Intact hit w' where
  toExtends := .of_sameShape h.shape
  stored := hstored
  occ _ _ _ _ _ _ _ := by rw [h.occupants]

instance : IsPreorder World (WritesPlain T c) where
  refl _ _ _ _ := ⟨.rfl, .rfl⟩
  trans a b d hab hbd hb hc halive := by
    obtain ⟨hcalm, hintact⟩ := hab hb hc halive
    obtain ⟨hcalm', hintact'⟩ := hbd (hcalm.built hb) (hcalm.classOf? hc) ((hcalm.alive T).trans halive)
    exact ⟨hcalm.trans hcalm', hintact.trans hintact' fun P hP _ => (hcalm.alive P).trans hP⟩

theorem bears_writesPlain : Bears (WritesPlain T c) T c where
  formed w w' h hb hc halive := by
    obtain ⟨x, hx, hcx⟩ := exists_of_classOf? hc
    obtain ⟨view, hf⟩ := hb.formed hx hcx
    exact h x view hx hf hb hc halive
  render w f hf _ _ _ := by
    have hcalm : w.Calm (w.mapScreen f) := calm_mapScreen hf
    exact ⟨hcalm, hcalm.intact fun _ _ _ _ _ => .refl _⟩
  store w n p types v hp hk hv hb hc halive := by
    obtain ⟨x, hx, hcx⟩ := exists_of_classOf? hc
    obtain ⟨view, hf⟩ := hb.formed hx hcx
    have hcalm := hb.calm_storeValue hx hcx hp hk hv halive
    refine ⟨hcalm, hcalm.intact fun P _ name _ hne => ?_⟩
    refine hf.stored?_storeValue_of_ne hx hp (hb.compiled.valid hcx) fun heq => hne ?_
    exact ⟨p, List.mem_of_getElem? hp, by rw [hk]; rfl, heq⟩

/-! ## The places of slots and array properties -/

/-- The place of a slot, or of an array property with its collection. -/
def placeFor (T : InstanceId) (p : PropertyDescriptor) : Value → Place
  | .coll d => .sequence d
  | _ => .slot T p.name

theorem Formed.placeFor_slot {view : View} (hf : w.Formed T x c view) (hp : c.descriptor.properties[n]? = some p)
    {element : ElementType} (hk : p.kind = .slot element) (hv : x.values[n]? = some v) :
    placeFor T p v = .slot T p.name := by
  obtain ⟨site, old, -, hold, hfits⟩ := hf.exists_site hp
  obtain rfl := Option.some.inj (hv.symm.trans hold)
  rw [hk] at hfits
  cases hfits with
  | empty => rfl
  | child => rfl

theorem Orderly.spot_placeFor (hw : w.Orderly) (hT : w.isAlive T = true) (hx : w.inst? T = some x)
    (hc : w.class? x.classId = some c) (hp : c.descriptor.properties[n]? = some p)
    (hprim : p.kind.isPrimitive = false) (hv : x.values[n]? = some v) :
    ∃ m, w.layout.spot (placeFor T p v) = some (T, m) := by
  obtain ⟨view, hf⟩ := hw.toBuilt.formed hx hc
  cases hk : p.kind with
  | primitive types =>
    rw [hk] at hprim
    cases hprim
  | slot element =>
    obtain ⟨view', m, sink, val, -, -, -, -, hspot⟩ := Run.slot_spec hw hx hc hp hk hT
    rw [hf.placeFor_slot hp hk hv]
    exact ⟨m, hspot⟩
  | sequence element =>
    obtain ⟨k, y, -, hval, hy, rfl, -⟩ := hf.exists_sequence hp hk
    obtain rfl := Option.some.inj (hv.symm.trans hval)
    exact ⟨y.anchor, spot_of_coll? hy⟩

/-- Different properties have different places. -/
theorem Sound.name_eq_of_placeFor (hs : w.Sound) (hx : w.inst? T = some x) (hc : w.class? x.classId = some c)
    {n' : Nat} {p' : PropertyDescriptor} {v' : Value} (hp : c.descriptor.properties[n]? = some p)
    (hp' : c.descriptor.properties[n']? = some p') (hv : x.values[n]? = some v) (hv' : x.values[n']? = some v')
    (heq : placeFor T p v = placeFor T p' v') : p.name = p'.name := by
  have hsuits := (hs.fills hx hc).values
  obtain ⟨u, hu, hsuit⟩ := getElem?_of_forall₂ hsuits hp
  obtain rfl := Option.some.inj (hv.symm.trans hu)
  obtain ⟨u', hu', hsuit'⟩ := getElem?_of_forall₂ hsuits hp'
  obtain rfl := Option.some.inj (hv'.symm.trans hu')
  unfold placeFor at heq
  split at heq
  · split at heq
    · obtain rfl := Place.sequence.inj heq
      cases hsuit with
      | primitive _ h => cases h
      | sequence _ hy _ _ hname =>
        cases hsuit' with
        | primitive _ h => cases h
        | sequence _ hy' _ _ hname' =>
          obtain rfl := Option.some.inj (hy.symm.trans hy')
          exact hname.symm.trans hname'
    · cases heq
  · split at heq
    · cases heq
    · exact (Place.slot.inj heq).2

/-- Younger instances stand at a place and show certain data. -/
def Holding (w : World) (T : InstanceId) (level : Nat) (pl : Place) (js : List Json) : Prop :=
  List.Forall₂ (fun i j => T.index < i.index ∧ w.Shows level i j) (w.occupants pl) js

/-- What a place holds that is not hit. -/
theorem Holding.intact (h : w.Holding T level pl js) (hw : w.Orderly) (hw' : w'.Orderly)
    (hintact : w.Intact hit w') (hhit : ∀ pl, hit pl → w.ownerOf? pl = some T) (hT : w.isAlive T = true)
    (hT' : w'.isAlive T = true) (hspot : w.layout.spot pl = some (T, m)) (hnot : ¬ hit pl) :
    w'.Holding T level pl js := by
  have hocc := hintact.occ pl T m hspot hnot hT hT'
  unfold Holding at h ⊢
  rw [hocc]
  refine List.forall₂_iff_get.2 ⟨h.length_eq, fun k hk hk' => ?_⟩
  obtain ⟨hlt, hshows⟩ := (List.forall₂_iff_get.1 h).2 k hk hk'
  have hmem := List.get_mem (w.occupants pl) ⟨k, hk⟩
  refine ⟨hlt, hshows.intact hintact hw hw' (fun pl' hin => ⟨T, hhit pl' hin, hlt⟩) ?_ ?_⟩
  · exact Layout.Linked.live_item hw.linked _ pl hmem
  · refine Layout.Linked.live_item hw'.linked _ pl ?_
    rw [hocc]
    exact hmem

/-! ## An instance while it is filled -/

/-- An instance of which some properties have been written from data. -/
structure Filling (tbl : Table Class) (T : InstanceId) (c : Class) (level : Nat) (js : List Json)
    (done : String → Prop) (w : World) : Prop where
  quiet : w.Quiet
  table : w.classes = tbl
  alive : w.isAlive T = true
  cls : w.classOf? T = some c
  arrives : ∀ x, w.inst? T = some x → c.Arrives (js.map Value.ofJson) done x.values
  holding : ∀ x (n : Nat) p v j, w.inst? T = some x → c.descriptor.properties[n]? = some p →
    p.kind.isPrimitive = false → done p.name → x.values[n]? = some v → js[n]? = some j →
      w.Holding T level (placeFor T p v) j.parts

namespace Filling

theorem mono {done' : String → Prop} (h : Filling tbl T c level js done w) (hle : ∀ m, done' m → done m) :
    Filling tbl T c level js done' w where
  quiet := h.quiet
  table := h.table
  alive := h.alive
  cls := h.cls
  arrives x hx := (h.arrives x hx).mono hle
  holding x n p v j hx hp hprim hdone := h.holding x n p v j hx hp hprim (hle _ hdone)

/-- Nothing has been written yet. -/
theorem start (hw : w.Quiet) (htbl : w.classes = tbl) (hT : w.isAlive T = true) (hcls : w.classOf? T = some c) :
    Filling tbl T c level js (fun _ => False) w where
  quiet := hw
  table := htbl
  alive := hT
  cls := hcls
  arrives _ _ _ _ _ hdet := by
    cases hdet with
    | intro hdone _ => exact hdone.elim
  holding _ _ _ _ _ _ _ _ hdone := hdone.elim

theorem exists_record (h : Filling tbl T c level js done w) :
    ∃ x view, w.inst? T = some x ∧ w.class? x.classId = some c ∧ c.Valid ∧ w.Formed T x c view := by
  obtain ⟨x, hx, hc⟩ := exists_of_classOf? h.cls
  obtain ⟨view, hf⟩ := h.quiet.orderly.toBuilt.formed hx hc
  exact ⟨x, view, hx, hc, h.quiet.orderly.compiled.valid hc, hf⟩

/-- A write that hits only places of one property keeps what all others hold. -/
theorem next (h : Filling tbl T c level js done w) (hx : w.inst? T = some x) (hp : p ∈ c.descriptor.properties)
    (hquiet : w'.Quiet) (halive : w'.isAlive T = true) (hintact : w.Intact hit w')
    (hhit : ∀ pl, hit pl → w.ownerOf? pl = some T)
    (hnot : ∀ (n : Nat) q v, c.descriptor.properties[n]? = some q → q.kind.isPrimitive = false →
      q.name ≠ p.name → x.values[n]? = some v → ¬ hit (.slot T q.name) ∧ ¬ hit (placeFor T q v))
    (harrives : ∀ y, w'.inst? T = some y →
      c.Arrives (js.map Value.ofJson) (fun m => done m ∨ m = p.name) y.values)
    (hholding : ∀ y (n : Nat) v j, w'.inst? T = some y → c.descriptor.properties[n]? = some p →
      p.kind.isPrimitive = false → y.values[n]? = some v → js[n]? = some j →
        w'.Holding T level (placeFor T p v) j.parts) :
    Filling tbl T c level js (fun m => done m ∨ m = p.name) w' where
  quiet := hquiet
  table := hintact.classes.trans h.table
  alive := halive
  cls := hintact.toExtends.classOf? h.cls
  arrives := harrives
  holding y n q v j hy hq hprim hdone hv hj := by
    obtain ⟨x', view, hx', hc, hvalid, hf⟩ := h.exists_record
    obtain rfl := Option.some.inj (hx'.symm.trans hx)
    by_cases hname : q.name = p.name
    · obtain rfl := List.inj_on_of_nodup_map hvalid.descriptor.nodup (List.mem_of_getElem? hq) hp hname
      exact hholding y n v j hy hq hprim hv hj
    · obtain ⟨y', hy', hshape⟩ := hintact.inst T x' hx
      obtain rfl := Option.some.inj (hy'.symm.trans hy)
      have hc' : w'.class? y'.classId = some c := by
        rw [show y'.classId = x'.classId from congrArg Prod.fst hshape, hintact.toExtends.class?]
        exact hc
      obtain ⟨site, u, -, hu, -⟩ := hf.exists_site hq
      obtain ⟨hslot, hplace⟩ := hnot n q u hq hprim hname hu
      have hstored := hintact.stored T x' q.name hx hslot
      rw [stored?_of_getElem? hy hc' hvalid hq, stored?_of_getElem? hx hc hvalid hq, hv, hu] at hstored
      obtain rfl := Option.some.inj hstored
      obtain ⟨m, hspot⟩ := h.quiet.orderly.spot_placeFor h.alive hx hc hq hprim hu
      have hheld := h.holding x' n q v j hx hq hprim (hdone.resolve_right hname) hu hj
      exact hheld.intact h.quiet.orderly hquiet.orderly hintact hhit h.alive halive hspot hplace

/-- The write of a slot or of an array property whose place has been filled. -/
theorem refilled (h : Filling tbl T c level js done w) (hx : w.inst? T = some x)
    (hp : c.descriptor.properties[n]? = some p) (hprim : p.kind.isPrimitive = false) (hv : x.values[n]? = some v)
    (hj : js[n]? = some j) (hr : w.Refilled T (placeFor T p v) level j.parts w') (hquiet : w'.Quiet)
    (halive : w'.isAlive T = true) : Filling tbl T c level js (fun m => done m ∨ m = p.name) w' := by
  obtain ⟨x', view, hx', hc, hvalid, hf⟩ := h.exists_record
  obtain rfl := Option.some.inj (hx'.symm.trans hx)
  obtain ⟨m, hspot⟩ := h.quiet.orderly.spot_placeFor h.alive hx hc hp hprim hv
  have hslot (name : String) (hne : name ≠ p.name) : Place.slot T name ≠ placeFor T p v := by
    unfold placeFor
    split
    · intro heq
      cases heq
    · intro heq
      exact hne (Place.slot.inj heq).2
  have hother (y : Instance) (hy : w'.inst? T = some y) (name : String) (hne : name ≠ p.name) :
      c.valueIn y.values name = c.valueIn x'.values name := by
    obtain ⟨y', hy', hshape⟩ := hr.intact.inst T x' hx
    obtain rfl := Option.some.inj (hy'.symm.trans hy)
    have hstored := hr.intact.stored T x' name hx (hslot name hne)
    unfold stored? at hstored
    rw [hy, hx, Option.bind_some, Option.bind_some, show y'.classId = x'.classId from congrArg Prod.fst hshape,
      hr.intact.toExtends.class?, hc] at hstored
    exact hstored
  refine h.next hx (List.mem_of_getElem? hp) hquiet halive hr.intact ?_ ?_ ?_ ?_
  · rintro _ rfl
    exact ownerOf?_of_spot hspot
  · intro k q u hq _ hne hu
    refine ⟨hslot q.name hne, fun heq => hne ?_⟩
    exact h.quiet.sound.name_eq_of_placeFor hx hc hq hp hu hv heq
  · exact fun y hy => hvalid.arrives_of_element (h.arrives x' hx) (List.mem_of_getElem? hp) hprim (hother y hy)
  · intro y k u j' hy hk _ hu hj'
    obtain rfl : k = n := by
      have hindex := hvalid.descriptor.propertyIndex?_name hk
      rw [hvalid.descriptor.propertyIndex?_name hp] at hindex
      exact (Option.some.inj hindex).symm
    obtain rfl := Option.some.inj (hj.symm.trans hj')
    obtain ⟨y', hy', hshape⟩ := hr.intact.inst T x' hx
    obtain rfl := Option.some.inj (hy'.symm.trans hy)
    have hc' : w'.class? y'.classId = some c := by
      rw [show y'.classId = x'.classId from congrArg Prod.fst hshape, hr.intact.toExtends.class?]
      exact hc
    obtain ⟨view', hf'⟩ := hquiet.orderly.toBuilt.formed hy hc'
    have hsame : placeFor T p u = placeFor T p v := by
      cases hkind : p.kind with
      | primitive types =>
        rw [hkind] at hprim
        cases hprim
      | slot element => rw [hf.placeFor_slot hp hkind hv, hf'.placeFor_slot hp hkind hu]
      | sequence element =>
        obtain ⟨d, z, -, hval, -⟩ := hf.exists_sequence hp hkind
        obtain rfl := Option.some.inj (hv.symm.trans hval)
        have hstored := hr.intact.stored T x' p.name hx fun heq => nomatch heq
        rw [stored?_of_getElem? hy hc' hvalid hp, stored?_of_getElem? hx hc hvalid hp, hu, hv] at hstored
        rw [Option.some.inj hstored]
    rw [hsame]
    exact hr.shows

/-- The write of a primitive property. -/
theorem written {cb : Callbacks} (hcb : cb.Gentle) (h : Filling tbl T c level js done w)
    (hfollows : ∀ name, c.Follows (js.map Value.ofJson) name) (hp : c.descriptor.properties[n]? = some p)
    {types : Option (List PrimitiveType)} (hk : p.kind = .primitive types) (hj : js[n]? = some j)
    (hadmissible : Admissible types (.ofJson j)) :
    ∃ w', Run.setProperty cb T p.name (.ofJson j) w = (.ok (), w') ∧
      Filling tbl T c level js (fun m => done m ∨ m = p.name) w' ∧ w.Aloof w' := by
  obtain ⟨x, view, hx, hc, hvalid, hf⟩ := h.exists_record
  have hmem := List.mem_of_getElem? hp
  have hindex := hvalid.descriptor.propertyIndex?_name hp
  have hholds : w.Holds T x.classId c x.values :=
    ⟨hf.cls, x, view, hx, rfl, hf.view, rfl, hf.unheard⟩
  obtain ⟨w', hrun, hholds', -⟩ := Run.setPrimitive_of_ok hvalid cb hindex
    ((checkPrimitive_eq_ok_iff p.name types _).2 hadmissible) w x.values hholds hf.values
  have hset := Run.setProperty_apply cb h.quiet.orderly hx hc hp (.ofJson j)
  rw [hk] at hset
  replace hset := hset.trans hrun
  obtain ⟨hquiet, halive⟩ := h.quiet.setProperty hcb h.alive p.name (v := .ofJson j) (by
    rw [Value.instances_ofJson]
    exact List.nil_subset _)
  have hwrites : WritesPlain T c w (Run.setPrimitive cb T n p.name types (.ofJson j) w).2 :=
    bears_writesPlain.keeps_setPrimitive hvalid hp hk (.ofJson j) w
  rw [hset] at hquiet halive
  rw [hrun] at hwrites
  obtain ⟨hcalm, hintact⟩ := hwrites h.quiet.orderly.toBuilt h.cls h.alive
  have hne (q : PropertyDescriptor) (hq : q ∈ c.descriptor.properties) (hprim : q.kind.isPrimitive = false) :
      ¬ PlainPlace T c (.slot T q.name) := by
    rintro ⟨q', hq', hprim', heq⟩
    obtain rfl := List.inj_on_of_nodup_map hvalid.descriptor.nodup hq hq' (Place.slot.inj heq).2
    rw [hprim] at hprim'
    cases hprim'
  refine ⟨w', hset, h.next hx hmem hquiet halive hintact ?_ ?_ ?_ ?_, hcalm.aloof⟩
  · rintro _ ⟨q, -, -, rfl⟩
    rfl
  · intro k q v hq hprim _ _
    refine ⟨hne q (List.mem_of_getElem? hq) hprim, ?_⟩
    unfold placeFor
    split
    · rintro ⟨_, -, -, heq⟩
      cases heq
    · exact hne q (List.mem_of_getElem? hq) hprim
  · intro y hy
    obtain ⟨-, y', view', hy', -, -, hvalues, -⟩ := hholds'
    obtain rfl := Option.some.inj (hy'.symm.trans hy)
    rw [hvalues]
    refine hvalid.arrives_written (h.arrives x hx) hfollows hf.values hmem ?_
    unfold Class.valueIn
    rw [hindex, Option.bind_some, List.getElem?_map, hj, Option.map_some]
  · intro y k v j' _ _ hprim
    rw [hk] at hprim
    cases hprim

/-- Writing a property from data that describes it succeeds. -/
theorem setProperty {cb : Callbacks} (hcb : cb.Gentle) (hreal : cb.Realizes tbl level)
    (h : Filling tbl T c level js done w) (hdepicts : c.Depicts (Describes tbl level) js)
    (hp : c.descriptor.properties[n]? = some p) (hj : js[n]? = some j) :
    ∃ w', Run.setProperty cb T p.name (.ofJson j) w = (.ok (), w') ∧
      Filling tbl T c level js (fun m => done m ∨ m = p.name) w' ∧ w.Aloof w' := by
  obtain ⟨x, view, hx, hc, hvalid, hf⟩ := h.exists_record
  have htakes := hdepicts.takes n p j hp hj
  have hv : (Value.ofJson j).instances ⊆ w.handles := by
    rw [Value.instances_ofJson]
    exact List.nil_subset _
  obtain ⟨hquiet, halive⟩ := h.quiet.setProperty hcb h.alive p.name hv
  cases hk : p.kind with
  | primitive types =>
    rw [hk] at htakes
    cases htakes with
    | primitive hadmissible _ => exact h.written hcb hdepicts.follows hp hk hj hadmissible
  | slot element =>
    rw [hk] at htakes
    obtain ⟨w', hrun, hr⟩ := Run.setProperty_slot_of_describes hcb h.quiet hx hc hp hk h.alive hreal h.table htakes
    rw [hrun] at hquiet halive
    obtain ⟨site, v, -, hv, -⟩ := hf.exists_site hp
    refine ⟨w', hrun, h.refilled hx hp (by rw [hk]; rfl) hv hj ?_ hquiet halive, hr.toAloof⟩
    rw [hf.placeFor_slot hp hk hv]
    exact hr
  | sequence element =>
    rw [hk] at htakes
    obtain ⟨k, w', hval, hrun, hr⟩ :=
      Run.setProperty_sequence_of_describes hcb h.quiet hx hc hp hk h.alive hreal h.table htakes
    rw [hrun] at hquiet halive
    exact ⟨w', hrun, h.refilled hx hp (by rw [hk]; rfl) hval hj hr hquiet halive, hr.toAloof⟩

/-- Writing several properties. -/
theorem forM {α : Type} (f : α → Run Unit) (name : α → String) (as : List α)
    (hstep : ∀ a ∈ as, ∀ done w, Filling tbl T c level js done w → ∃ w', f a w = (.ok (), w') ∧
      Filling tbl T c level js (fun m => done m ∨ m = name a) w' ∧ w.Aloof w')
    (h : Filling tbl T c level js done w) : ∃ w', as.forM f w = (.ok (), w') ∧
      Filling tbl T c level js (fun m => done m ∨ m ∈ as.map name) w' ∧ w.Aloof w' := by
  induction as generalizing done w with
  | nil => exact ⟨w, rfl, h.mono fun m hm => hm.resolve_right List.not_mem_nil, .rfl⟩
  | cons a as ih =>
    obtain ⟨w₁, hrun, hfilling, haloof⟩ := hstep a List.mem_cons_self done w h
    obtain ⟨w₂, hruns, hfilling', haloof'⟩ := ih (fun a ha => hstep a (List.mem_cons_of_mem _ ha)) hfilling
    refine ⟨w₂, ?_, hfilling'.mono fun m hm => ?_, haloof.trans haloof'⟩
    · rw [Run.forM_cons, Run.bind_of_ok hrun, hruns]
    · rw [List.map_cons, List.mem_cons] at hm
      rcases hm with hm | hm | hm
      · exact .inl (.inl hm)
      · exact .inl (.inr hm)
      · exact .inr hm

/-! ## When everything has been written -/

section Done

variable (h : Filling tbl T c level js done w) (hdepicts : c.Depicts (Describes tbl level) js)
  (hdone : ∀ p ∈ c.descriptor.properties, done p.name) (hx : w.inst? T = some x)

include h hdepicts hdone hx

/-- Every value is projected to the data that it was written from. -/
theorem valueData_eq (hp : c.descriptor.properties[n]? = some p) (hv : x.values[n]? = some v)
    (hj : js[n]? = some j) {fuel : Nat} (hfuel : level ≤ fuel) : w.valueData fuel v = j := by
  obtain ⟨x', view, hx', hc, hvalid, hf⟩ := h.exists_record
  obtain rfl := Option.some.inj (hx'.symm.trans hx)
  have htakes := hdepicts.takes n p j hp hj
  have hmem := List.mem_of_getElem? hp
  have hholding := fun hprim => h.holding x' n p v j hx hp hprim (hdone p hmem) hv hj
  cases hk : p.kind with
  | primitive types =>
    rw [hk] at htakes
    cases htakes with
    | primitive hadmissible hplain =>
      have harrived := hvalid.arrived (h.arrives x' hx) hdone hmem (by rw [hk]; rfl)
      unfold Class.valueIn at harrived
      rw [hvalid.descriptor.propertyIndex?_name hp, Option.bind_some, Option.bind_some, hv, List.getElem?_map, hj,
        Option.map_some] at harrived
      obtain rfl := Option.some.inj harrived
      exact (Value.toJson_of_isPrimitive hadmissible.1 _ _).trans hplain
  | slot element =>
    obtain ⟨view', m, sink, val, -, -, hval, hocc, -⟩ :=
      Run.slot_spec h.quiet.orderly hx hc hp hk h.alive
    obtain rfl := Option.some.inj (hv.symm.trans hval)
    have hholding := hholding (by rw [hk]; rfl)
    unfold Holding at hholding
    rw [hf.placeFor_slot hp hk hv, hocc] at hholding
    obtain ⟨site, old, -, hold, hfits⟩ := hf.exists_site hp
    obtain rfl := Option.some.inj (hv.symm.trans hold)
    rw [hk] at htakes hfits
    cases htakes with
    | none =>
      cases hfits with
      | empty => rfl
      | child => cases hholding
    | child hj =>
      rw [hj.parts] at hholding
      cases hfits with
      | empty => cases hholding
      | child =>
        cases hholding with
        | cons hshows _ => exact hshows.2.data fuel hfuel
  | sequence element =>
    obtain ⟨d, y, -, hval, -⟩ := hf.exists_sequence hp hk
    obtain rfl := Option.some.inj (hv.symm.trans hval)
    have hholding := hholding (by rw [hk]; rfl)
    rw [hk] at htakes
    cases htakes with
    | @items _ js' _ =>
      refine congrArg Json.array (List.ext_get ?_ fun k hk₁ hk₂ => ?_)
      · rw [List.length_map]
        exact hholding.length_eq
      · rw [List.length_map] at hk₁
        obtain ⟨-, hshows⟩ := (List.forall₂_iff_get.1 hholding).2 k hk₁ hk₂
        rw [List.get_eq_getElem, List.getElem_map]
        exact hshows.data fuel hfuel

/-- What stands in the instance is younger than it. -/
theorem descends : w.Descends T := by
  obtain ⟨x', view, hx', hc, hvalid, hf⟩ := h.exists_record
  obtain rfl := Option.some.inj (hx'.symm.trans hx)
  have hparts (k : InstanceId) (hk : w.PartOf k T) : T.index < k.index ∧ w.Descends k := by
    obtain ⟨x'', v, hx'', hv, hpart⟩ := hk
    obtain rfl := Option.some.inj (hx''.symm.trans hx)
    obtain ⟨n, hn⟩ := List.mem_iff_getElem?.1 hv
    obtain ⟨p, site, hp, -, hfits⟩ := hf.exists_fits hn
    have hlt : n < js.length := by
      rw [hdepicts.length]
      exact (List.getElem?_eq_some_iff.1 hp).1
    have hprim : p.kind.isPrimitive = false := by
      generalize p.kind = kind at hfits
      cases hfits with
      | primitive hprim =>
        rcases hpart with rfl | ⟨d, rfl, -⟩
        · cases hprim
        · cases hprim
      | empty => rfl
      | child => rfl
      | sequence => rfl
    have hholding := h.holding x'' n p v js[n] hx hp hprim (hdone p (List.mem_of_getElem? hp)) hn
      (List.getElem?_eq_getElem hlt)
    have hmem : k ∈ w.occupants (placeFor T p v) := by
      rcases hpart with rfl | ⟨d, rfl, hk⟩
      · refine mem_occupants_slot.2 ⟨h.alive, ?_⟩
        rw [stored?_of_getElem? hx hc hvalid hp]
        exact hn
      · exact hk
    obtain ⟨m, hm⟩ := List.mem_iff_getElem?.1 hmem
    obtain ⟨j', -, hyounger, hshows⟩ := getElem?_of_forall₂ hholding hm
    exact ⟨hyounger, hshows.descends⟩
  exact .intro (fun k hk => (hparts k hk).1) fun k hk => (hparts k hk).2

/-- An instance that has been filled shows the data. -/
theorem shows : w.Shows (level + 1) T (c.dataOf js) where
  descends := h.descends hdepicts hdone hx
  data fuel hfuel := by
    obtain ⟨fuel, rfl⟩ := Nat.exists_eq_add_of_le' (Nat.le_trans (Nat.le_add_left 1 level) hfuel)
    obtain ⟨x', view, hx', hc, hvalid, hf⟩ := h.exists_record
    obtain rfl := Option.some.inj (hx'.symm.trans hx)
    have hdata : x'.values.map (w.valueData fuel) = js := by
      refine List.ext_getElem? fun n => ?_
      rw [List.getElem?_map]
      cases hp : c.descriptor.properties[n]? with
      | none =>
        have hlen := List.getElem?_eq_none_iff.1 hp
        rw [List.getElem?_eq_none (hf.values ▸ hlen), List.getElem?_eq_none (hdepicts.length ▸ hlen)]
        rfl
      | some p =>
        have hlt := (List.getElem?_eq_some_iff.1 hp).1
        have hv := List.getElem?_eq_getElem (hf.values.symm ▸ hlt)
        have hj := List.getElem?_eq_getElem (hdepicts.length.symm ▸ hlt)
        rw [hv, hj, Option.map_some, h.valueData_eq hdepicts hdone hx hp hv hj (Nat.le_of_succ_le_succ hfuel)]
    rw [instanceData_succ hx hc, hdata]
    rfl

end Done

end Filling

end World

end ReactiveView
