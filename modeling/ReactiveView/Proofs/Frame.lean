import ReactiveView.Proofs.Upkeep

/-!
# What operations on children leave alone

A *frame* is a reflexive and transitive relation between worlds that looks at the compiled classes and,
of an instance, at its class, its view, its values and its mutation listeners, and at nothing else
(`IsFrame`). Attaching, releasing, splicing and letting go keep every frame, as far as the instances
that they construct do; of the operations on children only `replaceChild` stores a value, and it keeps a
frame that allows the value it stores to change. Writing and initializing an instance keep every frame
that allows all values of the instance to change, if telling its listeners does.
-/

set_option autoImplicit false

namespace ReactiveView

/-- Two records of an instance with the same class, view, values and mutation listeners. -/
structure Instance.SameState (x y : Instance) : Prop where
  classId : y.classId = x.classId
  view : y.view = x.view
  values : y.values = x.values
  mutationListeners : y.mutationListeners = x.mutationListeners

/-- A relation between worlds that does not look at the screen, the collections, the pins, the log, nor
at the attachment, the attributes and the dispatch listeners of an instance. -/
class IsFrame (R : World → World → Prop) : Prop extends IsPreorder World R where
  same : ∀ w w' : World, w'.classes = w.classes → w'.instances = w.instances → R w w'
  modify : ∀ (w : World) (i : InstanceId) (f : Instance → Instance),
    (∀ x : Instance, x.SameState (f x)) → R w (w.modifyInstance i f)

/-- A frame does not see upkeep. -/
instance {R : World → World → Prop} [IsFrame R] : IsUpkeep R where
  quiet w w' _ hc hi _ _ := IsFrame.same w w' hc hi
  moves _ _ _ _ := IsFrame.same _ _ rfl rfl
  free w i := IsFrame.modify w i _ fun _ => ⟨rfl, rfl, rfl, rfl⟩
  retire w i := IsFrame.modify w i _ fun _ => ⟨rfl, rfl, rfl, rfl⟩
  retireColl _ _ := IsFrame.same _ _ rfl rfl
  retireSpace _ _ := IsFrame.same _ _ rfl rfl
  clear _ _ := IsFrame.same _ _ rfl rfl

namespace Run

variable {α β : Type} {R : World → World → Prop} [IsFrame R]

/-- A change of the screen, the collections, the spaces, the pins or the log is not seen. -/
theorem keeps_update_same {f : World → World} (hc : ∀ w, (f w).classes = w.classes)
    (hi : ∀ w, (f w).instances = w.instances) : Keeps R (update f) := fun w =>
  IsFrame.same w (f w) (hc w) (hi w)

/-! ## Writing children -/

/-- The record of a place is not seen. -/
theorem keeps_attachAfter (i : InstanceId) (anchor : NodeId) (a : Attachment) :
    Keeps R (attachAfter i anchor a) :=
  .attachAfter (fun _ _ hr => upkeep_insertAfter hr anchor) fun w =>
    IsFrame.modify w i _ fun _ => ⟨rfl, rfl, rfl, rfl⟩

section Construct

variable {cb : Callbacks} (hcon : ∀ id init, Keeps R (cb.construct id init))

include hcon

theorem keeps_coerce (element : ElementType) (v : Value) : Keeps R (coerce cb element v) := by
  unfold coerce
  split
  · refine keeps_get.bind fun w => ?_
    split
    · exact keeps_pure _
    · exact keeps_get.bind fun _ => keeps_fail _
  · cases element with
    | any => exact keeps_fail _
    | ofClass ref => exact hcon ref.id _
  · exact keeps_fail _

theorem keeps_coerceAll (element : ElementType) (vs : List Value) :
    Keeps R (coerceAll cb element vs) := by
  induction vs with
  | nil => exact keeps_pure _
  | cons v vs ih =>
    exact (keeps_coerce hcon element v).bind fun _ => ih.bind fun _ => keeps_pure _

theorem keeps_splice (c : CollectionId) (start count : Nat) (values : List Value) :
    Keeps R (splice cb c start count values) := by
  refine Keeps.scope (keeps_get.bind fun w => ?_)
  dsimp only
  refine (keeps_theCollection c).bind fun coll => ?_
  refine (keeps_coerceAll hcon coll.element values).bind fun inserted => ?_
  refine (keeps_ask _).bind fun items => ?_
  refine (keeps_checkInserted _ _ _ inserted).bind fun _ => ?_
  refine (Keeps.forM keeps_release _).bind fun _ => ?_
  refine Keeps.bind (keeps_update_same (fun _ => rfl) fun _ => rfl) fun _ => ?_
  refine (keeps_nodeBefore _ _ _).bind fun node => ?_
  exact (Keeps.attachInOrder (fun i _ anchor => keeps_attachAfter i anchor _) node).bind fun _ => keeps_pure _

theorem keeps_replaceAll (c : CollectionId) (values : List Value) :
    Keeps R (replaceAll cb c values) :=
  (keeps_ask _).bind fun _ => keeps_splice hcon c _ _ values

theorem keeps_setSequence (i : InstanceId) (n : Nat) (v : Value) :
    Keeps R (setSequence cb i n v) := by
  refine Keeps.scope ((keeps_theView i).bind fun view => ?_)
  split
  · split
    · exact (keeps_replaceAll hcon _ _).bind fun _ => keeps_pure _
    · split
      · exact (keeps_ask _).bind fun _ => (keeps_replaceAll hcon _ _).bind fun _ => keeps_pure _
      · exact keeps_pure _
    · exact keeps_fail _
  · exact keeps_fail _

theorem keeps_slotChild (element : ElementType) (v : Value) :
    Keeps R (slotChild cb element v) := by
  unfold slotChild
  split
  · exact keeps_pure _
  · exact (keeps_coerce hcon element _).map _

end Construct

section Store

variable {i : InstanceId} {n : Nat} (hstore : ∀ (w : World) (v : Value), R w (w.storeValue i n v))

include hstore

theorem keeps_replaceChild (name : String) (child : Option InstanceId) :
    Keeps R (replaceChild i n name child) :=
  .replaceChild (fun j _ anchor _ => keeps_attachAfter j anchor _) hstore

theorem keeps_setSlot {cb : Callbacks} (hcon : ∀ id init, Keeps R (cb.construct id init))
    (name : String) (element : ElementType) (v : Value) :
    Keeps R (setSlot cb i n name element v) :=
  Keeps.scope ((keeps_slotChild hcon element v).bind fun child => keeps_replaceChild hstore name child)

end Store

theorem keeps_setAttribute (i : InstanceId) (name : String) (v : Value) :
    Keeps R (setAttribute i name v) := by
  refine (keeps_attributeIndex i name).bind fun n => (keeps_theClassOf i).bind fun c => ?_
  refine (keeps_ofOption _).bind fun a => (keeps_ofExcept _).bind fun _ => ?_
  refine (keeps_theView i).bind fun view w => ?_
  have hrender : R w ((w.renderIn c (view.attributeNodes[n]?.getD []) (.attr name)
      v.outputText).mapForest fun f => f.setAttr view.root (dataName name) v.outputText) :=
    IsFrame.same _ _ rfl rfl
  exact World.upkeep_trans hrender (IsFrame.modify _ i _ fun _ => ⟨rfl, rfl, rfl, rfl⟩)

/-! ## Writing primitive values -/

section Primitive

variable {S : World → World → Prop} [IsPreorder World S] {cb : Callbacks} {i : InstanceId}
  (hrender : ∀ (w : World) (c : Class) (places : NodeSet) (source : Source) (text : String),
    S w (w.renderIn c places source text))
  (hstore : ∀ (n : Nat) (w : World) (v : Value), S w (w.storeValue i n v))
  (hann : ∀ name old v, Keeps S (announce cb i name old v))

include hrender hstore hann

/-- A primitive write changes the screen, stores a value and tells the listeners. -/
theorem Keeps.writePrimitive (n : Nat) (name : String) (v : Value) : Keeps S (writePrimitive cb i n name v) := by
  refine (keeps_theClassOf i).bind fun c => (keeps_theView i).bind fun view => ?_
  have hrest : Keeps S (do
      let old ← ofOption (← theInstance i).values[n]?
      update fun w => w.storeValue i n v
      announce cb i name old v : Run Unit) := by
    refine (keeps_theInstance i).bind fun x => (keeps_ofOption _).bind fun old => ?_
    exact Keeps.bind (fun w => hstore n w v) fun _ => hann name old v
  split
  · next places _ =>
    exact Keeps.bind (fun w => hrender w c places (.property name) v.outputText) fun _ => hrest
  · exact hrest

theorem Keeps.writeBinding (name : String) : Keeps S (writeBinding cb i name) := by
  refine (keeps_propertyIndex i name).bind fun n => (keeps_theClassOf i).bind fun c => ?_
  split
  · exact keeps_fail _
  · exact (keeps_ask _).bind fun text => Keeps.writePrimitive hrender hstore hann n name _

theorem Keeps.propagate (changed : String) : Keeps S (propagate cb i changed) :=
  (keeps_theClassOf i).bind fun _ => Keeps.forM (Keeps.writeBinding hrender hstore hann) _

theorem Keeps.recomputeBinding (name : String) : Keeps S (recomputeBinding cb i name) :=
  (Keeps.writeBinding hrender hstore hann name).bind fun _ => Keeps.propagate hrender hstore hann name

theorem Keeps.setPrimitive (n : Nat) (name : String) (types : Option (List PrimitiveType)) (v : Value) :
    Keeps S (setPrimitive cb i n name types v) := by
  refine (keeps_ofExcept _).bind fun _ => (Keeps.writePrimitive hrender hstore hann n name v).bind fun _ => ?_
  exact Keeps.propagate hrender hstore hann name

end Primitive

/-! ## Writing and initializing -/

section Write

variable {cb : Callbacks} {i : InstanceId}
  (hcon : ∀ id init, Keeps R (cb.construct id init))
  (hstore : ∀ (n : Nat) (w : World) (v : Value), R w (w.storeValue i n v))
  (hann : ∀ name old v, Keeps R (announce cb i name old v))

include hstore hann

theorem keeps_recomputeBinding (name : String) : Keeps R (recomputeBinding cb i name) :=
  .recomputeBinding (fun _ _ _ _ _ => IsFrame.same _ _ rfl rfl) hstore hann name

theorem keeps_setPrimitive (n : Nat) (name : String) (types : Option (List PrimitiveType))
    (v : Value) : Keeps R (setPrimitive cb i n name types v) :=
  .setPrimitive (fun _ _ _ _ _ => IsFrame.same _ _ rfl rfl) hstore hann n name types v

include hcon

theorem keeps_setProperty (name : String) (v : Value) : Keeps R (setProperty cb i name v) := by
  refine (keeps_propertyIndex i name).bind fun n => (keeps_theClassOf i).bind fun c => ?_
  refine (keeps_ofOption _).bind fun p => ?_
  split
  · exact keeps_setPrimitive hstore hann n name _ v
  · exact keeps_setSlot (hstore n) hcon name _ v
  · exact keeps_setSequence hcon i n v

theorem keeps_initializeProperty (fields : Dict String Value) (p : PropertyDescriptor) :
    Keeps R (initializeProperty cb i fields p) := by
  unfold initializeProperty
  split
  · exact (keeps_ofExcept _).bind fun v => keeps_setProperty hcon hstore hann p.name v
  · exact keeps_setProperty hcon hstore hann p.name _

/-- The initial state of an instance of a class without constructors. -/
theorem keeps_giveInitialState {c : Class} (hc : c.constructors = []) (fields : Dict String Value) :
    Keeps R (giveInitialState cb i c fields) := by
  refine (Keeps.forM (fun a => keeps_setAttribute i _ _) _).bind fun _ => ?_
  refine (Keeps.forM (keeps_initializeProperty hcon hstore hann fields) _).bind fun _ => ?_
  refine (Keeps.forM (keeps_recomputeBinding hstore hann) _).bind fun _ => ?_
  rw [hc]
  exact keeps_pure _

omit hann in
theorem keeps_releaseChildren : Keeps R (releaseChildren cb i) := by
  refine (keeps_theInstance i).bind fun x => Keeps.forM (fun e => ?_) _
  unfold releaseChild
  split
  · exact (keeps_release _).tolerate.bind fun _ w => hstore _ w _
  · exact ((keeps_replaceAll hcon _ _).bind fun _ => keeps_pure _).tolerate
  · exact keeps_pure _

omit hcon hstore hann in
theorem keeps_flushQueue (q : QueueId) : Keeps R (flushQueue q) := fun w =>
  IsFrame.same w _ rfl rfl

/-- Populating an instance of a class without constructors. -/
theorem keeps_populate {c : Class} (hc : c.constructors = []) (fields : Dict String Value) :
    Keeps R (populate cb i c fields) := by
  refine Keeps.bind ((keeps_giveInitialState hcon hstore hann hc fields).tryCatch fun h => ?_)
    fun _ => (keeps_flushQueue _).bind fun _ => ?_
  · refine (keeps_releaseChildren hcon hstore).bind fun _ => ?_
    exact (keeps_flushQueue _).bind fun _ => keeps_throw _
  · exact Keeps.bind (fun w => IsFrame.modify w i _ fun _ => ⟨rfl, rfl, rfl, rfl⟩) fun _ => keeps_pure _

end Write

end Run

end ReactiveView
