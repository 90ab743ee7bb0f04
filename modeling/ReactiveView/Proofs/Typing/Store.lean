import ReactiveView.Proofs.Steps.Runs

/-!
# What instances hold

From the end of its construction on, whatever is done, an instance holds in every primitive property and
every attribute a value of the declared types, in every slot nothing or an instance that the slot accepts,
and in every array property the collection of its own, whose items are all accepted
(`World.storeTyped_of_reaches`). What has been checked when it was stored needs no second look: values
stay until others replace them, and an instance keeps its class.
-/

set_option autoImplicit false

namespace ReactiveView.World

variable {w w' w₀ : World} {i : InstanceId}

/-- The values that a property of an instance may hold once the instance has been constructed. -/
inductive Stores (w : World) (i : InstanceId) (p : PropertyDescriptor) : Value → Prop
  | primitive {types : Option (List PrimitiveType)} {v : Value} :
      p.kind = .primitive types → Admissible types v → Stores w i p v
  | empty {element : ElementType} : p.kind = .slot element → Stores w i p .null
  | child {element : ElementType} {j : InstanceId} :
      p.kind = .slot element → w.accepts element j = true → Stores w i p (.inst j)
  /-- The collection is the property's own, and accepts its items. -/
  | sequence {element : ElementType} {k : CollectionId} {y : Collection} :
      p.kind = .sequence element → w.coll? k = some y → y.owner = i → y.property = p.name →
        y.element = element → (∀ j ∈ y.items, w.accepts element j = true) → Stores w i p (.coll k)

/-- An instance holds in each property what may be stored there, and in each attribute a value of the
declared types. -/
structure StoreTyped (w : World) (i : InstanceId) : Prop where
  typed : ∃ x c, w.inst? i = some x ∧ w.class? x.classId = some c ∧
    List.Forall₂ (w.Stores i) c.descriptor.properties x.values ∧
    List.Forall₂ (fun a v => Admissible a.types v) c.descriptor.attributes x.attrValues

theorem Sound.storeTyped (hw : w.Sound) (hb : w.HasBuilt i) : w.StoreTyped i := by
  obtain ⟨x, hx, hbuilt⟩ := hb
  obtain ⟨c, hc, hfills⟩ := hw.inst i x hx
  obtain ⟨hvalues, hattrs⟩ := hfills.typed hbuilt
  refine ⟨x, c, hx, hc, forall₂_of_getElem? hfills.values.length_eq fun n p v hp hv => ?_,
    forall₂_of_getElem? hfills.attrs.length_eq fun n a v ha hv => hattrs n a v ha hv⟩
  obtain ⟨v', hv', hsuits⟩ := getElem?_of_forall₂ hfills.values hp
  obtain rfl := Option.some.inj (hv.symm.trans hv')
  cases hsuits with
  | primitive hkind _ => exact .primitive hkind (hvalues n p _ v hp hkind hv)
  | empty hkind => exact .empty hkind
  | child hkind hj => exact .child hkind hj
  | sequence hkind hk helement howner hproperty =>
    exact .sequence hkind hk howner hproperty helement (helement ▸ hw.coll _ _ hk)

/-- Whatever is done after a fresh start: an instance that has been constructed stays so, and holds what
its class declares; and the instances that a concrete class constructs are of this kind. -/
theorem storeTyped_of_reaches (h₀ : w₀.Fresh) (hreach : w₀.Reaches w) :
    (∀ i, w.HasBuilt i → ∀ w', w.Reaches w' → w'.HasBuilt i ∧ w'.StoreTyped i) ∧
      ∀ depth id c init i w', w.class? id = some c → c.descriptor.isAbstract = false →
        Run.constructInstance (Callbacks.ofDepth depth) id init w = (.ok i, w') → w'.HasBuilt i := by
  have hw := hreach.sound h₀.sound
  refine ⟨fun i hi w' hlater => ?_, fun depth id c init i w' hc hconcrete hok => ?_⟩
  · have hb := Steps.hasBuilt (hlater.steps hw) hi
    exact ⟨hb, (hlater.sound hw).storeTyped hb⟩
  · exact Run.hasBuilt_constructInstance (Callbacks.steadyBy_ofDepth (S := Step) depth) hw hc hconcrete hok

/-- On the board, whose list has been emptied and filled again, everything is in its place. -/
theorem storeTyped_of_reaches_board : ∃ w, boardWorld.Reaches w ∧ w.StoreTyped ⟨0⟩ ∧ w.StoreTyped ⟨1⟩ ∧
    w.itemsOf ⟨0⟩ = [⟨4⟩] := by
  have hbuilt : (board.2.inst? ⟨0⟩).any (·.built) = true ∧ (board.2.inst? ⟨1⟩).any (·.built) = true := by
    decide +kernel
  have hboard (i : InstanceId) (h : (board.2.inst? i).any (·.built) = true) : board.2.HasBuilt i := by
    obtain ⟨x, hx, hb⟩ := (Option.any_eq_true _ _).1 h
    exact ⟨x, hx, hb⟩
  have hlater : board.2.Reaches ((Operation.replaceAll ⟨0⟩ [tile "d"]).run (Callbacks.ofDepth 2) board.2).2 :=
    .single ⟨2, _, rfl⟩
  obtain ⟨htyped, -⟩ := storeTyped_of_reaches fresh_boardWorld reaches_board
  refine ⟨_, reaches_board.trans hlater, (htyped _ (hboard _ hbuilt.1) _ hlater).2,
    (htyped _ (hboard _ hbuilt.2) _ hlater).2, ?_⟩
  decide +kernel

end ReactiveView.World
