import ReactiveView.Proofs.Typing.Sound
import ReactiveView.Proofs.View.Creation

/-!
# Elements stay elements

An element is one for good (`World.Steps.tag?`), and so is an attribute of it: elementary changes give
it other values at most (`World.Steps.isSome_attr?`).
-/

set_option autoImplicit false

namespace ReactiveView

namespace World

variable {w w' : World} {n : NodeId} {t : String}

/-- Making an instance leaves the attributes of all elements. -/
theorem recast_createInstance (hw : w.Sound) {id : ClassId} {c : Class} {i : InstanceId}
    (hc : w.class? id = some c) (h : w.createInstance id c.descriptor = .ok (i, w')) :
    w.forest.Recast w'.forest := by
  obtain ⟨-, view, b, b', hjoins⟩ := createInstance_joins h
  obtain ⟨attrs, hself⟩ := hjoins.self
  obtain ⟨_, g, -, hbuilds⟩ := exists_builds_createInstance (hw.compiled.parsed hc) h hself
  exact hbuilds.grows.recast

theorem Step.isSome_attr? (hstep : w.Step w') (hw : w.Sound) (h : (w.forest.attr? n t).isSome = true) :
    (w'.forest.attr? n t).isSome = true := by
  cases hstep with
  | quiet screen =>
    unfold forest
    rw [screen]
    exact h
  | moves f hf => exact hf.recast.isSome_attr? h
  | mark hr hm a ha => exact Forest.isSome_attr?_setAttr _ _ _ _ h
  | create hc hcreate => exact (recast_createInstance hw hc hcreate).isSome_attr? h
  | @write i x c view n p types v hx hc hview hp hkind hv =>
    change ((w.rendered c view.sites[n]? (.property p.name) v.outputText).forest.attr? _ t).isSome = true
    unfold rendered
    split
    · change ((w.screen.render c.queue _ _ _).forest.attr? _ t).isSome = true
      rw [Screen.attr?_render]
      exact h
    · exact h
  | @attr i x c view n a v hx hc hview ha hv =>
    refine Forest.isSome_attr?_setAttr (w.screen.render c.queue _ _ _).forest _ _ _ ?_
    rw [Screen.attr?_render]
    exact h
  | flush q => exact (w.screen.flushed_flush q).recast.isSome_attr? h
  | space | addSpace | addClass | record | finish | contents | slot => exact h

theorem Step.tag? (hstep : w.Step w') (hw : w.Sound) (h : w.forest.tag? n = some t) :
    w'.forest.tag? n = some t := by
  cases hstep with
  | quiet screen =>
    unfold forest
    rw [screen]
    exact h
  | moves f hf => exact hf.recast.tag? h
  | mark hr hm a ha => exact (Forest.tag?_setAttr _ _ _ _ _).trans h
  | create hc hcreate => exact (recast_createInstance hw hc hcreate).tag? h
  | @write i x c view n p types v hx hc hview hp hkind hv =>
    change (w.rendered c view.sites[n]? (.property p.name) v.outputText).forest.tag? _ = some t
    unfold rendered
    split
    · exact (Screen.tag?_render _ _ _ _ _ _).trans h
    · exact h
  | @attr i x c view n a v hx hc hview ha hv =>
    exact (Forest.tag?_setAttr _ _ _ _ _).trans ((Screen.tag?_render _ _ _ _ _ _).trans h)
  | flush q => exact (w.screen.flushed_flush q).recast.tag? h
  | space | addSpace | addClass | record | finish | contents | slot => exact h

/-- An element stays one. -/
theorem Steps.tag? (hsteps : w.Steps w') (hw : w.Sound) (h : w.forest.tag? n = some t) :
    w'.forest.tag? n = some t := by
  induction hsteps with
  | refl => exact h
  | tail hsteps hstep ih => exact hstep.tag? (Steps.sound hsteps hw) ih

/-- No attribute of an element is ever lost. -/
theorem Steps.isSome_attr? (hsteps : w.Steps w') (hw : w.Sound) (h : (w.forest.attr? n t).isSome = true) :
    (w'.forest.attr? n t).isSome = true := by
  induction hsteps with
  | refl => exact h
  | tail hsteps hstep ih => exact hstep.isSome_attr? (Steps.sound hsteps hw) ih

end World

end ReactiveView
