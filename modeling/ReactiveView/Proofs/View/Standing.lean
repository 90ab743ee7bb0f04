import ReactiveView.Proofs.Steps.Places
import ReactiveView.Proofs.View.Attributes

/-!
# Attributes that nothing writes

Attributes are written on the roots of instances and on the elements of their views. A node that is there before an
instance is made belongs to no view of it, and no node that is there becomes a root. So an element that is neither
becomes neither, whatever is done, and its attributes stay as they are (`World.Steps.attr?_of_still`).
-/

set_option autoImplicit false

namespace ReactiveView

/-- An element that no formatted attribute belongs to keeps its attributes by itself. -/
theorem Screen.Obeys.still_put {s : Screen} {own : Writers} {n : NodeId} (h : s.Obeys own)
    (hn : (s.forest.tag? n).isSome = true) (hfree : ∀ b x, s.binding? b = some x → x.owner ≠ n) (t : String) :
    s.Obeys (own.put n t (some (.still (s.forest.attr? n t)))) := by
  have hput {m : NodeId} {u : String} {r : Writer}
      (hr : own.put n t (some (.still (s.forest.attr? n t))) m u = some r) :
      (m = n ∧ u = t ∧ r = .still (s.forest.attr? n t)) ∨ own m u = some r := by
    by_cases hm : m = n ∧ u = t
    · obtain ⟨rfl, rfl⟩ := hm
      rw [Writers.put_self] at hr
      exact Or.inl ⟨rfl, rfl, (Option.some.inj hr).symm⟩
    · rw [Writers.put_of_ne _ _ (not_and_or.1 hm)] at hr
      exact Or.inr hr
  refine ⟨fun m u r hr => ?_, fun m u v hv => ?_, fun m u b hb => ?_, fun b x hx => ?_, h.owner⟩
  · rcases hput hr with ⟨rfl, -, -⟩ | hr
    · exact hn
    · exact h.element m u r hr
  · rcases hput hv with ⟨rfl, rfl, hv⟩ | hv
    · exact (Writer.still.inj hv).symm
    · exact h.still m u v hv
  · rcases hput hb with ⟨-, -, hb⟩ | hb
    · cases hb
    · exact h.bound m u b hb
  · rw [Writers.put_of_ne _ _ (Or.inl (hfree b x hx))]
    exact h.lone b x hx

namespace World

variable {w w' : World} {own : Writers} {n : NodeId} {t : String}

/-- An elementary change writes no attribute of a node that is there and is no root. -/
theorem Step.obeys (hstep : w.Step w') (hw : w.Sound) (ho : w.screen.Obeys own) :
    ∃ own', w'.screen.Obeys own' ∧ ∀ n, w.Rootless n → own' n = own n := by
  -- an attribute of a root may lose its writer
  have hroot {i : InstanceId} {r : NodeId} (hr : w.rootOf? i = some r) (u : String) :
      ∀ n, w.Rootless n → own.put r u none n = own n := by
    intro n hn
    have hne : n ≠ r := by
      rintro rfl
      exact hn.not_root i hr
    funext t
    exact Writers.put_of_ne _ _ (Or.inl hne)
  cases hstep with
  | quiet screen classes instances collections spaces => exact ⟨own, screen ▸ ho, fun _ _ => rfl⟩
  | moves f hf => exact ⟨own, ho.moves hf rfl, fun _ _ => rfl⟩
  | mark hr hm a ha => exact ⟨_, ho.setAttr (Or.inl rfl), hroot hr a.name.tag⟩
  | @create id c i _ hc hcreate =>
    obtain ⟨-, view, _, _, hjoins⟩ := createInstance_joins hcreate
    obtain ⟨attrs, hself⟩ := hjoins.self
    obtain ⟨own', els, hdresses, -⟩ :=
      exists_dresses_createInstance (hw.compiled.parsed hc) hcreate hself rfl ho
    exact ⟨own', hdresses.obeys, fun n hn => hdresses.old n hn.there⟩
  | @write i x c view n p types v hx hc hview hp hkind hv =>
    refine ⟨own, ?_, fun _ _ => rfl⟩
    change (w.rendered c view.sites[n]? (.property p.name) v.outputText).screen.Obeys own
    unfold rendered
    split
    · exact ho.render c.queue _ _ _
    · exact ho
  | @attr i x c view n a v hx hc hview ha hv =>
    have hrender := ho.render c.queue (view.attributeNodes[n]?.getD []) (.attr a.name) v.outputText
    have hr : w.rootOf? i = some view.root := by
      unfold rootOf?
      rw [hx, Option.bind_some, hview]
      rfl
    exact ⟨_, hrender.setAttr (Or.inl rfl), hroot hr (dataName a.name).tag⟩
  | flush q => exact ⟨own, ho.flush q, fun _ _ => rfl⟩
  | addSpace delay ns hq =>
    exact ⟨own, ho.congr (Nat.le_refl _) (fun _ => id) (fun _ _ _ => rfl) fun _ => rfl, fun _ _ => rfl⟩
  | space | addClass | record | finish | contents | slot => exact ⟨own, ho, fun _ _ => rfl⟩

/-- No more do any number of elementary changes. -/
theorem Steps.obeys (hsteps : w.Steps w') (hw : w.Sound) (ho : w.screen.Obeys own) :
    ∃ own', w'.screen.Obeys own' ∧ ∀ n, w.Rootless n → own' n = own n := by
  induction hsteps with
  | refl => exact ⟨own, ho, fun _ _ => rfl⟩
  | tail hsteps hstep ih =>
    obtain ⟨own₁, ho₁, hkept⟩ := ih
    obtain ⟨own', ho', hlast⟩ := hstep.obeys (Steps.sound hsteps hw) ho₁
    refine ⟨own', ho', fun n hn => ?_⟩
    rw [hlast n (hn.putsOnlyRoots (Steps.putsOnlyRoots hsteps)), hkept n hn]

/-- An element that is no root and that no formatted attribute belongs to keeps its attributes. -/
theorem Steps.attr?_of_still (hsteps : w.Steps w') (hw : w.Sound) (ho : w.screen.Obeys own) (hn : w.Rootless n)
    (htag : (w.forest.tag? n).isSome = true) (hfree : ∀ b x, w.screen.binding? b = some x → x.owner ≠ n)
    (t : String) : w'.forest.attr? n t = w.forest.attr? n t := by
  obtain ⟨own', ho', hkept⟩ := Steps.obeys hsteps hw (ho.still_put htag hfree t)
  refine ho'.still n t _ ?_
  rw [hkept n hn, Writers.put_self]
  rfl

end World

end ReactiveView
