import ReactiveView.Proofs.Closed.Worlds

/-!
# What is lent

Fix a world as it is before a construction. An instance or a place is *known* when it is there already
(`World.Knows`, `World.KnowsPlace`). A construction lends instances to places that are not known. The
*ledger* says how: an instance is recorded where it stood before, or it stood nowhere before and stands in an
unknown place that holds it; and whatever an unknown place holds is recorded to stand there, up to *loose
ends*, which are recorded nowhere (`World.Ledger`).

The ledger is kept when an instance is set free (`Ledger.free`), when a place gets other occupants
(`Ledger.put`), when a loose end is recorded (`Ledger.take`), and when deserted places are emptied
(`Ledger.clear`). Once no unknown place holds anything, every instance is recorded where it stood before
(`Ledger.restored`).
-/

set_option autoImplicit false

namespace ReactiveView

namespace World

/-- The recorded attachments `att` and the occupants `occ` of places, compared with a world as it was. -/
structure Ledger (w₀ : World) (loose : Place → InstanceId → Prop)
    (att : InstanceId → Option Attachment) (occ : Place → List InstanceId) : Prop where
  lent : ∀ i, att i = w₀.attachment? i ∨
    w₀.attachment? i = none ∧ ∃ a, att i = some a ∧ ¬ w₀.KnowsPlace a.place ∧ i ∈ occ a.place
  stands : ∀ pl i, ¬ w₀.KnowsPlace pl → i ∈ occ pl →
    (∃ a, att i = some a ∧ a.place = pl) ∨ att i = none ∧ loose pl i
  nodup : ∀ pl, ¬ w₀.KnowsPlace pl → (occ pl).Nodup

namespace Ledger

variable {w₀ : World} {loose loose' : Place → InstanceId → Prop} {att att' : InstanceId → Option Attachment}
  {occ occ' : Place → List InstanceId} {i j : InstanceId} {pl : Place}

theorem mono (h : w₀.Ledger loose att occ) (hloose : ∀ pl i, loose pl i → loose' pl i) :
    w₀.Ledger loose' att occ where
  lent := h.lent
  stands pl i hpl hi := (h.stands pl i hpl hi).imp_right fun hi => ⟨hi.1, hloose pl i hi.2⟩
  nodup := h.nodup

/-- Who is recorded nowhere known stood nowhere before. -/
theorem free_before (h : w₀.Ledger loose att occ)
    (hplaces : ∀ i a, w₀.attachment? i = some a → w₀.KnowsPlace a.place)
    (hi : ∀ a, att i = some a → ¬ w₀.KnowsPlace a.place) : w₀.attachment? i = none := by
  rcases h.lent i with heq | ⟨hnone, -⟩
  · cases hw : w₀.attachment? i with
    | none => rfl
    | some a => exact absurd (hplaces i a hw) (hi a (heq.trans hw))
  · exact hnone

/-- An occupant of an unknown place is recorded nowhere else. -/
theorem place_of_occupant (h : w₀.Ledger loose att occ) (hpl : ¬ w₀.KnowsPlace pl) (hi : i ∈ occ pl)
    {a : Attachment} (ha : att i = some a) : a.place = pl := by
  rcases h.stands pl i hpl hi with ⟨b, hb, hplace⟩ | ⟨hnone, -⟩
  · rw [Option.some.inj (ha.symm.trans hb)]
    exact hplace
  · rw [hnone] at ha
    cases ha

/-- An instance that is recorded nowhere known is set free, and becomes a loose end. -/
theorem free (h : w₀.Ledger loose att occ)
    (hplaces : ∀ i a, w₀.attachment? i = some a → w₀.KnowsPlace a.place)
    (hi : ∀ a, att i = some a → ¬ w₀.KnowsPlace a.place) (hloose : ∀ p j, loose p j → loose' p j)
    (hfreed : ∀ a, att i = some a → loose' a.place i) :
    w₀.Ledger loose' (Function.update att i none) occ where
  lent j := by
    by_cases hji : j = i
    · subst hji
      rw [Function.update_self]
      exact Or.inl (h.free_before hplaces hi).symm
    · rw [Function.update_of_ne hji]
      exact h.lent j
  stands p j hp hj := by
    by_cases hji : j = i
    · subst hji
      refine Or.inr ⟨Function.update_self _ _ _, ?_⟩
      rcases h.stands p j hp hj with ⟨a, ha, rfl⟩ | ⟨-, hl⟩
      · exact hfreed a ha
      · exact hloose p j hl
    · rw [Function.update_of_ne hji]
      exact (h.stands p j hp hj).imp_right fun hj => ⟨hj.1, hloose p j hj.2⟩
  nodup := h.nodup

/-- A place gets other occupants: nobody is left out who is recorded there, and who comes in is recorded
there or a loose end. -/
theorem put (h : w₀.Ledger loose att occ) {is : List InstanceId} (hnodup : is.Nodup)
    (hout : ∀ j a, att j = some a → a.place = pl → j ∈ occ pl → j ∈ is)
    (hin : ∀ j ∈ is, (∃ a, att j = some a ∧ a.place = pl) ∨ att j = none ∧ loose' pl j)
    (hloose : ∀ p j, p ≠ pl → loose p j → loose' p j) :
    w₀.Ledger loose' att (Function.update occ pl is) where
  lent j := by
    refine (h.lent j).imp_right fun ⟨hnone, a, ha, hplace, hmem⟩ => ⟨hnone, a, ha, hplace, ?_⟩
    by_cases hpl : a.place = pl
    · rw [hpl, Function.update_self]
      rw [hpl] at hmem
      exact hout j a ha hpl hmem
    · rw [Function.update_of_ne hpl]
      exact hmem
  stands p j hp hj := by
    by_cases hpl : p = pl
    · subst hpl
      rw [Function.update_self] at hj
      exact hin j hj
    · rw [Function.update_of_ne hpl] at hj
      exact (h.stands p j hp hj).imp_right fun hj => ⟨hj.1, hloose p j hpl hj.2⟩
  nodup p hp := by
    by_cases hpl : p = pl
    · rw [hpl, Function.update_self]
      exact hnodup
    · rw [Function.update_of_ne hpl]
      exact h.nodup p hp

/-- A free occupant of an unknown place is recorded to stand there. -/
theorem take (h : w₀.Ledger loose att occ) {a : Attachment}
    (hplaces : ∀ i a, w₀.attachment? i = some a → w₀.KnowsPlace a.place) (hfree : att i = none)
    (hpl : ¬ w₀.KnowsPlace a.place) (hi : i ∈ occ a.place)
    (honly : ∀ p, ¬ w₀.KnowsPlace p → i ∈ occ p → loose p i → p = a.place)
    (hloose : ∀ p j, j ≠ i → loose p j → loose' p j) :
    w₀.Ledger loose' (Function.update att i (some a)) occ where
  lent j := by
    by_cases hji : j = i
    · subst hji
      refine Or.inr ⟨h.free_before hplaces fun b hb => ?_, a, Function.update_self _ _ _, hpl, hi⟩
      rw [hfree] at hb
      cases hb
    · rw [Function.update_of_ne hji]
      exact h.lent j
  stands p j hp hj := by
    by_cases hji : j = i
    · subst hji
      refine Or.inl ⟨a, Function.update_self _ _ _, ?_⟩
      rcases h.stands p j hp hj with ⟨b, hb, -⟩ | ⟨-, hl⟩
      · rw [hfree] at hb
        cases hb
      · exact (honly p hp hj hl).symm
    · rw [Function.update_of_ne hji]
      exact (h.stands p j hp hj).imp_right fun hj => ⟨hj.1, hloose p j hji hj.2⟩
  nodup := h.nodup

/-- Places where nobody is recorded are emptied, and with them their loose ends go. -/
theorem clear (h : w₀.Ledger loose att occ)
    (hocc : ∀ pl, ¬ w₀.KnowsPlace pl → (occ' pl = occ pl ∧ ∀ i, loose pl i → loose' pl i) ∨
      occ' pl = [] ∧ ∀ i ∈ occ pl, ∀ a, att i = some a → a.place ≠ pl) :
    w₀.Ledger loose' att occ' where
  lent i := by
    refine (h.lent i).imp_right fun ⟨hnone, a, ha, hplace, hmem⟩ => ⟨hnone, a, ha, hplace, ?_⟩
    rcases hocc a.place hplace with ⟨heq, -⟩ | ⟨-, hout⟩
    · exact heq ▸ hmem
    · exact absurd rfl (hout i hmem a ha)
  stands pl i hpl hi := by
    rcases hocc pl hpl with ⟨heq, hloose⟩ | ⟨hnil, -⟩
    · exact (h.stands pl i hpl (heq ▸ hi)).imp_right fun hi => ⟨hi.1, hloose i hi.2⟩
    · rw [hnil] at hi
      cases hi
  nodup pl hpl := by
    rcases hocc pl hpl with ⟨heq, -⟩ | ⟨hnil, -⟩
    · rw [heq]
      exact h.nodup pl hpl
    · rw [hnil]
      exact List.nodup_nil

/-- When unknown places hold nothing, everybody is recorded as before. -/
theorem restored (h : w₀.Ledger loose att occ) (hempty : ∀ pl, ¬ w₀.KnowsPlace pl → occ pl = []) :
    att = w₀.attachment? := by
  funext i
  rcases h.lent i with heq | ⟨-, a, -, hplace, hmem⟩
  · exact heq
  · rw [hempty _ hplace] at hmem
    cases hmem

end Ledger

end World

end ReactiveView
