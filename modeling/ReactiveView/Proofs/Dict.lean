import ReactiveView.Dict

/-!
# Look-ups in dictionaries

A key with an entry is among the keys (`Dict.mem_keys_of_get?`). A run of insertions answers at each
inserted key with the inserted value, when the keys are different (`Dict.get?_foldl_insert`), and
changes no other answer.
-/

set_option autoImplicit false

namespace ReactiveView

namespace Dict

variable {κ α β : Type} [DecidableEq κ]

/-! ## Keys -/

/-- What a look-up finds is an entry. -/
theorem mem_of_get? {d : Dict κ α} {k : κ} {a : α} (h : d.get? k = some a) : (k, a) ∈ d := by
  induction d with
  | nil => cases h
  | cons e rest ih =>
    obtain ⟨k', a'⟩ := e
    unfold get? at h
    split at h
    · next hk =>
      obtain rfl := Option.some.inj h
      exact hk ▸ List.mem_cons_self
    · exact List.mem_cons_of_mem _ (ih h)

/-- A key with an entry is among the keys. -/
theorem mem_keys_of_get? {d : Dict κ α} {k : κ} {a : α} (h : d.get? k = some a) : k ∈ d.keys :=
  List.mem_map_of_mem (f := (·.1)) (mem_of_get? h)

/-! ## Insertions -/

section Insert

variable [LT κ] [DecidableLT κ]

/-- An entry after an insertion is the inserted one or was there before. -/
theorem eq_or_mem_of_mem_insert {d : Dict κ α} {k : κ} {a : α} {e : κ × α} (h : e ∈ d.insert k a) :
    e = (k, a) ∨ e ∈ d := by
  induction d with
  | nil => exact Or.inl (List.mem_singleton.1 h)
  | cons x rest ih =>
    obtain ⟨k', a'⟩ := x
    unfold insert at h
    split at h
    · rcases List.mem_cons.1 h with rfl | h
      · exact Or.inl rfl
      · exact Or.inr (List.mem_cons_of_mem _ h)
    · split at h
      · exact List.mem_cons.1 h
      · rcases List.mem_cons.1 h with rfl | h
        · exact Or.inr List.mem_cons_self
        · exact (ih h).imp_right (List.mem_cons_of_mem _)

/-- The entries of a list made a dictionary are entries of the list. -/
theorem mem_of_mem_ofList {es : List (κ × α)} {e : κ × α} (h : e ∈ Dict.ofList es) : e ∈ es := by
  have hfoldl (d : Dict κ α) (es : List (κ × α)) (h : e ∈ es.foldl (fun d e => d.insert e.1 e.2) d) :
      e ∈ d ∨ e ∈ es := by
    induction es generalizing d with
    | nil => exact Or.inl h
    | cons f es ih =>
      rcases ih _ h with h | h
      · rcases eq_or_mem_of_mem_insert h with rfl | h
        · exact Or.inr List.mem_cons_self
        · exact Or.inl h
      · exact Or.inr (List.mem_cons_of_mem _ h)
  exact (hfoldl [] es h).resolve_left List.not_mem_nil

/-- The keys after an insertion. -/
theorem mem_keys_insert {d : Dict κ α} {k : κ} {a : α} {l : κ} : l ∈ (d.insert k a).keys ↔ l = k ∨ l ∈ d.keys := by
  induction d with
  | nil => simp [insert, keys]
  | cons x rest ih =>
    obtain ⟨k', a'⟩ := x
    simp only [keys, List.map_cons, List.mem_cons] at ih ⊢
    unfold insert
    split
    · next hk =>
      subst hk
      simp
    · split
      · simp
      · simp only [List.map_cons, List.mem_cons, ih]
        exact or_left_comm

/-- An insertion adds at most one entry. -/
theorem length_insert_le (d : Dict κ α) (k : κ) (a : α) : (d.insert k a).length ≤ d.length + 1 := by
  induction d with
  | nil => exact Nat.le_refl 1
  | cons e rest ih =>
    obtain ⟨k', a'⟩ := e
    unfold insert
    split
    · exact Nat.le_succ _
    · split
      · exact Nat.le_refl _
      · exact Nat.succ_le_succ ih

theorem length_foldl_insert_le (key : β → κ) (value : β → α) (bs : List β) (d : Dict κ α) :
    (bs.foldl (fun d b => d.insert (key b) (value b)) d).length ≤ d.length + bs.length := by
  induction bs generalizing d with
  | nil => exact Nat.le_refl _
  | cons b bs ih =>
    have hone := length_insert_le d (key b) (value b)
    have hrest := ih (d.insert (key b) (value b))
    rw [List.foldl_cons, List.length_cons]
    omega

/-- Inserting the entries of a list changes no answer at a key that is not among theirs. -/
theorem get?_foldl_insert_of_not_mem (key : β → κ) (value : β → α) (bs : List β) (d : Dict κ α)
    (k : κ) (h : k ∉ bs.map key) :
    (bs.foldl (fun d b => d.insert (key b) (value b)) d).get? k = d.get? k := by
  induction bs generalizing d with
  | nil => rfl
  | cons b bs ih =>
    simp only [List.map_cons, List.mem_cons, not_or] at h
    rw [List.foldl_cons, ih _ h.2, get?_insert_of_ne _ _ _ _ (Ne.symm h.1)]

/-- Inserted entries with different keys are all found. -/
theorem get?_foldl_insert (key : β → κ) (value : β → α) (bs : List β) (d : Dict κ α)
    (hn : (bs.map key).Nodup) (b : β) (hb : b ∈ bs) :
    (bs.foldl (fun d b => d.insert (key b) (value b)) d).get? (key b) = some (value b) := by
  induction bs generalizing d with
  | nil => cases hb
  | cons a bs ih =>
    simp only [List.map_cons, List.nodup_cons] at hn
    rw [List.foldl_cons]
    rcases List.mem_cons.1 hb with rfl | hb
    · rw [get?_foldl_insert_of_not_mem key value bs _ _ hn.1, get?_insert_self]
    · exact ih _ hn.2 hb

theorem getD_get?_append (d : Dict κ (List α)) (k l : κ) (a : α) :
    ((d.append k a).get? l).getD [] = (d.get? l).getD [] ++ if k = l then [a] else [] := by
  unfold append
  by_cases h : k = l
  · subst h
    rw [get?_insert_self, Option.getD_some, if_pos rfl]
  · rw [get?_insert_of_ne _ _ _ _ h, if_neg h, List.append_nil]

end Insert

end Dict

theorem mem_sortedKeys {κ : Type} [DecidableEq κ] [LT κ] [DecidableLT κ] {ks : List κ} {k : κ} :
    k ∈ sortedKeys ks ↔ k ∈ ks := by
  have hfoldl (d : Dict κ Unit) : k ∈ (ks.foldl (fun d k => d.insert k ()) d).keys ↔ k ∈ d.keys ∨ k ∈ ks := by
    induction ks generalizing d with
    | nil => simp
    | cons l ks ih =>
      rw [List.foldl_cons, ih, Dict.mem_keys_insert, List.mem_cons, or_assoc, or_left_comm]
  unfold sortedKeys Dict.ofList
  rw [List.foldl_map, hfoldl]
  exact or_iff_right List.not_mem_nil

end ReactiveView
