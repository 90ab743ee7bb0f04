/-!
# Ordered dictionaries

A dictionary is the list of its entries in ascending order of the keys, each key once. `insert`
keeps that order, so that reading the entries off in sequence is reading them in key order.

The statements say what a look-up answers after an insertion: the new value at the inserted key
(`get?_insert_self`), the old answer at every other key (`get?_insert_of_ne`).
-/

set_option autoImplicit false

namespace ReactiveView

/-- Entries in ascending order of the keys. -/
abbrev Dict (κ α : Type) := List (κ × α)

namespace Dict

variable {κ α β : Type}

/-- The dictionary without entries. -/
def empty : Dict κ α := []

/-- The keys in ascending order. -/
def keys (d : Dict κ α) : List κ := d.map (·.1)

section Lookup

variable [DecidableEq κ]

/-- The value stored under a key. -/
def get? (d : Dict κ α) (k : κ) : Option α :=
  match d with
  | [] => none
  | (k', a) :: rest => if k' = k then some a else get? rest k

/-- Whether a key has an entry. -/
def contains (d : Dict κ α) (k : κ) : Bool := (d.get? k).isSome

/-- The dictionary without a key. -/
def erase (d : Dict κ α) (k : κ) : Dict κ α := d.filter fun e => e.1 ≠ k

/-- Changes the value under a key, if there is one. -/
def modify (d : Dict κ α) (k : κ) (f : α → α) : Dict κ α :=
  d.map fun e => if e.1 = k then (e.1, f e.2) else e

end Lookup

/-- Applies a function to every value. -/
def mapValues (f : α → β) (d : Dict κ α) : Dict κ β := d.map fun e => (e.1, f e.2)

section Insert

variable [DecidableEq κ] [LT κ] [DecidableLT κ]

/-- Puts a value under a key, in place of an earlier one. -/
def insert (d : Dict κ α) (k : κ) (a : α) : Dict κ α :=
  match d with
  | [] => [(k, a)]
  | (k', a') :: rest =>
    if k' = k then (k, a) :: rest
    else if k < k' then (k, a) :: (k', a') :: rest
    else (k', a') :: insert rest k a

/-- The dictionary with the given entries, later ones winning. -/
def ofList (entries : List (κ × α)) : Dict κ α :=
  entries.foldl (fun d e => d.insert e.1 e.2) []

/-- The entries of both dictionaries, those of the second winning. -/
def union (d extra : Dict κ α) : Dict κ α := extra.foldl (fun d e => d.insert e.1 e.2) d

/-- Adds a value to the list under a key. -/
def append (d : Dict κ (List α)) (k : κ) (a : α) : Dict κ (List α) :=
  d.insert k (((d.get? k).getD []) ++ [a])

/-- An inserted value is found under its key. -/
theorem get?_insert_self (d : Dict κ α) (k : κ) (a : α) : (d.insert k a).get? k = some a := by
  induction d with
  | nil => simp [insert, get?]
  | cons e rest ih =>
    obtain ⟨k', a'⟩ := e
    unfold insert
    split
    · simp [get?]
    · next hk =>
      split
      · simp [get?]
      · simp [get?, hk, ih]

/-- An insertion changes no answer at another key. -/
theorem get?_insert_of_ne (d : Dict κ α) (k l : κ) (a : α) (h : k ≠ l) :
    (d.insert k a).get? l = d.get? l := by
  induction d with
  | nil => simp [insert, get?, h]
  | cons e rest ih =>
    obtain ⟨k', a'⟩ := e
    unfold insert
    split
    · next hk => subst hk; simp [get?, h]
    · split
      · simp [get?, h]
      · simp [get?, ih]

end Insert

end Dict

/-- The members of a list of keys in ascending order, each once. -/
def sortedKeys {κ : Type} [DecidableEq κ] [LT κ] [DecidableLT κ] (ks : List κ) : List κ :=
  (Dict.ofList (ks.map fun k => (k, ()))).keys

end ReactiveView
