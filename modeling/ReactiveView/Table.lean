/-!
# Tables of numbered entries

A table holds entries under the numbers `0, 1, …` in the order in which they were added. Entries are
changed in place and never removed, so a number once given out names the same entry for good.

The statements give the answer of a look-up after each operation: `get?_push_self`,
`get?_push_of_lt`, `get?_modify_self` and `get?_modify_of_ne`.
-/

set_option autoImplicit false

namespace ReactiveView

/-- Entries under the numbers from zero on. -/
structure Table (α : Type) where
  entries : Array α := #[]

namespace Table

variable {α : Type}

/-- The table without entries. -/
def empty : Table α := {}

/-- The number of entries, which is also the number the next entry gets. -/
def size (t : Table α) : Nat := t.entries.size

/-- The entry with number `i`. -/
def get? (t : Table α) (i : Nat) : Option α := t.entries[i]?

/-- Adds an entry under the next number. -/
def push (t : Table α) (a : α) : Table α := ⟨t.entries.push a⟩

/-- Changes the entry with number `i`, if there is one. -/
def modify (t : Table α) (i : Nat) (f : α → α) : Table α := ⟨t.entries.modify i f⟩

/-- The entries in order. -/
def toList (t : Table α) : List α := t.entries.toList

/-- The new entry is found under the number it got. -/
@[simp] theorem get?_push_self (t : Table α) (a : α) : (t.push a).get? t.size = some a := by
  simp [get?, push, size]

/-- Adding an entry leaves the others. -/
theorem get?_push_of_lt (t : Table α) (a : α) (i : Nat) (h : i < t.size) :
    (t.push a).get? i = t.get? i := by
  simp only [get?, push, size] at *
  rw [Array.getElem?_push]
  have : i ≠ t.entries.size := by omega
  simp [this]

/-- A changed entry is found changed. -/
theorem get?_modify_self (t : Table α) (i : Nat) (f : α → α) :
    (t.modify i f).get? i = (t.get? i).map f := by
  simp [get?, modify, Array.getElem?_modify]

/-- A change of one entry leaves the others. -/
theorem get?_modify_of_ne (t : Table α) (i j : Nat) (f : α → α) (h : i ≠ j) :
    (t.modify i f).get? j = t.get? j := by
  simp [get?, modify, Array.getElem?_modify, h]

/-- A change of an entry adds none and removes none. -/
@[simp] theorem size_modify (t : Table α) (i : Nat) (f : α → α) : (t.modify i f).size = t.size := by
  simp [size, modify]

end Table

end ReactiveView
