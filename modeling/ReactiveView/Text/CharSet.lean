/-!
# Sets of characters given by boundaries

A set of code points is kept as the ascending list of the points where membership changes: the
first entry is the least member, the second the least non-member above it, and so on. A code point
belongs to the set when an odd number of entries is at most that code point.

The statement `inBoundaries_of_lt` says that nothing below the first entry belongs to the set.
-/

set_option autoImplicit false

namespace ReactiveView.Text

/-- Whether code point `n` lies in the set whose boundaries are listed in ascending order. -/
def inBoundaries (n : Nat) : List Nat → Bool
  | [] => false
  | b :: bs => if n < b then false else !(inBoundaries n bs)

/-- No code point below the first boundary is a member. -/
theorem inBoundaries_of_lt (n b : Nat) (bs : List Nat) (h : n < b) :
    inBoundaries n (b :: bs) = false := by
  simp [inBoundaries, h]

end ReactiveView.Text
