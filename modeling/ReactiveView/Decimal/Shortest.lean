import ReactiveView.Decimal.Binary

/-!
# The shortest decimal that reads back

Of the decimals that round to a given binary quantity, those with the fewest digits are wanted, and
of these the one nearest to the quantity. `shortest` finds it by exact whole-number arithmetic: it
walks down the decimal grids `10 ^ k` and tests, on each, the two grid points next to the quantity
against the interval of reals that round to it. The first grid with a hit decides; of two hits the
nearer one is taken, and which of two equally near ones is a parameter.

The interval reaches half-way to the neighbouring quantities, its ends included exactly when the
significand is even. `Interval.holds` is membership, and `Interval.holds_of_search` says that what the
search finds is a member.
-/

set_option autoImplicit false

namespace ReactiveView.Decimal

/-- A positive decimal `digits · 10 ^ exponent`. -/
structure Digits where
  digits : Nat
  exponent : Int
deriving DecidableEq, Repr

/-- The reals that round to a quantity, in whole numbers over a common denominator: the two ends,
the quantity itself, and whether the ends belong to the interval. -/
structure Interval where
  low : Nat
  value : Nat
  high : Nat
  denominator : Nat
  closed : Bool

/-- The interval of the quantity `m · 2 ^ q`; below a power of two the neighbour is nearer. -/
def Interval.of (m : Nat) (q : Int) : Interval :=
  let nearBelow := m == Nat.pow 2 52 && q != -1074
  let low := if nearBelow then 4 * m - 1 else 4 * m - 2
  let up := (q - 2).toNat
  let down := (2 - q).toNat
  { low := low * Nat.pow 2 up, value := 4 * m * Nat.pow 2 up, high := (4 * m + 2) * Nat.pow 2 up
    denominator := Nat.pow 2 down, closed := m % 2 == 0 }

/-- Whether the decimal `n · 10 ^ k` lies in the interval. -/
def Interval.holds (i : Interval) (n : Nat) (k : Int) : Bool :=
  let point := n * Nat.pow 10 k.toNat * i.denominator
  let scale := Nat.pow 10 (-k).toNat
  if i.closed then i.low * scale ≤ point && point ≤ i.high * scale
  else i.low * scale < point && point < i.high * scale

/-- The largest `n` with `n · 10 ^ k` at most the quantity. -/
def Interval.below (i : Interval) (k : Int) : Nat :=
  i.value * Nat.pow 10 (-k).toNat / (i.denominator * Nat.pow 10 k.toNat)

/-- The grid point of `10 ^ k` next to the quantity that lies in the interval, the nearer of two. -/
def Interval.hit? (i : Interval) (tiesUp : Bool) (k : Int) : Option Nat :=
  let n := i.below k
  let lower := n != 0 && i.holds n k
  let upper := i.holds (n + 1) k
  match lower, upper with
  | false, false => none
  | true, false => some n
  | false, true => some (n + 1)
  | true, true =>
    let unit := i.denominator * Nat.pow 10 k.toNat
    let rest := i.value * Nat.pow 10 (-k).toNat - n * unit
    if 2 * rest < unit then some n
    else if unit < 2 * rest then some (n + 1)
    else if tiesUp then some (n + 1)
    else if n % 2 = 0 then some n
    else some (n + 1)

/-- Takes the zeros at the end of a number into the exponent. -/
def Digits.strip (fuel : Nat) (d : Digits) : Digits :=
  match fuel with
  | 0 => d
  | fuel + 1 =>
    if d.digits ≠ 0 ∧ d.digits % 10 = 0 then strip fuel ⟨d.digits / 10, d.exponent + 1⟩ else d

/-- Walks down the grids from `10 ^ k`. -/
def Interval.search (i : Interval) (tiesUp : Bool) : Nat → Int → Option Digits
  | 0, _ => none
  | fuel + 1, k =>
    match i.hit? tiesUp k with
    | some n => some ⟨n, k⟩
    | none => i.search tiesUp fuel (k - 1)

/-- An exponent whose power of ten exceeds `m · 2 ^ q`. -/
def topExponent (m : Nat) (q : Int) : Int := ((m.log2 : Int) + q + 1) * 30103 / 100000 + 2

/-- The shortest decimal that rounds to the positive quantity `m · 2 ^ q`. Twenty-five grids are
enough: seventeen digits always do, and the first grid lies at most a few places too high. -/
def shortest (tiesUp : Bool) (m : Nat) (q : Int) : Digits :=
  match (Interval.of m q).search tiesUp 25 (topExponent m q) with
  | some d => d.strip 400
  | none => ⟨0, 0⟩

/-! ## The result lies in the interval -/

/-- A hit lies in the interval. -/
theorem Interval.holds_of_hit? (i : Interval) (tiesUp : Bool) (k : Int) (n : Nat)
    (h : i.hit? tiesUp k = some n) : i.holds n k = true := by
  unfold Interval.hit? at h
  simp only at h
  split at h
  · cases h
  · next h1 _ => cases h; simp only [Bool.and_eq_true] at h1; exact h1.2
  · next _ h2 => cases h; exact h2
  · next h1 h2 =>
    simp only [Bool.and_eq_true] at h1
    (repeat' split at h) <;> cases h <;> first | exact h1.2 | exact h2

/-- What the search finds lies in the interval. -/
theorem Interval.holds_of_search (i : Interval) (tiesUp : Bool) (fuel : Nat) (k : Int) (d : Digits)
    (h : i.search tiesUp fuel k = some d) : i.holds d.digits d.exponent = true := by
  induction fuel generalizing k with
  | zero => cases h
  | succ fuel ih =>
    unfold Interval.search at h
    split at h
    · next n hn => cases h; exact i.holds_of_hit? tiesUp k n hn
    · exact ih (k - 1) h

end ReactiveView.Decimal
