/-!
# Binary floating-point numbers as exact quantities

`Binary.ofFloat` reads the sixty-four bits of a floating-point number as a class, a sign, and a
magnitude `significand · 2 ^ exponent` in whole numbers. Everything the library decides about a
number (whether it is finite, whether it has a fraction, whether it lies below a bound, how it is
written) is decided on this exact form.

Equality of values is symmetric (`sameValue_comm`), and only finite numbers are without a fraction
(`isFinite_of_isWhole`).
-/

set_option autoImplicit false

namespace ReactiveView

/-- What a floating-point number is: not a number, an infinity, or an exact finite quantity. -/
inductive Binary where
  | notANumber
  | infinite (negative : Bool)
  | finite (negative : Bool) (significand : Nat) (exponent : Int)
deriving DecidableEq, Repr

namespace Binary

/-- Splits the bits into sign, eleven bits of exponent and fifty-two bits of fraction. -/
def ofBits (bits : Nat) : Binary :=
  let negative := bits / Nat.pow 2 63 % 2 == 1
  let scale : Nat := bits / Nat.pow 2 52 % 2048
  let fraction : Nat := bits % Nat.pow 2 52
  if scale = 2047 then (if fraction = 0 then infinite negative else notANumber)
  else if scale = 0 then finite negative fraction (-1074)
  else finite negative (Nat.pow 2 52 + fraction) ((scale : Int) - 1075)

/-- The exact form of a floating-point number. -/
def ofFloat (x : Float) : Binary := ofBits x.toBits.toNat

/-- Whether the number is finite. -/
def isFinite : Binary → Bool
  | finite .. => true
  | _ => false

/-- Whether the number is a zero of either sign. -/
def isZero : Binary → Bool
  | finite _ m _ => m == 0
  | _ => false

/-- Whether the number carries the sign bit. -/
def isNegative : Binary → Bool
  | notANumber => false
  | infinite negative => negative
  | finite negative _ _ => negative

/-- The magnitude of a finite number without a fraction. -/
def wholePart? : Binary → Option Nat
  | finite _ m q =>
    if 0 ≤ q then some (m * Nat.pow 2 q.toNat)
    else if m % Nat.pow 2 (-q).toNat = 0 then some (m / Nat.pow 2 (-q).toNat)
    else none
  | _ => none

/-- Whether the number is finite and has no fraction. -/
def isWhole (b : Binary) : Bool := b.wholePart?.isSome

/-- The integer that a finite number without a fraction is. -/
def integer? (b : Binary) : Option Int :=
  b.wholePart?.map fun n => if b.isNegative then -(n : Int) else (n : Int)

/-- The order of values puts a number that is not below zero at or above it; both zeros count. -/
def isNonNegative : Binary → Bool
  | notANumber => false
  | infinite negative => !negative
  | finite negative m _ => !negative || m == 0

/-- Equality of values: zeros of both signs are equal, and what is not a number equals nothing. -/
def sameValue : Binary → Binary → Bool
  | finite n m q, finite n' m' q' => (m == 0 && m' == 0) || (n == n' && m == m' && q == q')
  | infinite n, infinite n' => n == n'
  | _, _ => false

/-- Equality of values is symmetric. -/
theorem sameValue_comm (a b : Binary) : a.sameValue b = b.sameValue a := by
  cases a <;> cases b <;> simp only [sameValue]
  · exact Bool.beq_comm
  · rename_i n m q n' m' q'
    rw [Bool.and_comm (x := m == 0), @Bool.beq_comm _ _ _ n n', @Bool.beq_comm _ _ _ m m',
      @Bool.beq_comm _ _ _ q q']

/-- A number without a fraction is finite. -/
theorem isFinite_of_isWhole (b : Binary) (h : b.isWhole = true) : b.isFinite = true := by
  cases b <;> simp_all [isWhole, wholePart?, isFinite]

end Binary

end ReactiveView
