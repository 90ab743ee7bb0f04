/-!
# Reading decimal text

`readFloat?` reads a decimal text (an optional sign, digits with an optional point, an optional
exponent, or one of the names of the special numbers) as the floating-point number nearest to it.
The digits are first gathered exactly as `mantissa · 10 ^ exponent`; `Scanned` is that exact form.

`scanDigits_append` says that scanning digits loses nothing.
-/

set_option autoImplicit false

namespace ReactiveView.Decimal

/-- Whether a character is an ASCII digit. -/
def isDigit (c : Char) : Bool := '0' ≤ c && c ≤ '9'

/-- The value of an ASCII digit. -/
def digitValue (c : Char) : Nat := c.toNat - 48

/-- The number that a run of digits continues `n` to. -/
def valueOf (n : Nat) (ds : List Char) : Nat := ds.foldl (fun n d => 10 * n + digitValue d) n

/-- The digits at the front and the rest. -/
def scanDigits (cs : List Char) : List Char × List Char := (cs.takeWhile isDigit, cs.dropWhile isDigit)

/-- An exact decimal `mantissa · 10 ^ exponent`. -/
structure Scanned where
  mantissa : Nat
  exponent : Int

/-- Reads the exponent after its letter. -/
def scanExponent? (cs : List Char) : Option Int :=
  let (negative, ds) :=
    match cs with
    | '-' :: rest => (true, rest)
    | '+' :: rest => (false, rest)
    | _ => (false, cs)
  if ds.isEmpty || !ds.all isDigit then none
  else some (if negative then -(valueOf 0 ds : Int) else (valueOf 0 ds : Int))

/-- Reads digits with an optional point and an optional exponent. -/
def scan? (cs : List Char) : Option Scanned :=
  let (whole, rest) := scanDigits cs
  let (fraction, rest) :=
    match rest with
    | '.' :: more => scanDigits more
    | _ => ([], rest)
  if whole.isEmpty && fraction.isEmpty then none
  else
    let base : Scanned := ⟨valueOf (valueOf 0 whole) fraction, -(fraction.length : Int)⟩
    match rest with
    | [] => some base
    | c :: more =>
      if c = 'e' ∨ c = 'E' then
        (scanExponent? more).map fun e => { base with exponent := base.exponent + e }
      else none

/-- The floating-point number nearest to an exact decimal. Beyond the range of the type the result
is zero or infinity, which is settled before any power is formed. -/
def Scanned.toFloat (s : Scanned) : Float :=
  let size := (Nat.toDigits 10 s.mantissa).length + s.exponent
  if s.mantissa = 0 then 0.0
  else if 400 < size then 1.0 / 0.0
  else if size < -400 then 0.0
  else if s.exponent < 0 then Float.ofScientific s.mantissa true s.exponent.natAbs
  else Float.ofScientific s.mantissa false s.exponent.natAbs

/-- The number a decimal text names. -/
def readFloat? (text : String) : Option Float :=
  let (negative, cs) :=
    match text.toList with
    | '-' :: rest => (true, rest)
    | '+' :: rest => (false, rest)
    | cs => (false, cs)
  let magnitude : Option Float :=
    match String.ofList (cs.map Char.toLower) with
    | "nan" => some (0.0 / 0.0)
    | "inf" => some (1.0 / 0.0)
    | "infinity" => some (1.0 / 0.0)
    | _ => (scan? cs).map Scanned.toFloat
  magnitude.map fun x => if negative then -x else x

/-- Scanning digits loses nothing. -/
theorem scanDigits_append (cs : List Char) : (scanDigits cs).1 ++ (scanDigits cs).2 = cs := by
  simp [scanDigits, List.takeWhile_append_dropWhile]

end ReactiveView.Decimal
