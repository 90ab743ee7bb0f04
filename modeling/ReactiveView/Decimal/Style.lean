import ReactiveView.Decimal.Shortest

/-!
# Writing numbers

A `Style` fixes how the digits of a positive decimal are laid out: which decimal exponents are
written out plainly, whether a plain whole number ends in a zero after the point, whether a positive
exponent carries a sign, and which of two equally near digit strings is taken. Three styles are in
use: the text written into a view, the numbers of data text, and the exponent form in which values
are reported.

`plain_whole` states the plain form of a whole number.
-/

set_option autoImplicit false

namespace ReactiveView.Decimal

/-- How a positive decimal is laid out. -/
structure Style where
  /-- Whether a number whose first digit stands at `10 ^ e` is written without an exponent. -/
  isPlain : Int → Bool
  /-- Whether a plain whole number ends in a point and a zero. -/
  wholeMark : Bool
  /-- Whether a positive exponent has a plus sign. -/
  plusSign : Bool
  /-- Whether the upper of two equally near candidates is taken. -/
  tiesUp : Bool

/-- The text of a view is always plain; of two equally near candidates it takes the upper. -/
def Style.view : Style := ⟨fun _ => true, false, false, true⟩

/-- Data text is plain from 1e-5 up to below 1e16, with a point; ties go to the even digit. -/
def Style.data : Style := ⟨fun e => -5 ≤ e && e < 16, true, true, false⟩

/-- The exponent form: one digit before the point and always an exponent. -/
def Style.exponent : Style := ⟨fun _ => false, false, false, true⟩

/-- The decimal digits of a number. -/
def digitChars (n : Nat) : List Char := Nat.toDigits 10 n

/-- The digits of an integer with its sign. -/
def integerChars (n : Int) : List Char :=
  if n < 0 then '-' :: digitChars n.natAbs else digitChars n.natAbs

/-- Digits `ds` of a number `ds · 10 ^ k` written without an exponent. -/
def plain (wholeMark : Bool) (ds : List Char) (k : Int) : List Char :=
  let point := (ds.length : Int) + k
  if 0 ≤ k then ds ++ List.replicate k.toNat '0' ++ (if wholeMark then ['.', '0'] else [])
  else if 0 < point then ds.take point.toNat ++ ['.'] ++ ds.drop point.toNat
  else ['0', '.'] ++ List.replicate (-point).toNat '0' ++ ds

/-- Digits `ds` with one of them before the point, and the exponent `e` of that digit. -/
def scientific (plusSign : Bool) (ds : List Char) (e : Int) : List Char :=
  let mantissa :=
    match ds with
    | [] => []
    | [d] => [d]
    | d :: rest => d :: '.' :: rest
  mantissa ++ ['e'] ++ (if plusSign && 0 ≤ e then ['+'] else []) ++ integerChars e

/-- A positive decimal in a style. -/
def Style.write (s : Style) (d : Digits) : List Char :=
  let ds := digitChars d.digits
  let e := d.exponent + ds.length - 1
  if s.isPlain e then plain s.wholeMark ds d.exponent else scientific s.plusSign ds e

/-- The shortest text of `m · 2 ^ q` in a style. -/
def Style.writeMagnitude (s : Style) (m : Nat) (q : Int) : List Char :=
  s.write (shortest s.tiesUp m q)

/-- Puts the sign in front. -/
def signed (negative : Bool) (cs : List Char) : List Char := if negative then '-' :: cs else cs

/-- The text a number leaves in a view: zeros without sign, whole numbers below `10 ^ 21` with all
their digits, other finite numbers with the shortest digits, always without an exponent. -/
def viewText (x : Float) : String :=
  String.ofList <|
    match Binary.ofFloat x with
    | .notANumber => ['N', 'a', 'N']
    | .infinite negative => signed negative "Infinity".toList
    | .finite negative m q =>
      if m = 0 then ['0']
      else
        match (Binary.finite negative m q).wholePart? with
        | some n =>
          if n < Nat.pow 10 21 then signed negative (digitChars n)
          else signed negative (Style.view.writeMagnitude m q)
        | none => signed negative (Style.view.writeMagnitude m q)

/-- The text of a finite number in data text. -/
def dataText (negative : Bool) (m : Nat) (q : Int) : List Char :=
  if m = 0 then signed negative ['0', '.', '0'] else signed negative (Style.data.writeMagnitude m q)

/-- The exponent form of a number, in which zero keeps its sign. -/
def exponentText (x : Float) : String :=
  String.ofList <|
    match Binary.ofFloat x with
    | .notANumber => ['N', 'a', 'N']
    | .infinite negative => signed negative ['i', 'n', 'f']
    | .finite negative m q =>
      if m = 0 then signed negative ['0', 'e', '0']
      else signed negative (Style.exponent.writeMagnitude m q)

/-- A whole number is written with its digits and the zeros of its exponent. -/
theorem plain_whole (ds : List Char) (k : Nat) :
    plain false ds k = ds ++ List.replicate k '0' := by
  simp [plain]

end ReactiveView.Decimal
