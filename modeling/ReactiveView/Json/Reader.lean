import ReactiveView.Json.Basic
import ReactiveView.Decimal.Reader

/-!
# Reading data text

`Json.parse?` reads a data text: exactly one value between blanks (space, tab, line feed, carriage
return), nested less than 128 deep, a repeated key keeping its last value. It fails as a whole, since
no caller looks at the reason.

Numbers are read in one pass. The digits are gathered into a whole number below `2 ^ 64`; digits
that do not fit any more are dropped, those before the point raising the exponent. The result is
that whole number, rounded to floating point, times or divided by one power of ten, rounded again:
it may differ from the nearest number in the last place, and a text beyond the range is refused. A
number without point and exponent that fits sixty-four bits stays a whole number; minus zero does
not.

Each reader takes the remaining text and gives back what it read together with what is left.
-/

set_option autoImplicit false

namespace ReactiveView.Json

open ReactiveView.Decimal (isDigit digitValue scanDigits)

/-! ## Numbers -/

/-- The bound of the gathered whole number. -/
def wordBound : Nat := Nat.pow 2 64

/-- Gathers digits while they fit below `wordBound`; gives the number and the digits left over. -/
def gather (n : Nat) : List Char → Nat × List Char
  | [] => (n, [])
  | d :: ds =>
    if 10 * n + digitValue d < wordBound then gather (10 * n + digitValue d) ds else (n, d :: ds)

/-- Divides by `10 ^ 308` until the exponent is in reach of a single power of ten. -/
def lowerScale (fuel : Nat) (x : Float) (down : Nat) : Float × Nat :=
  match fuel with
  | 0 => (x, down)
  | fuel + 1 =>
    if down ≤ 308 || x == 0.0 then (x, down)
    else lowerScale fuel (x / Float.ofScientific 1 false 308) (down - 308)

/-- The floating-point number `n · 10 ^ e` with one rounding for `n` and one for the power. -/
def scaled? (negative : Bool) (n : Nat) (e : Int) : Option Float :=
  let x := Float.ofScientific n false 0
  let sign (x : Float) : Float := if negative then -x else x
  if 0 ≤ e then
    if e ≤ 308 then
      let y := x * Float.ofScientific 1 false e.natAbs
      if y.isInf then none else some (sign y)
    else if n = 0 then some (sign x)
    else none
  else
    let (y, down) := lowerScale 4 x (min e.natAbs 1300)
    if y == 0.0 then some (sign y)
    else some (sign (y / Float.ofScientific 1 false down))

/-- Reads the digits of an exponent after its letter and sign, and scales. -/
def exponentPart? (negative : Bool) (n : Nat) (e : Int) (cs : List Char) :
    Option (Number × List Char) :=
  let (down, cs) :=
    match cs with
    | '+' :: rest => (false, rest)
    | '-' :: rest => (true, rest)
    | _ => (false, cs)
  let (ds, rest) := scanDigits cs
  if ds.isEmpty then none
  else
    let size := Decimal.valueOf 0 ds
    if Nat.pow 2 31 ≤ size then
      if n ≠ 0 && !down then none else some (.float (if negative then -0.0 else 0.0), rest)
    else
      let e' := if down then e - size else e + size
      (scaled? negative n e').map fun x => (.float x, rest)

/-- Reads what may follow the digits of a number. -/
def exponentOrEnd? (negative : Bool) (n : Nat) (e : Int) (cs : List Char) :
    Option (Number × List Char) :=
  match cs with
  | 'e' :: rest => exponentPart? negative n e rest
  | 'E' :: rest => exponentPart? negative n e rest
  | _ => (scaled? negative n e).map fun x => (.float x, cs)

/-- A whole number without point and exponent. -/
def wholeNumber (negative : Bool) (n : Nat) : Number :=
  if negative then
    if n = 0 ∨ Nat.pow 2 63 < n then .float (-(Float.ofScientific n false 0)) else .integer (-(n : Int))
  else .integer n

/-- Reads a number after its sign. -/
def magnitude? (negative : Bool) (cs : List Char) : Option (Number × List Char) :=
  let (ds, rest) := scanDigits cs
  match ds with
  | [] => none
  | d :: more =>
    if d = '0' ∧ more ≠ [] then none
    else
      let (n, dropped) := gather 0 ds
      let e : Int := dropped.length
      match rest with
      | '.' :: after =>
        let (fs, rest) := scanDigits after
        if fs.isEmpty then none
        else
          let (n, unread) := gather n fs
          exponentOrEnd? negative n (e - (fs.length - unread.length : Nat)) rest
      | 'e' :: _ => exponentOrEnd? negative n e rest
      | 'E' :: _ => exponentOrEnd? negative n e rest
      | _ =>
        if dropped.isEmpty then some (wholeNumber negative n, rest)
        else exponentOrEnd? negative n e rest

/-! ## Texts -/

/-- The value of four hexadecimal digits. -/
def hexWord? (cs : List Char) : Option (Nat × List Char) :=
  let digit (c : Char) : Option Nat :=
    if isDigit c then some (digitValue c)
    else if 'a' ≤ c ∧ c ≤ 'f' then some (c.toNat - 87)
    else if 'A' ≤ c ∧ c ≤ 'F' then some (c.toNat - 55)
    else none
  match cs with
  | a :: b :: c :: d :: rest => do
    let a ← digit a
    let b ← digit b
    let c ← digit c
    let d ← digit d
    some (((a * 16 + b) * 16 + c) * 16 + d, rest)
  | _ => none

/-- Reads an escape after its backslash. -/
def escape? (cs : List Char) : Option (Char × List Char) :=
  match cs with
  | '"' :: rest => some ('"', rest)
  | '\\' :: rest => some ('\\', rest)
  | '/' :: rest => some ('/', rest)
  | 'b' :: rest => some (Char.ofNat 8, rest)
  | 'f' :: rest => some (Char.ofNat 12, rest)
  | 'n' :: rest => some ('\n', rest)
  | 'r' :: rest => some ('\r', rest)
  | 't' :: rest => some ('\t', rest)
  | 'u' :: rest =>
    match hexWord? rest with
    | none => none
    | some (n, rest) =>
      if 0xDC00 ≤ n ∧ n ≤ 0xDFFF then none
      else if 0xD800 ≤ n ∧ n ≤ 0xDBFF then
        match rest with
        | '\\' :: 'u' :: more =>
          match hexWord? more with
          | none => none
          | some (low, more) =>
            if 0xDC00 ≤ low ∧ low ≤ 0xDFFF then
              some (Char.ofNat (0x10000 + (n - 0xD800) * 0x400 + (low - 0xDC00)), more)
            else none
        | _ => none
      else some (Char.ofNat n, rest)
  | _ => none

/-- Reads a text after its opening quote; `read` holds the characters read, reversed. -/
def text? (fuel : Nat) (read : List Char) (cs : List Char) : Option (String × List Char) :=
  match fuel with
  | 0 => none
  | fuel + 1 =>
    match cs with
    | [] => none
    | '"' :: rest => some (String.ofList read.reverse, rest)
    | '\\' :: rest =>
      match escape? rest with
      | none => none
      | some (c, rest) => text? fuel (c :: read) rest
    | c :: rest => if c.toNat < 32 then none else text? fuel (c :: read) rest

/-! ## Values -/

/-- Drops the blanks of data text. -/
def skipBlanks (cs : List Char) : List Char :=
  cs.dropWhile fun c => c = ' ' || c = '\t' || c = '\n' || c = '\r'

/-- Drops a word at the front. -/
def word? (word : String) (cs : List Char) : Option (List Char) :=
  if word.toList.isPrefixOf cs then some (cs.drop word.length) else none

mutual

/-- Reads a value; `depth` counts the levels that may still be opened, plus one. -/
def value? (fuel depth : Nat) (cs : List Char) : Option (Json × List Char) :=
  match fuel with
  | 0 => none
  | fuel + 1 =>
    match skipBlanks cs with
    | [] => none
    | c :: rest =>
      if c = 'n' then (word? "null" (c :: rest)).map fun r => (null, r)
      else if c = 't' then (word? "true" (c :: rest)).map fun r => (bool true, r)
      else if c = 'f' then (word? "false" (c :: rest)).map fun r => (bool false, r)
      else if c = '"' then (text? (rest.length + 1) [] rest).map fun (s, r) => (text s, r)
      else if c = '-' then (magnitude? true rest).map fun (n, r) => (number n, r)
      else if isDigit c then (magnitude? false (c :: rest)).map fun (n, r) => (number n, r)
      else if c = '[' then
        if depth ≤ 1 then none
        else
          match skipBlanks rest with
          | ']' :: r => some (array [], r)
          | _ => items? fuel (depth - 1) [] rest
      else if c.toNat = 123 then
        if depth ≤ 1 then none
        else
          match skipBlanks rest with
          | [] => none
          | close :: r =>
            if close.toNat = 125 then some (object [], r) else members? fuel (depth - 1) [] rest
      else none

/-- Reads items up to the closing bracket; `read` holds the items read, reversed. -/
def items? (fuel depth : Nat) (read : List Json) (cs : List Char) : Option (Json × List Char) :=
  match fuel with
  | 0 => none
  | fuel + 1 =>
    match value? fuel depth cs with
    | none => none
    | some (item, rest) =>
      match skipBlanks rest with
      | ',' :: r => items? fuel depth (item :: read) r
      | ']' :: r => some (array (item :: read).reverse, r)
      | _ => none

/-- Reads members up to the closing brace. -/
def members? (fuel depth : Nat) (read : Dict String Json) (cs : List Char) :
    Option (Json × List Char) :=
  match fuel with
  | 0 => none
  | fuel + 1 =>
    match skipBlanks cs with
    | '"' :: rest =>
      match text? (rest.length + 1) [] rest with
      | none => none
      | some (key, rest) =>
        match skipBlanks rest with
        | ':' :: rest =>
          match value? fuel depth rest with
          | none => none
          | some (v, rest) =>
            match skipBlanks rest with
            | [] => none
            | c :: r =>
              if c = ',' then members? fuel depth (read.insert key v) r
              else if c.toNat = 125 then some (object (read.insert key v), r)
              else none
        | _ => none
    | _ => none

end

/-- Reads a data text that is one value and nothing else. -/
def parse? (s : String) : Option Json :=
  let cs := s.toList
  match value? (2 * cs.length + 2) 128 cs with
  | some (v, rest) => if (skipBlanks rest).isEmpty then some v else none
  | none => none

end ReactiveView.Json
