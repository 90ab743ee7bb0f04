import ReactiveView.Text.CharSet
import ReactiveView.Decimal.Reader

/-!
# Character references

In markup a character can be written by reference: by one of a few names (`&amp;`), by its number
(`&#65;`) or by its number in hexadecimal (`&#x41;`). The older names may go without the closing
semicolon, though in the value of an attribute not directly before a letter, a digit or an equals
sign. An ampersand that begins no reference stands for itself.

Numbers that name no character, or a character from the range of eight-bit controls, are replaced as
the rules of markup say (`characterOf`).
-/

set_option autoImplicit false

namespace ReactiveView.Markup

open ReactiveView.Decimal (isDigit valueOf)

/-- The character that stands for what cannot be read. -/
def replacement : Char := Char.ofNat 0xFFFD

/-- The characters that the numbers 128 to 159 stand for. -/
def controlReplacements : List Nat :=
  [0x20AC, 0x81, 0x201A, 0x192, 0x201E, 0x2026, 0x2020, 0x2021, 0x2C6, 0x2030, 0x160, 0x2039,
    0x152, 0x8D, 0x17D, 0x8F, 0x90, 0x2018, 0x2019, 0x201C, 0x201D, 0x2022, 0x2013, 0x2014,
    0x2DC, 0x2122, 0x161, 0x203A, 0x153, 0x9D, 0x17E, 0x178]

/-- The character that a number stands for. -/
def characterOf (n : Nat) : Char :=
  if n = 0 ∨ 0x10FFFF < n ∨ (0xD800 ≤ n ∧ n ≤ 0xDFFF) then replacement
  else if 0x80 ≤ n ∧ n ≤ 0x9F then Char.ofNat (controlReplacements.getD (n - 0x80) n)
  else Char.ofNat n

/-- The names of characters, longest first among those that begin alike, and whether a name may go
without the semicolon. -/
def characterNames : List (String × Nat × Bool) :=
  [("amp", 38, true), ("lt", 60, true), ("gt", 62, true), ("quot", 34, true), ("apos", 39, false),
    ("nbsp", 160, true), ("copy", 169, true), ("reg", 174, true), ("AMP", 38, true),
    ("LT", 60, true), ("GT", 62, true), ("QUOT", 34, true), ("hellip", 8230, false),
    ("mdash", 8212, false), ("ndash", 8211, false), ("times", 215, true)]

/-- Whether a character is a hexadecimal digit. -/
def isHexDigit (c : Char) : Bool := isDigit c || ('a' ≤ c && c ≤ 'f') || ('A' ≤ c && c ≤ 'F')

/-- The value of a hexadecimal digit. -/
def hexValue (c : Char) : Nat :=
  if isDigit c then c.toNat - 48 else if 'a' ≤ c then c.toNat - 87 else c.toNat - 55

/-- Drops a semicolon at the front. -/
def dropSemicolon : List Char → List Char
  | ';' :: rest => rest
  | cs => cs

/-- Whether a name without its semicolon may end before this text in the value of an attribute. -/
def mayEndInValue : List Char → Bool
  | [] => true
  | c :: _ => !(c.isAlphanum || c == '=')

/-- Reads one of the listed names. -/
def namedReference? (inValue : Bool) (cs : List Char) : List (String × Nat × Bool) →
    Option (Char × List Char)
  | [] => none
  | (name, n, short) :: more =>
    if name.toList.isPrefixOf cs then
      match cs.drop name.length with
      | ';' :: rest => some (Char.ofNat n, rest)
      | rest =>
        if short && (!inValue || mayEndInValue rest) then some (Char.ofNat n, rest)
        else namedReference? inValue cs more
    else namedReference? inValue cs more

/-- Reads a reference after its ampersand. -/
def reference? (inValue : Bool) (cs : List Char) : Option (Char × List Char) :=
  match cs with
  | '#' :: 'x' :: rest => hexadecimal rest
  | '#' :: 'X' :: rest => hexadecimal rest
  | '#' :: rest =>
    let ds := rest.takeWhile isDigit
    if ds.isEmpty then none
    else some (characterOf (valueOf 0 ds), dropSemicolon (rest.dropWhile isDigit))
  | _ => namedReference? inValue cs characterNames
where
  /-- Reads a hexadecimal number. -/
  hexadecimal (rest : List Char) : Option (Char × List Char) :=
    let ds := rest.takeWhile isHexDigit
    if ds.isEmpty then none
    else
      some (characterOf (ds.foldl (fun n d => 16 * n + hexValue d) 0),
        dropSemicolon (rest.dropWhile isHexDigit))

/-- Resolves the references in a text. -/
def resolve (inValue : Bool) (fuel : Nat) (cs : List Char) : List Char :=
  match fuel with
  | 0 => cs
  | fuel + 1 =>
    match cs with
    | [] => []
    | '&' :: rest =>
      match reference? inValue rest with
      | some (c, rest) => c :: resolve inValue fuel rest
      | none => '&' :: resolve inValue fuel rest
    | c :: rest => c :: resolve inValue fuel rest

/-- The text that markup text stands for. -/
def resolved (inValue : Bool) (cs : List Char) : String :=
  String.ofList (resolve inValue cs.length cs)

/-- A text without ampersands stands for itself. -/
theorem resolve_of_no_ampersand (inValue : Bool) (fuel : Nat) (cs : List Char)
    (h : '&' ∉ cs) : resolve inValue fuel cs = cs := by
  induction cs generalizing fuel with
  | nil => cases fuel <;> rfl
  | cons c rest ih =>
    simp only [List.mem_cons, not_or] at h
    cases fuel with
    | zero => rfl
    | succ fuel =>
      unfold resolve
      split
      · contradiction
      · next heq => cases heq; exact absurd rfl h.1
      · next heq => cases heq; rw [ih fuel h.2]

end ReactiveView.Markup
