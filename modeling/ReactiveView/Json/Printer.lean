import ReactiveView.Json.Basic
import ReactiveView.Decimal.Style

/-!
# Writing data text

`compact` writes a value without blanks, `pretty n` with `n` spaces a level, a space after each
colon, and nothing between the brackets of an empty array or object. In texts the quote, the
backslash and the control characters below the space are escaped, five of them by a letter.

`escapedChar_plain` says that every other character stands for itself.
-/

set_option autoImplicit false

namespace ReactiveView.Json

/-- One hexadecimal digit, in lower case. -/
def hexDigitChar (n : Nat) : Char := Nat.digitChar (n % 16)

/-- One character as it stands inside the quotes of data text. -/
def escapedChar (c : Char) : List Char :=
  if c = '"' then ['\\', '"']
  else if c = '\\' then ['\\', '\\']
  else if c.toNat = 8 then ['\\', 'b']
  else if c.toNat = 12 then ['\\', 'f']
  else if c = '\n' then ['\\', 'n']
  else if c = '\r' then ['\\', 'r']
  else if c = '\t' then ['\\', 't']
  else if c.toNat < 32 then
    ['\\', 'u', '0', '0', hexDigitChar (c.toNat / 16), hexDigitChar c.toNat]
  else [c]

/-- A text between quotes. -/
def textChars (s : String) : List Char := '"' :: s.toList.flatMap escapedChar ++ ['"']

/-- A number. -/
def Number.chars : Number → List Char
  | integer n => Decimal.integerChars n
  | float x =>
    match Binary.ofFloat x with
    | .finite negative m q => Decimal.dataText negative m q
    | _ => "null".toList

/-- What stands between two items, and before the closing bracket, at a level. -/
structure Layout where
  /-- What opens a line `level` deep. -/
  lineStart : Nat → List Char
  /-- What stands after the colon of a member. -/
  afterColon : List Char

/-- No blanks at all. -/
def Layout.compact : Layout := ⟨fun _ => [], []⟩

/-- A line for each item, `indent` spaces a level. -/
def Layout.lines (indent : Nat) : Layout :=
  ⟨fun level => '\n' :: List.replicate (indent * level) ' ', [' ']⟩

mutual

/-- Writes a value that stands `level` deep. -/
def write (l : Layout) (level : Nat) : Json → List Char
  | null => "null".toList
  | bool true => "true".toList
  | bool false => "false".toList
  | number n => n.chars
  | text s => textChars s
  | array [] => ['[', ']']
  | array items => '[' :: writeItems l (level + 1) items ++ l.lineStart level ++ [']']
  | object [] => [Char.ofNat 123, Char.ofNat 125]
  | object members =>
    Char.ofNat 123 :: writeMembers l (level + 1) members ++ l.lineStart level ++ [Char.ofNat 125]

/-- Writes items with commas between them. -/
def writeItems (l : Layout) (level : Nat) : List Json → List Char
  | [] => []
  | [item] => l.lineStart level ++ write l level item
  | item :: rest => l.lineStart level ++ write l level item ++ [','] ++ writeItems l level rest

/-- Writes members with commas between them. -/
def writeMembers (l : Layout) (level : Nat) : List (String × Json) → List Char
  | [] => []
  | [(key, v)] => l.lineStart level ++ textChars key ++ [':'] ++ l.afterColon ++ write l level v
  | (key, v) :: rest =>
    l.lineStart level ++ textChars key ++ [':'] ++ l.afterColon ++ write l level v ++ [',']
      ++ writeMembers l level rest

end

/-- The data text of a value without blanks. -/
def compact (v : Json) : String := String.ofList (write .compact 0 v)

/-- The data text of a value with `indent` spaces a level. -/
def pretty (indent : Nat) (v : Json) : String := String.ofList (write (.lines indent) 0 v)

/-- A character that is neither a quote, a backslash nor a control stands for itself. -/
theorem escapedChar_plain (c : Char) (h1 : c ≠ '"') (h2 : c ≠ '\\') (h3 : 32 ≤ c.toNat) :
    escapedChar c = [c] := by
  have n1 : c ≠ '\n' := by rintro rfl; revert h3; decide
  have n2 : c ≠ '\r' := by rintro rfl; revert h3; decide
  have n3 : c ≠ '\t' := by rintro rfl; revert h3; decide
  simp only [escapedChar, if_neg h1, if_neg h2, if_neg n1, if_neg n2, if_neg n3]
  rw [if_neg (by omega), if_neg (by omega), if_neg (by omega)]

end ReactiveView.Json
