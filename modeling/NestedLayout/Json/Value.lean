import NestedLayout.Number.Text
import NestedLayout.Table

/-!
# JSON values and their text

A JSON value with its numbers as they are written and its fields in the order in which they stand.

* `Json.compact` writes a value without blanks, `Json.pretty` with two spaces for each level.
* Strings are written raw, apart from quotes, backslashes and control characters (`escape`).
* A coordinate is written with its shortest digits, positionally from `0.000001` up to thirteen
  digits before the point; one that is not finite is written as `null`.
-/

set_option autoImplicit false

namespace NestedLayout

inductive Json where
  | null
  | flag (value : Bool)
  | number (text : String)
  | text (value : String)
  | list (items : List Json)
  | record (fields : List (String × Json))
deriving Inhabited

namespace Json

/-! ## Values -/

def ofNat (n : Nat) : Json := .number (String.ofList (Decimal.digits n))

/-- Coordinates are written positionally from a millionth up to thirteen digits before the point. -/
def coordinateStyle : NumberStyle := ⟨-6, 12⟩

/-- A coordinate; one that is not finite has no number. -/
def ofSingle (x : Float32) : Json :=
  if x.isFinite then .number (coordinateStyle.text x) else .null

/-- A value that may be missing. -/
def ofOption {β : Type} (f : β → Json) : Option β → Json
  | none => .null
  | some v => f v

/-- A list of texts. -/
def ofTexts (items : List String) : Json := .list (items.map .text)

/-- A table as a record, its ids in order. -/
def ofTable {β : Type} (f : β → Json) (t : IdTable β) : Json :=
  .record (t.entries.map fun e => (e.1, f e.2))

/-- The value of the first field with this name. -/
def field? (name : String) : Json → Option Json
  | record fields => (fields.find? fun f => f.1 == name).map (·.2)
  | _ => none

/-! ## Text -/

/-- A hexadecimal digit. -/
def hexDigit (n : Nat) : Char := if n < 10 then Char.ofNat (48 + n) else Char.ofNat (87 + n)

/-- How a character is written inside a string. -/
def escapeChar (c : Char) : List Char :=
  if c = '"' then ['\\', '"']
  else if c = '\\' then ['\\', '\\']
  else if c.toNat < 32 then
    match c.toNat with
    | 8 => ['\\', 'b']
    | 9 => ['\\', 't']
    | 10 => ['\\', 'n']
    | 12 => ['\\', 'f']
    | 13 => ['\\', 'r']
    | n => ['\\', 'u', '0', '0', hexDigit (n / 16), hexDigit (n % 16)]
  else [c]

/-- The characters of a string between its quotes. -/
def escape (s : List Char) : List Char := s.flatMap escapeChar

/-- A string in quotes. -/
def quote (s : String) : List Char := '"' :: escape s.toList ++ ['"']

mutual

/-- The text of a value without blanks. -/
def chars : Json → List Char
  | null => ['n', 'u', 'l', 'l']
  | flag true => ['t', 'r', 'u', 'e']
  | flag false => ['f', 'a', 'l', 's', 'e']
  | number digits => digits.toList
  | text value => quote value
  | list items => '[' :: itemChars items ++ [']']
  | record fields => '\x7b' :: fieldChars fields ++ ['\x7d']

/-- The items of a list, with commas between them. -/
def itemChars : List Json → List Char
  | [] => []
  | [j] => chars j
  | j :: k :: rest => chars j ++ ',' :: itemChars (k :: rest)

/-- The fields of a record, with commas between them. -/
def fieldChars : List (String × Json) → List Char
  | [] => []
  | [(name, j)] => quote name ++ ':' :: chars j
  | (name, j) :: f :: rest => quote name ++ ':' :: chars j ++ ',' :: fieldChars (f :: rest)

end

/-- The text of a value without blanks. -/
def compact (j : Json) : String := String.ofList j.chars

/-- A line break and two spaces for each level. -/
def lineBreak (level : Nat) : List Char := '\n' :: List.replicate (2 * level) ' '

mutual

/-- The text of a value that stands at a level, one item or field a line. -/
def prettyChars (level : Nat) : Json → List Char
  | list [] => ['[', ']']
  | list (j :: rest) =>
    '[' :: prettyItems (level + 1) (j :: rest) ++ lineBreak level ++ [']']
  | record [] => ['\x7b', '\x7d']
  | record (f :: rest) =>
    '\x7b' :: prettyFields (level + 1) (f :: rest) ++ lineBreak level ++ ['\x7d']
  | null => ['n', 'u', 'l', 'l']
  | flag true => ['t', 'r', 'u', 'e']
  | flag false => ['f', 'a', 'l', 's', 'e']
  | number digits => digits.toList
  | text value => quote value

/-- Items, each on a line of its own. -/
def prettyItems (level : Nat) : List Json → List Char
  | [] => []
  | [j] => lineBreak level ++ prettyChars level j
  | j :: k :: rest =>
    lineBreak level ++ prettyChars level j ++ ',' :: prettyItems level (k :: rest)

/-- Fields, each on a line of its own. -/
def prettyFields (level : Nat) : List (String × Json) → List Char
  | [] => []
  | [(name, j)] => lineBreak level ++ quote name ++ ':' :: ' ' :: prettyChars level j
  | (name, j) :: f :: rest =>
    lineBreak level ++ quote name ++ ':' :: ' ' :: prettyChars level j ++
      ',' :: prettyFields level (f :: rest)

end

/-- The text of a value with two spaces for each level. -/
def pretty (j : Json) : String := String.ofList (prettyChars 0 j)

end Json

end NestedLayout
