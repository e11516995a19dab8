import NestedLayout.Json.Token
import NestedLayout.Text.Name

/-!
# JSON5 texts

JSON5 is JSON for people: comments, names without quotes, strings in either kind of quotes, commas
after the last item, and numbers in more forms. `Json5.ofText?` reads a whole text as a tree, or
finds it ill-formed. A string with an unpaired surrogate and a number out of range are part of the
tree; they only matter to a reader that comes across them.
-/

set_option autoImplicit false

namespace NestedLayout

/-- A number in JSON5: an optional sign before one of four forms. -/
inductive Json5.Form where
  | hex (value : Nat)
  /-- `whole` when there is neither a point nor an exponent. -/
  | decimal (value : Decimal) (whole : Bool)
  | infinity
  | nan

inductive Json5 where
  | null
  | flag (value : Bool)
  | number (sign : Option Char) (form : Json5.Form)
  /-- A string; there is no content when a surrogate stands alone. -/
  | text (content : Option String)
  | list (items : List Json5)
  | record (fields : List (Option String × Json5))
deriving Inhabited

namespace Json5

open Json (Piece)

/-! ## Between values -/

def isLineEnd (c : Char) : Bool := c = '\n' || c = '\r' || c = '\u2028' || c = '\u2029'

/-- Blanks between tokens: white space and the byte order mark. -/
def isGap (c : Char) : Bool := (Text.isBlank c && c ≠ '\u0085') || c = '\ufeff'

/-- What follows the end of a comment, if it ends. -/
def afterComment? : List Char → Option (List Char)
  | [] => none
  | '*' :: '/' :: rest => some rest
  | _ :: rest => afterComment? rest

/-- Passes over blanks and comments; a comment that does not end stays. -/
def skipGapsWithin : Nat → List Char → List Char
  | 0, s => s
  | _, [] => []
  | n + 1, c :: rest =>
    if isGap c then skipGapsWithin n rest
    else match c, rest with
      | '/', '/' :: r => skipGapsWithin n (r.dropWhile fun d => !isLineEnd d)
      | '/', '*' :: r => match afterComment? r with
        | some r => skipGapsWithin n r
        | none => c :: rest
      | _, _ => c :: rest

def skipGaps (s : List Char) : List Char := skipGapsWithin s.length s

/-! ## Numbers -/

/-- The exponent at the front of a text, if there is one. -/
def exponent (s : List Char) : Option Int × List Char :=
  let digits (below : Bool) (r : List Char) : Option Int × List Char :=
    let ds := r.takeWhile Char.isDigit
    if ds.isEmpty then (none, s)
    else
      let size := Int.ofNat (Decimal.ofDigits ds)
      (some (if below then -size else size), r.dropWhile Char.isDigit)
  let signed (r : List Char) : Option Int × List Char :=
    match r with
    | '+' :: r => digits false r
    | '-' :: r => digits true r
    | r => digits false r
  match s with
  | 'e' :: r => signed r
  | 'E' :: r => signed r
  | _ => (none, s)

/-- A decimal number from its digits before and after the point, with what follows them. -/
def decimal (negative : Bool) (whole : List Char) (fraction : Option (List Char))
    (rest : List Char) : Form × List Char :=
  let digits := whole ++ fraction.getD []
  let scale := Int.ofNat (fraction.getD []).length
  let (e, rest) := exponent rest
  (.decimal ⟨negative, Decimal.ofDigits digits, e.getD 0 - scale⟩ (fraction.isNone && e.isNone),
    rest)

/-- A number without its sign. -/
def form? (negative : Bool) (s : List Char) : Option (Form × List Char) :=
  let hex (r : List Char) : Option (Form × List Char) :=
    let ds := r.takeWhile fun c => (Json.hexValue? c).isSome
    if ds.isEmpty then none
    else
      let value := ds.foldl (fun n c => 16 * n + (Json.hexValue? c).getD 0) 0
      some (.hex value, r.drop ds.length)
  let plain (_ : Unit) : Option (Form × List Char) :=
    let whole := match s with
      | '0' :: _ => ['0']
      | _ => s.takeWhile Char.isDigit
    let rest := s.drop whole.length
    if whole.isEmpty then
      match rest with
      | '.' :: r =>
        let fraction := r.takeWhile Char.isDigit
        if fraction.isEmpty then none
        else some (decimal negative [] (some fraction) (r.drop fraction.length))
      | _ => none
    else
      match rest with
      | '.' :: r =>
        let fraction := r.takeWhile Char.isDigit
        some (decimal negative whole (some fraction) (r.drop fraction.length))
      | r => some (decimal negative whole none r)
  match s with
  | '0' :: 'x' :: r => (hex r).or (plain ())
  | '0' :: 'X' :: r => (hex r).or (plain ())
  | 'I' :: 'n' :: 'f' :: 'i' :: 'n' :: 'i' :: 't' :: 'y' :: r => some (.infinity, r)
  | 'N' :: 'a' :: 'N' :: r => some (.nan, r)
  | _ => plain ()

/-- A number at the front of a text. -/
def number? (s : List Char) : Option (Json5 × List Char) :=
  match s with
  | '+' :: r => (form? false r).map fun f => (.number (some '+') f.1, f.2)
  | '-' :: r => (form? true r).map fun f => (.number (some '-') f.1, f.2)
  | r => (form? false r).map fun f => (.number none f.1, f.2)

/-! ## Strings and names -/

/-- The character of an escape of one letter: most characters stand for themselves. -/
def unescape? : Char → Option Char
  | 'b' => some '\x08'
  | 'f' => some '\x0c'
  | 'n' => some '\n'
  | 'r' => some '\r'
  | 't' => some '\t'
  | 'v' => some '\x0b'
  | '0' => some '\x00'
  | c => if c.isDigit || c = 'x' || c = 'u' then none else some c

/-- The pieces of a string up to its closing quote, and what follows. -/
def stringPieces (closing : Char) : List Char → Option (List Piece × List Char)
  | [] => none
  | '\\' :: '\r' :: '\n' :: rest => stringPieces closing rest
  | '\\' :: 'x' :: a :: b :: rest => do
    let a ← Json.hexValue? a
    let b ← Json.hexValue? b
    let (pieces, rest) ← stringPieces closing rest
    return (.char (Char.ofNat (16 * a + b)) :: pieces, rest)
  | '\\' :: 'u' :: a :: b :: c :: d :: rest => do
    let n ← Json.hexValue4? a b c d
    let (pieces, rest) ← stringPieces closing rest
    return (.unit n :: pieces, rest)
  | '\\' :: e :: rest =>
    if isLineEnd e then stringPieces closing rest
    else do
      let c ← unescape? e
      let (pieces, rest) ← stringPieces closing rest
      return (.char c :: pieces, rest)
  | c :: rest =>
    if c = closing then some ([], rest)
    else if c = '\\' || isLineEnd c then none
    else do
      let (pieces, rest) ← stringPieces closing rest
      return (.char c :: pieces, rest)

/-- The pieces of a name without quotes, and what follows it. -/
def namePieces (isPart : Char → Bool) : List Char → List Piece × List Char
  | '\\' :: 'u' :: a :: b :: c :: d :: rest =>
    match Json.hexValue4? a b c d with
    | some n =>
      let (pieces, rest) := namePieces Text.continuesName rest
      (.unit n :: pieces, rest)
    | none => ([], '\\' :: 'u' :: a :: b :: c :: d :: rest)
  | c :: rest =>
    if isPart c then
      let (pieces, rest) := namePieces Text.continuesName rest
      (.char c :: pieces, rest)
    else ([], c :: rest)
  | [] => ([], [])

/-- The character of a surrogate pair. The offsets of both in their ranges are put side by side, and
the bit of the first supplementary plane is set in the result, whether or not it is set already: so
only the planes of odd number come from pairs. -/
def pairChar (lead trail : Nat) : Char :=
  Char.ofNat (((lead - 0xD800) * 0x400 + (trail - 0xDC00)) ||| 0x10000)

/-- The content of a string, unless a surrogate in it stands alone. -/
def content? (pieces : List Piece) : Option String :=
  match Json.joinPieces pairChar true pieces with
  | .ok s => some (String.ofList s)
  | .error _ => none

/-- A quoted string at the front of a text. -/
def string? (s : List Char) : Option (Option String × List Char) :=
  match s with
  | '"' :: r => (stringPieces '"' r).map fun p => (content? p.1, p.2)
  | '\'' :: r => (stringPieces '\'' r).map fun p => (content? p.1, p.2)
  | _ => none

/-- The name of a field at the front of a text. -/
def name? (s : List Char) : Option (Option String × List Char) :=
  let (pieces, rest) := namePieces Text.startsName s
  if pieces.isEmpty then string? s else some (content? pieces, rest)

/-! ## Values -/

mutual

/-- A value at the front of a text; the first argument bounds the depth and the number of items. -/
def value? : Nat → List Char → Option (Json5 × List Char)
  | 0, _ => none
  | n + 1, s =>
    match s with
    | 'n' :: 'u' :: 'l' :: 'l' :: r => some (.null, r)
    | 't' :: 'r' :: 'u' :: 'e' :: r => some (.flag true, r)
    | 'f' :: 'a' :: 'l' :: 's' :: 'e' :: r => some (.flag false, r)
    | '[' :: r => match skipGaps r with
      | ']' :: r => some (.list [], r)
      | r => (items? n r).map fun p => (.list p.1, p.2)
    | '\x7b' :: r => match skipGaps r with
      | '\x7d' :: r => some (.record [], r)
      | r => (fields? n r).map fun p => (.record p.1, p.2)
    | '"' :: _ | '\'' :: _ => (string? s).map fun p => (.text p.1, p.2)
    | _ => number? s

/-- The items of a list up to its bracket; a comma may stand before the bracket. -/
def items? : Nat → List Char → Option (List Json5 × List Char)
  | 0, _ => none
  | n + 1, s => do
    let (v, r) ← value? n s
    match skipGaps r with
    | ']' :: r => return ([v], r)
    | ',' :: r => match skipGaps r with
      | ']' :: r => return ([v], r)
      | r =>
        let (vs, r) ← items? n r
        return (v :: vs, r)
    | _ => none

/-- The fields of a record up to its bracket; a comma may stand before the bracket. -/
def fields? : Nat → List Char → Option (List (Option String × Json5) × List Char)
  | 0, _ => none
  | n + 1, s => do
    let (name, r) ← name? s
    match skipGaps r with
    | ':' :: r =>
      let (v, r) ← value? n (skipGaps r)
      match skipGaps r with
      | '\x7d' :: r => return ([(name, v)], r)
      | ',' :: r => match skipGaps r with
        | '\x7d' :: r => return ([(name, v)], r)
        | r =>
          let (fs, r) ← fields? n r
          return ((name, v) :: fs, r)
      | _ => none
    | _ => none

end

/-- Reads a whole text. -/
def ofText? (text : String) : Option Json5 :=
  let s := text.toList
  match value? (s.length + 1) (skipGaps s) with
  | some (v, r) => if (skipGaps r).isEmpty then some v else none
  | none => none

end Json5

end NestedLayout
