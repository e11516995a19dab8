import NestedLayout.Json.Number

/-!
# Tokens of JSON texts

`Json.tokens` cuts a text into tokens. It never fails: where the text goes wrong inside a token,
that token is the last one and says what is wrong, so that a reader which gets there reports it and
a reader which stops before does not.

Reading a value and passing over it are not equally strict: surrogates are only paired in strings
that are read, and a number that breaks off is the end of the text for a reader, but ill-formed for
one who passes over it. A broken token therefore holds both verdicts.
-/

set_option autoImplicit false

namespace NestedLayout

namespace Json

/-! ## Strings -/

/-- A piece of a string: a character, or a code unit given by its number. -/
inductive Piece where
  | char (c : Char)
  | unit (n : Nat)

/-- Whether a code unit opens a surrogate pair. -/
def isLead (n : Nat) : Bool := decide (0xD800 ≤ n) && decide (n ≤ 0xDBFF)

/-- Whether a code unit closes a surrogate pair. -/
def isTrail (n : Nat) : Bool := decide (0xDC00 ≤ n) && decide (n ≤ 0xDFFF)

/-- The character of a surrogate pair. -/
def pairChar (lead trail : Nat) : Char :=
  Char.ofNat (0x10000 + (lead - 0xD800) * 0x400 + (trail - 0xDC00))

/-- The characters that the pieces stand for, with surrogate pairs joined by `join`. A surrogate
without its partner is ill-formed; when the string is not closed, a partner may still be to come. -/
def joinPieces (join : Nat → Nat → Char) (closed : Bool) : List Piece → Except Fault (List Char)
  | [] => .ok []
  | .char c :: rest => (joinPieces join closed rest).map (c :: ·)
  | .unit n :: rest =>
    if isTrail n then .error .malformed
    else if isLead n then
      match rest with
      | .unit m :: rest' =>
        if isTrail m then (joinPieces join closed rest').map (join n m :: ·) else .error .malformed
      | [] => if closed then .error .malformed else .ok []
      | .char _ :: _ => .error .malformed
    else (joinPieces join closed rest).map (Char.ofNat n :: ·)

/-- The value of a hexadecimal digit. -/
def hexValue? (c : Char) : Option Nat :=
  if c.isDigit then some (c.toNat - 48)
  else if 'a' ≤ c ∧ c ≤ 'f' then some (c.toNat - 87)
  else if 'A' ≤ c ∧ c ≤ 'F' then some (c.toNat - 55)
  else none

/-- The value of four hexadecimal digits. -/
def hexValue4? (a b c d : Char) : Option Nat := do
  let a ← hexValue? a
  let b ← hexValue? b
  let c ← hexValue? c
  let d ← hexValue? d
  return ((a * 16 + b) * 16 + c) * 16 + d

/-- The character of an escape of one letter. -/
def unescape? : Char → Option Char
  | '"' => some '"'
  | '\\' => some '\\'
  | '/' => some '/'
  | 'b' => some '\x08'
  | 'f' => some '\x0c'
  | 'n' => some '\n'
  | 'r' => some '\r'
  | 't' => some '\t'
  | _ => none

/-- A scanned string: closed, with what follows it, or broken off. -/
inductive TextScan where
  | closed (pieces : List Piece) (rest : List Char)
  | broken (pieces : List Piece) (fault : Fault)

/-- Puts a piece in front. -/
def TextScan.cons (p : Piece) : TextScan → TextScan
  | .closed pieces rest => .closed (p :: pieces) rest
  | .broken pieces fault => .broken (p :: pieces) fault

/-- The verdict where four hexadecimal digits are missing: the text ends when fewer than four bytes
are left. -/
def missingHex (rest : List Char) : Fault :=
  if rest.foldl (fun n c => n + c.utf8Size) 0 < 4 then .cutOff else .malformed

/-- The rest of a string, whose opening quote has been read. -/
def scanText : List Char → TextScan
  | [] => .broken [] .cutOff
  | '"' :: rest => .closed [] rest
  | '\\' :: 'u' :: a :: b :: c :: d :: rest =>
    match hexValue4? a b c d with
    | some n => (scanText rest).cons (.unit n)
    | none => .broken [] (missingHex (a :: b :: c :: d :: rest))
  | '\\' :: 'u' :: rest => .broken [] (missingHex rest)
  | ['\\'] => .broken [] .cutOff
  | '\\' :: e :: rest =>
    match unescape? e with
    | some c => (scanText rest).cons (.char c)
    | none => .broken [] .malformed
  | c :: rest => if c.toNat < 32 then .broken [] .malformed else (scanText rest).cons (.char c)

/-! ## Tokens -/

inductive Token where
  | openList
  | closeList
  | openRecord
  | closeRecord
  | comma
  | colon
  /-- A string; its content is only asked for when it is read. -/
  | text (content : Except Fault String)
  | number (n : NumberText)
  | null
  | flag (value : Bool)
  /-- A string that is not closed, or whose escapes are ill-formed. -/
  | brokenText (read skipped : Fault)
  /-- A number that breaks off; passing over it finds it ill-formed. -/
  | brokenNumber (read : Fault)
  /-- A word that starts like `null`, and is not. -/
  | brokenNull (fault : Fault)
  /-- A word that starts like one of the two flags, and is not. -/
  | brokenWord (fault : Fault)
  /-- A character that starts no token. -/
  | stray

/-- Blanks between tokens. -/
def isGap (c : Char) : Bool := c = ' ' || c = '\t' || c = '\n' || c = '\r'

/-- What is left of the text after a word, or what is wrong with it. -/
def scanWord : List Char → List Char → Except Fault (List Char)
  | [], rest => .ok rest
  | _ :: _, [] => .error .cutOff
  | w :: word, c :: rest => if w = c then scanWord word rest else .error .malformed

/-- The tokens of a text, for a text that is not longer than the first argument. -/
def tokensWithin : Nat → List Char → List Token
  | 0, _ => []
  | _, [] => []
  | n + 1, c :: rest =>
    let word (letters : List Char) (t : Token) (broken : Fault → Token) : List Token :=
      match scanWord letters rest with
      | .ok rest => t :: tokensWithin n rest
      | .error f => [broken f]
    let number (scan : NumberScan) : List Token :=
      match scan with
      | .complete m rest => .number m :: tokensWithin n rest
      | .broken f => [.brokenNumber f]
    match c with
    | '[' => .openList :: tokensWithin n rest
    | ']' => .closeList :: tokensWithin n rest
    | '\x7b' => .openRecord :: tokensWithin n rest
    | '\x7d' => .closeRecord :: tokensWithin n rest
    | ',' => .comma :: tokensWithin n rest
    | ':' => .colon :: tokensWithin n rest
    | '"' => match scanText rest with
      | .closed pieces rest =>
        .text ((joinPieces pairChar true pieces).map String.ofList) :: tokensWithin n rest
      | .broken pieces fault => match joinPieces pairChar false pieces with
        | .ok _ => [.brokenText fault fault]
        | .error f => [.brokenText f fault]
    | 'n' => word ['u', 'l', 'l'] .null .brokenNull
    | 't' => word ['r', 'u', 'e'] (.flag true) .brokenWord
    | 'f' => word ['a', 'l', 's', 'e'] (.flag false) .brokenWord
    | '-' => number (scanNumber true rest)
    | c =>
      if isGap c then tokensWithin n rest
      else if c.isDigit then number (scanNumber false (c :: rest))
      else [.stray]

/-- The tokens of a text. -/
def tokens (text : List Char) : List Token := tokensWithin text.length text

end Json

end NestedLayout
