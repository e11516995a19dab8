import NestedLayout.Json.Fault
import NestedLayout.Number.Decimal
import NestedLayout.Scalar.Binary32

/-!
# Numbers in JSON texts

`Json.scanNumber` scans a number into its parts, `NumberText`. Numbers are read by way of one
machine word, the *significand*:

* `NumberText.significand` takes the digits from the left as long as the number that they form fits
  the word (`takeDigits_lt`), and the power of ten that it is to be multiplied with.
* `NumberText.toDouble?` multiplies or divides once, each step in double precision; a number that
  grows beyond that range has no value.
* `NumberText.toSingle?` goes by way of double precision, but for whole numbers that fit a word.

So a number with many digits may be read as a neighbour of the value nearest to it.
-/

set_option autoImplicit false

namespace NestedLayout

namespace Json

/-- A number as it is written: a sign, the digits before and after the point, and the exponent. -/
structure NumberText where
  text : List Char
  negative : Bool
  digits : List Char
  fraction : List Char
  exponent : Option Int

namespace NumberText

/-- Whether there is neither a point nor an exponent. -/
def isWhole (n : NumberText) : Bool := n.fraction.isEmpty && n.exponent.isNone

/-- Puts digits behind a number as long as the result fits a word; the result, and the digits that
are left. -/
def takeDigits : Nat → List Char → Nat × List Char
  | n, [] => (n, [])
  | n, c :: rest =>
    let next := 10 * n + Decimal.ofDigits [c]
    if next < UInt64.size then takeDigits next rest else (n, c :: rest)

theorem takeDigits_lt {n : Nat} (h : n < UInt64.size) (digits : List Char) :
    (takeDigits n digits).1 < UInt64.size := by
  induction digits generalizing n with
  | nil => exact h
  | cons c rest ih =>
    rw [takeDigits]
    split
    · exact ih ‹_›
    · exact h

/-- The leading digits that fit a word, and the power of ten that goes with them. Digits before the
point that do not fit are counted, those after the point are dropped. -/
def significand (n : NumberText) : Nat × Int :=
  let (whole, lost) := takeDigits 0 n.digits
  let (all, dropped) := takeDigits whole n.fraction
  let places := n.fraction.length - dropped.length
  (all, n.exponent.getD 0 + Int.ofNat lost.length - Int.ofNat places)

/-- The double-precision value nearest to a power of ten. -/
def powerOfTen (n : Nat) : Float := OfScientific.ofScientific 1 false n

/-- Divides by a power of ten; one that is out of range is taken in parts, until nothing is left of
the number. -/
def divide (x : Float) (n : Nat) : Float :=
  if n ≤ 308 then x / powerOfTen n
  else if x == 0.0 then x
  else divide (x / powerOfTen 308) (n - 308)
termination_by n

/-- Multiplies by a power of ten, unless the result is out of range. -/
def multiply? (x : Float) (n : Nat) : Option Float :=
  if n ≤ 308 then
    let y := x * powerOfTen n
    if y.isFinite then some y else none
  else if x == 0.0 then some x
  else none

/-- The value in double precision, unless it is out of range. -/
def toDouble? (n : NumberText) : Option Float :=
  let (m, e) := n.significand
  let size :=
    if e < 0 then some (divide (Float.ofNat m) e.natAbs) else multiply? (Float.ofNat m) e.natAbs
  size.map fun x => if n.negative then -x else x

/-- The size of a whole number that fits a word, signed or unsigned, unless it is a negative
zero. -/
def word? (n : NumberText) : Option Nat :=
  let m := Decimal.ofDigits n.digits
  let fits := if n.negative then 0 < m ∧ m ≤ UInt64.size / 2 else m < UInt64.size
  if n.isWhole && decide fits then some m else none

/-- The value of a whole number that is not negative and fits a machine word. -/
def count? (n : NumberText) : Option Nat := if n.negative then none else n.word?

/-- The value in single precision, unless it is out of the range of double precision: the nearest
one for a whole number that fits a word, by way of double precision for others. -/
def toSingle? (n : NumberText) : Option Float32 :=
  match n.word? with
  | some m => some (Decimal.toSingle ⟨n.negative, m, 0⟩)
  | none => n.toDouble?.map Binary32.ofDouble

/-- Whether the number has a value in double precision. -/
def inRange (n : NumberText) : Bool := n.toDouble?.isSome

end NumberText

/-- A scanned part of a number: complete, with what follows it, or broken off. -/
inductive NumberScan where
  | complete (n : NumberText) (rest : List Char)
  | broken (read : Fault)

/-- The verdict of a reader where a digit is missing. -/
def missingDigit (rest : List Char) : Fault := if rest.isEmpty then .cutOff else .malformed

/-- The exponent of a number, after its mark; `n` is the number before the mark. -/
def scanExponent (n : NumberText) (mark : Char) (rest : List Char) : NumberScan :=
  let (sign, below, rest) := match rest with
    | '+' :: r => (['+'], false, r)
    | '-' :: r => (['-'], true, r)
    | r => ([], false, r)
  let exponent := rest.takeWhile Char.isDigit
  let after := rest.dropWhile Char.isDigit
  if exponent.isEmpty then .broken (missingDigit after)
  else
    let size := Int.ofNat (Decimal.ofDigits exponent)
    .complete { n with
      text := n.text ++ mark :: sign ++ exponent
      exponent := some (if below then -size else size) } after

/-- What may follow the digits of a number, which is an exponent. -/
def scanTail (n : NumberText) : List Char → NumberScan
  | 'e' :: rest => scanExponent n 'e' rest
  | 'E' :: rest => scanExponent n 'E' rest
  | rest => .complete n rest

/-- What may follow the digits before the point: a fraction, an exponent, or both. -/
def scanFraction (n : NumberText) : List Char → NumberScan
  | '.' :: rest =>
    let fraction := rest.takeWhile Char.isDigit
    let after := rest.dropWhile Char.isDigit
    if fraction.isEmpty then .broken (missingDigit after)
    else scanTail { n with text := n.text ++ '.' :: fraction, fraction := fraction } after
  | rest => scanTail n rest

/-- A number, whose sign has been read. Nothing may follow a leading zero but a point or an
exponent. -/
def scanNumber (negative : Bool) (rest : List Char) : NumberScan :=
  let digits := rest.takeWhile Char.isDigit
  let after := rest.dropWhile Char.isDigit
  let sign := if negative then ['-'] else []
  match digits with
  | [] => .broken (missingDigit after)
  | '0' :: _ :: _ => .broken .malformed
  | _ => scanFraction ⟨sign ++ digits, negative, digits, [], none⟩ after

/-- Reads a whole text as a number. -/
def NumberText.ofText? (text : String) : Option NumberText :=
  let scan := match text.toList with
    | '-' :: rest => scanNumber true rest
    | rest => scanNumber false rest
  match scan with
  | .complete n [] => some n
  | _ => none

end Json

end NestedLayout
