import NestedLayout.Number.Decimal

/-!
# Numbers from text

A number is a sign, digits with at most one point among or around them, and an exponent;
`Decimal.ofText?` reads one as it is written, `Decimal.single?` rounds it to single precision.
`Decimal.coordinate?` also takes the words for the values that are no finite numbers.
-/

set_option autoImplicit false

namespace NestedLayout

namespace Decimal

/-- Takes a sign off the front of a text; whether it was a minus sign. -/
def takeSign : List Char → Bool × List Char
  | '-' :: rest => (true, rest)
  | '+' :: rest => (false, rest)
  | rest => (false, rest)

/-- The exponent of a number, which is zero when nothing is left of the text. -/
def exponentOf? : List Char → Option Int
  | [] => some 0
  | c :: rest =>
    if c = 'e' || c = 'E' then
      let (negative, digits) := takeSign rest
      if digits.isEmpty || !digits.all Char.isDigit then none
      else
        let n := Int.ofNat (ofDigits digits)
        some (if negative then -n else n)
    else none

/-- The number that a text stands for. -/
def ofText? (s : List Char) : Option Decimal :=
  let (negative, s) := takeSign s
  let whole := s.takeWhile Char.isDigit
  let rest := s.drop whole.length
  let (fraction, rest) := match rest with
    | '.' :: r =>
      let f := r.takeWhile Char.isDigit
      (f, r.drop f.length)
    | r => ([], r)
  if whole.isEmpty && fraction.isEmpty then none
  else (exponentOf? rest).map fun e =>
    ⟨negative, ofDigits (whole ++ fraction), e - Int.ofNat fraction.length⟩

/-- The nearest value in single precision to the number that a text stands for. -/
def single? (s : List Char) : Option Float32 := (ofText? s).map toSingle

/-- A coordinate: a number, or the word for an infinity or for no number, in letters of either
case. -/
def coordinate? (text : String) : Option Float32 :=
  let (negative, rest) := takeSign text.toList
  let word := String.ofList (rest.map Char.toLower)
  if word = "inf" || word = "infinity" then
    some (if negative then -1.0 / 0.0 else 1.0 / 0.0)
  else if word = "nan" then some (0.0 / 0.0)
  else single? text.toList

end Decimal

end NestedLayout
