import NestedLayout.Number.Shortest

/-!
# The text of a coordinate

* `NumberStyle.text`: the shortest digits, positional or with an exponent as the style says.
* `fixedText`: a fixed number of places, with the exact value rounded half to even.
-/

set_option autoImplicit false

namespace NestedLayout

/-- How a number is laid out: the powers of ten of the first digit that are written positionally. -/
structure NumberStyle where
  leastPositional : Int
  greatestPositional : Int

namespace NumberStyle

/-- Digits with a point after the first `n` of them, and at least one digit on each side. -/
def withPoint (digits : List Char) (n : Nat) : List Char :=
  let padded := digits ++ List.replicate (n - digits.length) '0'
  let rest := padded.drop n
  padded.take n ++ '.' :: (if rest.isEmpty then ['0'] else rest)

/-- The digits of `d * 10 ^ e` with a point, or with an exponent when the first digit stands
outside of the positional range. -/
def layOut (style : NumberStyle) (d : Nat) (e : Int) : List Char :=
  let digits := Decimal.digits d
  let k := e + Int.ofNat digits.length - 1
  if style.leastPositional ≤ k ∧ k ≤ style.greatestPositional then
    if k < 0 then
      '0' :: '.' :: List.replicate (-k - 1).toNat '0' ++ digits
    else
      withPoint digits (k + 1).toNat
  else
    let mark := if k < 0 then '-' else '+'
    let rest := digits.drop 1
    digits.take 1 ++ (if rest.isEmpty then [] else '.' :: rest) ++
      'e' :: mark :: Decimal.digits k.natAbs

/-- The text of a finite value: its shortest digits, laid out in this style. -/
def text (style : NumberStyle) (x : Float32) : String :=
  let v := BinaryValue.ofSingle x
  let size :=
    if v.mantissa = 0 then ['0', '.', '0']
    else
      let s := v.shortest
      style.layOut s.1 s.2
  String.ofList (if x.toBits.toNat < UInt32.size / 2 then size else '-' :: size)

end NumberStyle

/-- The text of a value with a fixed number of places after the point. -/
def fixedText (x : Float32) (places : Nat) : String :=
  let mark := if x.toBits.toNat < UInt32.size / 2 then [] else ['-']
  if x.isNaN then "NaN"
  else if x.isInf then String.ofList (mark ++ ['i', 'n', 'f'])
  else
    let n := (BinaryValue.ofSingle x).roundToPlaces places
    let digits := Decimal.digits n
    let padded := List.replicate (places + 1 - digits.length) '0' ++ digits
    let whole := padded.length - places
    String.ofList (mark ++ padded.take whole ++ '.' :: padded.drop whole)

end NestedLayout
