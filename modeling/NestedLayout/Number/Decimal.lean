/-!
# Decimal numbers

`Decimal` is an exact decimal number as it is written: a sign, digits and a power of ten. It rounds
to the nearest value of a binary format, and to an infinity or a zero beyond the range of the
format; the bounds on the exponent keep that cheap for any exponent that can be written.
-/

set_option autoImplicit false

namespace NestedLayout

/-- The number `± mantissa * 10 ^ exponent`. -/
structure Decimal where
  negative : Bool
  mantissa : Nat
  exponent : Int
deriving DecidableEq, Inhabited

namespace Decimal

/-- The value of a list of digits; other characters count as zero. -/
def ofDigits (digits : List Char) : Nat :=
  digits.foldl (fun n c => 10 * n + (if c.isDigit then c.toNat - '0'.toNat else 0)) 0

/-- The digits of a natural number. -/
def digits (n : Nat) : List Char := Nat.toDigits 10 n

/-- The least power of ten that exceeds the number, when it is not zero. -/
def magnitude (d : Decimal) : Int := d.exponent + (digits d.mantissa).length

/-- The nearest value in double precision. -/
def toDouble (d : Decimal) : Float :=
  let size : Float :=
    if d.mantissa = 0 then 0.0
    else if d.magnitude > 400 then 1.0 / 0.0
    else if d.magnitude < -400 then 0.0
    else OfScientific.ofScientific d.mantissa (d.exponent < 0) d.exponent.natAbs
  if d.negative then -size else size

/-- The nearest value in single precision. -/
def toSingle (d : Decimal) : Float32 :=
  let size : Float32 :=
    if d.mantissa = 0 then 0.0
    else if d.magnitude > 60 then 1.0 / 0.0
    else if d.magnitude < -60 then 0.0
    else OfScientific.ofScientific d.mantissa (d.exponent < 0) d.exponent.natAbs
  if d.negative then -size else size

/-- Whether the nearest value in double precision is finite. -/
def inDoubleRange (d : Decimal) : Bool := d.toDouble.isFinite

end Decimal

end NestedLayout
