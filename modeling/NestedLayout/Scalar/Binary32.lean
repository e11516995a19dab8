import NestedLayout.Scalar

/-!
# Single precision

`Float32` as a scalar type: the layout that the program computes. Each operation rounds once. The
conversions to counts are written with the conversions to words, which cut off toward zero and stop
at the ends of the word; the total order compares bit patterns.
-/

set_option autoImplicit false

namespace NestedLayout

namespace Binary32

/-- Number of values of a machine word, where counters wrap around. -/
def wordSize : Nat := UInt64.size

open Float.Model (UnpackedFloat) in
/-- The value nearest to one in double precision: a finite one is rounded once, and an infinity
where it is out of range. -/
def ofDouble (x : Float) : Float32 :=
  let narrowed : UnpackedFloat := match x.toModel.unpack with
    | .finite sign significand exponent _ => .round .binary32 sign significand exponent
    | form => form
  .ofModel (.pack narrowed)

/-- The least count that is not below `x`, cut off at the ends of the word. -/
def ceilNat (x : Float32) : Nat :=
  let n := x.toUInt64.toNat
  if Float32.ofNat n < x then Nat.min (n + 1) (wordSize - 1) else n

/-- The greatest whole number that is not above `x`, cut off at the ends of a signed word. -/
def floorInt (x : Float32) : Int :=
  if 0.0 ≤ x then
    Int.ofNat (Nat.min x.toUInt64.toNat (wordSize / 2 - 1))
  else
    let n := (-x).toUInt64.toNat
    let up := if Float32.ofNat n < -x then n + 1 else n
    Int.negOfNat (Nat.min up (wordSize / 2))

/-- Position of a bit pattern in the total order: patterns with the sign bit descend. -/
def rank (x : Float32) : Int :=
  let bits := x.toBits.toNat
  let half := UInt32.size / 2
  if bits < half then Int.ofNat bits else Int.negSucc (bits - half)

end Binary32

instance : Scalar Float32 where
  decLT := inferInstance
  decLE := inferInstance
  ofNat := Float32.ofNat
  sqrt := Float32.sqrt
  atan2 := Float32.atan2
  fullTurn := 6.28318530717958647692
  floorNat x := x.toUInt64.toNat
  ceilNat := Binary32.ceilNat
  floorInt := Binary32.floorInt
  compareTotal a b := compare (Binary32.rank a) (Binary32.rank b)
  counter n := n % Binary32.wordSize

end NestedLayout
