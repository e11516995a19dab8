/-!
# Coordinates

Every length, coordinate and angle of a layout is a *scalar*. `Scalar α` lists the operations that
the layout rules use, so that each rule is written once and has two readings: single precision
(`Float32`, what the program runs) and any other number type with these operations.

* **Comparisons decide.** `a < b` and `a ≤ b` are decidable, and a value that is no number fails
  both. Two scalars count as equal when each is at most the other (`Scalar.same`).
* **Bounds from one side** are `Scalar.max`, `Scalar.min`, and `Scalar.atLeast` for a fixed lower
  end; a value that is no number loses to a number.
* **Bounds from both sides** are `Scalar.clamp`, which asks for a proof that the range is not
  empty.
-/

set_option autoImplicit false

namespace NestedLayout

/-- The operations of a coordinate type. -/
class Scalar (α : Type) extends Add α, Sub α, Mul α, Div α, Neg α, LT α, LE α, OfScientific α where
  decLT : DecidableLT α
  decLE : DecidableLE α
  /-- The scalar nearest to a count. -/
  ofNat : Nat → α
  sqrt : α → α
  /-- `atan2 y x` is the angle of the vector `(x, y)` against the first axis, in `(-π, π]`. -/
  atan2 : α → α → α
  /-- The angle of a full turn, `2π`. -/
  fullTurn : α
  /-- The count of whole units in a scalar that is not negative. -/
  floorNat : α → Nat
  /-- The least count that is not below the scalar. -/
  ceilNat : α → Nat
  /-- The greatest whole number that is not above the scalar. -/
  floorInt : α → Int
  /-- A total order that agrees with `<` on numbers and also ranks the values that are none. -/
  compareTotal : α → α → Ordering
  /-- The value that a counter shows after counting that far: counters may wrap around. -/
  counter : Nat → Nat

attribute [reducible, instance] Scalar.decLT Scalar.decLE

namespace Scalar

variable {α : Type} [Scalar α]

/-- Equality as the comparisons see it: zeros of both signs agree, and a value that is no number
differs from everything. -/
def same (a b : α) : Bool := decide (a ≤ b) && decide (b ≤ a)

/-- The larger of two scalars: the second where they count as equal (a zero of either sign), and a
value that is no number loses to a number. -/
def max (a b : α) : α := if b < a then a else if b ≤ b then b else a

/-- The smaller of two scalars: the second where they count as equal (a zero of either sign), and a
value that is no number loses to a number. -/
def min (a b : α) : α := if a < b then a else if b ≤ b then b else a

/-- `x` raised to `lo` where it does not exceed it; also when `x` is no number. -/
def atLeast (x lo : α) : α := if lo < x then x else lo

/-- `x` lowered to `hi` where it is not below it; also when `x` is no number. -/
def atMost (x hi : α) : α := if x < hi then x else hi

/-- The point of the range `[lo, hi]` nearest to `x`. -/
def clamp (lo hi : α) (_ : lo ≤ hi) (x : α) : α := if x < lo then lo else if hi < x then hi else x

/-- The distance from zero. -/
def abs (a : α) : α := if a < 0.0 then -a else a

/-- The sum from left to right. The empty sum is the negative zero, the only start that leaves
every first term as it is. -/
def sum (xs : List α) : α := xs.foldl (· + ·) (-0.0)

/-- A quarter of a full turn. -/
def quarterTurn : α := fullTurn / 4.0

/-- Tolerance of containment checks and of the test for a size that vanishes. -/
def epsilon : α := 1e-5

end Scalar

end NestedLayout
