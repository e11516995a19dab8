import NestedLayout.Number.Decimal

/-!
# Shortest digits

The fewest decimal digits that read back as the same single-precision value, and of those the
nearest to it. A value is taken apart into `m * 2 ^ q`; the reals that round to it form an
interval, whose ends belong to it when `m` is even. Grids of powers of ten are tried from coarse
to fine: on each, only the two neighbours of the value can be the answer.
-/

set_option autoImplicit false

namespace NestedLayout

/-- A positive value `mantissa * 2 ^ exponent` of a binary format. `narrow` holds when the next
smaller value is only half as far away as the next larger one. -/
structure BinaryValue where
  mantissa : Nat
  exponent : Int
  narrow : Bool

namespace BinaryValue

/-- The size of a finite single-precision value. -/
def ofSingle (x : Float32) : BinaryValue :=
  let bits := x.toBits.toNat
  let implicit := Nat.pow 2 23
  let biased := bits / implicit % UInt8.size
  let fraction := bits % implicit
  if biased = 0 then ⟨fraction, -149, false⟩
  else ⟨fraction + implicit, Int.ofNat biased - 150, fraction = 0 && decide (1 < biased)⟩

/-- Factors `a` and `b` with `x * 2 ^ p` and `d * 10 ^ e` in the same proportion as `x * a` and
`d * b`. -/
def scales (p e : Int) : Nat × Nat :=
  (Nat.pow 2 p.toNat * Nat.pow 10 (-e).toNat, Nat.pow 10 e.toNat * Nat.pow 2 (-p).toNat)

/-- The multiple of `10 ^ e` that rounds to the value, the nearer one if there are two. -/
def onGrid? (v : BinaryValue) (e : Int) : Option Nat :=
  let (a, b) := scales (v.exponent - 2) e
  let value := 4 * v.mantissa * a
  let low := (4 * v.mantissa - (if v.narrow then 1 else 2)) * a
  let high := (4 * v.mantissa + 2) * a
  let inside (d : Nat) : Bool :=
    if v.mantissa % 2 = 0 then decide (low ≤ d * b) && decide (d * b ≤ high)
    else decide (low < d * b) && decide (d * b < high)
  let d := value / b
  match inside d, inside (d + 1) with
  | true, true =>
    let below := value - d * b
    let above := (d + 1) * b - value
    if below < above || (below = above && d % 2 = 0) then some d else some (d + 1)
  | true, false => some d
  | false, true => some (d + 1)
  | false, false => none

/-- The first grid with an answer, from `10 ^ e` downwards. -/
def search (v : BinaryValue) : Nat → Int → Nat × Int
  | 0, e => (0, e)
  | n + 1, e => match v.onGrid? e with
    | some d => (d, e)
    | none => v.search n (e - 1)

/-- Takes the trailing zeros out of `d`, which stands for `d * 10 ^ e`. -/
def strip : Nat → Nat → Int → Nat × Int
  | 0, d, e => (d, e)
  | n + 1, d, e => if d ≠ 0 ∧ d % 10 = 0 then strip n (d / 10) (e + 1) else (d, e)

/-- The shortest digits of a positive value, with the power of ten of the last one. A value below
`2 ^ t` is below the power of ten where the search starts. -/
def shortest (v : BinaryValue) : Nat × Int :=
  let t := Int.ofNat (v.mantissa.log2 + 1) + v.exponent
  let found := v.search 60 (t * 30103 / 100000 + 1)
  strip 60 found.1 found.2

/-- The nearest multiple of `10 ^ (-places)` to the value, as a count of them; a tie goes to the
even neighbour. -/
def roundToPlaces (v : BinaryValue) (places : Nat) : Nat :=
  let num := v.mantissa * Nat.pow 10 places * Nat.pow 2 v.exponent.toNat
  let den := Nat.pow 2 (-v.exponent).toNat
  let n := num / den
  let rest := num % den
  if den < 2 * rest || (den = 2 * rest && n % 2 = 1) then n + 1 else n

end BinaryValue

end NestedLayout
