import NestedLayout.Scalar

/-!
# Points

A position in the plane. The second coordinate grows downwards, so an angle that grows turns
clockwise as seen on the screen.
-/

set_option autoImplicit false

namespace NestedLayout

structure Point (α : Type) where
  x : α
  y : α
deriving Inhabited

namespace Point

open Scalar (epsilon)

variable {α : Type} [Scalar α]

def distance (p q : Point α) : α :=
  let dx := q.x - p.x
  let dy := q.y - p.y
  Scalar.sqrt (dx * dx + dy * dy)

/-- The angle at which `q` is seen from `p`, in `[0, 2π)`: east is zero, south a quarter turn. -/
def angleTo (p q : Point α) : α :=
  let angle := Scalar.atan2 (q.y - p.y) (q.x - p.x)
  if angle < 0.0 then angle + Scalar.fullTurn else angle

/-- Whether two points agree within the tolerance on both axes. -/
def near (p q : Point α) : Bool :=
  decide (Scalar.abs (p.x - q.x) ≤ epsilon) && decide (Scalar.abs (p.y - q.y) ≤ epsilon)

def translate (p : Point α) (dx dy : α) : Point α := ⟨p.x + dx, p.y + dy⟩

/-- The center of the unit square. -/
def middle : Point α := ⟨0.5, 0.5⟩

end Point

end NestedLayout
