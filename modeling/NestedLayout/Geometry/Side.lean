import NestedLayout.Geometry.Rect

/-!
# Sides

The four sides of a box. Connectors around a hub take sides in the order of a clockwise turn that
starts in the east.
-/

set_option autoImplicit false

namespace NestedLayout

inductive Side where
  | north
  | east
  | south
  | west
deriving DecidableEq, Inhabited

namespace Side

variable {α : Type} [Scalar α]

/-- The place of a side in the clockwise turn from the east. -/
def turn : Side → Nat
  | east => 0
  | south => 1
  | west => 2
  | north => 3

/-- The side after `n` quarters of a clockwise turn from the east. -/
def ofTurn (n : Nat) : Side :=
  match n % 4 with
  | 0 => east
  | 1 => south
  | 2 => west
  | _ => north

/-- The side nearest to an angle: each side takes the eighth of a turn before and after it. -/
def ofAngle (angle : α) : Side :=
  let quarter : α := Scalar.quarterTurn
  let n := Scalar.floorInt ((angle + quarter / 2.0) / quarter)
  ofTurn (n % 4).toNat

/-- The unit vector that points out of the side. -/
def direction : Side → α × α
  | north => (0.0, -1.0)
  | east => (1.0, 0.0)
  | south => (0.0, 1.0)
  | west => (-1.0, 0.0)

/-- Whether a line leaves the side horizontally. -/
def isHorizontal : Side → Bool
  | east | west => true
  | north | south => false

/-- The midpoint of the side on a rectangle. -/
def pointOn (s : Side) (r : Rect α) : Point α :=
  let c := r.center
  match s with
  | north => ⟨c.x, r.top⟩
  | east => ⟨r.right, c.y⟩
  | south => ⟨c.x, r.bottom⟩
  | west => ⟨r.left, c.y⟩

/-- The side of a box at `p` that faces `q`, along the axis of the larger distance. -/
def facing (p q : Point α) : Side :=
  let dx := q.x - p.x
  let dy := q.y - p.y
  if Scalar.abs dy ≤ Scalar.abs dx then
    if 0.0 ≤ dx then east else west
  else if 0.0 < dy then south else north

theorem ofTurn_turn (s : Side) : ofTurn s.turn = s := by cases s <;> rfl

end Side

end NestedLayout
