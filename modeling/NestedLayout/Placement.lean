import NestedLayout.Geometry.Rect
import NestedLayout.Table

/-!
# Placements

Where the elements of a diagram stand.
-/

set_option autoImplicit false

namespace NestedLayout

/-- The place of an element. -/
structure Placement (α : Type) where
  /-- Body and clearance, which have to stay inside the container. -/
  footprint : Rect α
  body : Rect α
  /-- Whether no free place was found for it. -/
  fallback : Bool
deriving Inhabited

abbrev Placements (α : Type) := IdTable (Placement α)

namespace Placement

variable {α : Type} [Scalar α]

def translate (p : Placement α) (dx dy : α) : Placement α :=
  { p with footprint := p.footprint.translate dx dy, body := p.body.translate dx dy }

/-- The body of an element; one that was not placed is a point in the middle of the unit square. -/
def bodyOf (placements : Placements α) (id : String) : Rect α :=
  match placements.get? id with
  | some p => p.body
  | none => .fromCenter .middle 0.0 0.0

/-- The center of the body of an element. -/
def centerOf (placements : Placements α) (id : String) : Point α := (bodyOf placements id).center

end Placement

end NestedLayout
