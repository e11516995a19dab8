import NestedLayout.Geometry.Point

/-!
# Rectangles

Axis-aligned rectangles, the boxes of containers and elements. Nothing forces `left ≤ right` or
`top ≤ bottom`: a rectangle may be inverted, and the operations below say what happens then.

* **Tests.** `intersects` is strict, so boxes that share an edge are apart; `contains` and
  `onBoundary` allow for the tolerance.
* **Repairs.** `clampWithin` moves a rectangle by the least shift that puts it inside another one;
  `deflate` shrinks a rectangle and collapses to its center when there is not enough room.
-/

set_option autoImplicit false

namespace NestedLayout

/-- A stretch of an axis. -/
structure Span (α : Type) where
  low : α
  high : α

structure Rect (α : Type) where
  left : α
  top : α
  right : α
  bottom : α
deriving Inhabited

namespace Rect

open Scalar (epsilon same)

variable {α : Type} [Scalar α]

/-! ## Rectangles from other data -/

/-- The unit square, in which every layout is computed. -/
def unit : Rect α := ⟨0.0, 0.0, 1.0, 1.0⟩

/-- The rectangle around a center; sides below zero count as zero. -/
def fromCenter (center : Point α) (width height : α) : Rect α :=
  let hw := Scalar.atLeast width 0.0 / 2.0
  let hh := Scalar.atLeast height 0.0 / 2.0
  ⟨center.x - hw, center.y - hh, center.x + hw, center.y + hh⟩

/-- The smallest rectangle that holds all points; there is none for no points. -/
def ofPoints? : List (Point α) → Option (Rect α)
  | [] => none
  | p :: rest => some <| rest.foldl
      (fun r q => ⟨Scalar.min r.left q.x, Scalar.min r.top q.y,
        Scalar.max r.right q.x, Scalar.max r.bottom q.y⟩)
      ⟨p.x, p.y, p.x, p.y⟩

/-! ## Measures -/

def width (r : Rect α) : α := r.right - r.left

def height (r : Rect α) : α := r.bottom - r.top

/-- The area; an inverted side counts as zero. -/
def area (r : Rect α) : α := Scalar.atLeast r.width 0.0 * Scalar.atLeast r.height 0.0

def center (r : Rect α) : Point α := ⟨(r.left + r.right) / 2.0, (r.top + r.bottom) / 2.0⟩

/-- Whether a side is too short to count. -/
def isDegenerate (r : Rect α) : Bool :=
  decide (r.width ≤ epsilon) || decide (r.height ≤ epsilon)

/-- Whether all four sides agree. -/
def sameAs (r s : Rect α) : Bool :=
  same r.left s.left && same r.top s.top && same r.right s.right && same r.bottom s.bottom

/-! ## Changes -/

/-- Moves every side inwards, by `dx` across and `dy` up and down. Without room for that the
rectangle collapses to its center. -/
def deflate (r : Rect α) (dx dy : α) : Rect α :=
  if r.width < dx * 2.0 ∨ r.height < dy * 2.0 then
    let c := r.center
    ⟨c.x, c.y, c.x, c.y⟩
  else
    ⟨r.left + dx, r.top + dy, r.right - dx, r.bottom - dy⟩

/-- Moves every side outwards, by `dx` across and `dy` up and down. -/
def inflate (r : Rect α) (dx dy : α) : Rect α :=
  ⟨r.left - dx, r.top - dy, r.right + dx, r.bottom + dy⟩

def translate (r : Rect α) (dx dy : α) : Rect α :=
  ⟨r.left + dx, r.top + dy, r.right + dx, r.bottom + dy⟩

/-- Scales the sides by factors and keeps the center. -/
def scaleAboutCenter (r : Rect α) (fx fy : α) : Rect α :=
  fromCenter r.center (r.width * fx) (r.height * fy)

/-- The smallest rectangle that holds both. -/
def union (r s : Rect α) : Rect α :=
  ⟨Scalar.min r.left s.left, Scalar.min r.top s.top,
    Scalar.max r.right s.right, Scalar.max r.bottom s.bottom⟩

/-- The smallest rectangle that holds all of a list; there is none for the empty list. -/
def unionAll? : List (Rect α) → Option (Rect α)
  | [] => none
  | r :: rest => some (rest.foldl union r)

/-- How far to move the span from `lo` to `hi` so that it lies between `outerLo` and `outerHi`. A
span that is at least as long as the outer one is centered on it instead. -/
def clampShift (lo hi outerLo outerHi : α) : α :=
  if outerHi - outerLo ≤ hi - lo then (outerLo + outerHi) / 2.0 - (lo + hi) / 2.0
  else if lo < outerLo then outerLo - lo
  else if outerHi < hi then outerHi - hi
  else 0.0

/-- Moves `r` by the smallest shift that puts it inside `outer`; on an axis where it is too large
the centers are made to agree. -/
def clampWithin (r outer : Rect α) : Rect α :=
  r.translate (clampShift r.left r.right outer.left outer.right)
    (clampShift r.top r.bottom outer.top outer.bottom)

/-! ## Tests -/

/-- Whether the interiors meet: rectangles that only share an edge do not intersect. -/
def intersects (r s : Rect α) : Bool :=
  decide (r.left < s.right) && decide (s.left < r.right) &&
    decide (r.top < s.bottom) && decide (s.top < r.bottom)

/-- Whether `s` lies inside `r`, within the tolerance. -/
def contains (r s : Rect α) : Bool :=
  decide (r.left - epsilon ≤ s.left) && decide (r.top - epsilon ≤ s.top) &&
    decide (s.right ≤ r.right + epsilon) && decide (s.bottom ≤ r.bottom + epsilon)

/-- Whether the point lies inside `r`, within the tolerance. -/
def containsPoint (r : Rect α) (p : Point α) : Bool :=
  decide (r.left - epsilon ≤ p.x) && decide (p.x ≤ r.right + epsilon) &&
    decide (r.top - epsilon ≤ p.y) && decide (p.y ≤ r.bottom + epsilon)

/-- Whether the point lies on the outline, within the tolerance. -/
def onBoundary (r : Rect α) (p : Point α) : Bool :=
  r.containsPoint p &&
    (decide (Scalar.abs (p.x - r.left) ≤ epsilon) || decide (Scalar.abs (p.x - r.right) ≤ epsilon)
      || decide (Scalar.abs (p.y - r.top) ≤ epsilon)
      || decide (Scalar.abs (p.y - r.bottom) ≤ epsilon))

/-- The lengths of the overlap along both axes. Both are positive exactly when two upright
rectangles intersect. -/
def overlapExtent (r s : Rect α) : α × α :=
  (Scalar.min r.right s.right - Scalar.max r.left s.left,
    Scalar.min r.bottom s.bottom - Scalar.max r.top s.top)

/-! ## Segments -/

/-- Part of the parameter range of a segment, from `start` to `stop`. -/
structure Clip (α : Type) where
  start : α
  stop : α

/-- Cuts the range down to the parameters `t` with `p * t ≤ q`; nothing is left where the range
would become empty, and where the segment runs along the boundary or outside of it. -/
def Clip.halfPlane (c : Clip α) (p q : α) : Option (Clip α) :=
  if Scalar.abs p ≤ epsilon then
    if q ≤ epsilon then none else some c
  else
    let r := q / p
    if p < 0.0 then
      if c.stop < r then none else some { c with start := Scalar.max c.start r }
    else
      if r < c.start then none else some { c with stop := Scalar.min c.stop r }

/-- Whether more than a trivial part of the segment from `a` to `b` lies in the interior: the
segment is clipped against the four sides in turn. -/
def segmentCrosses (r : Rect α) (a b : Point α) : Bool :=
  let dx := b.x - a.x
  let dy := b.y - a.y
  let clipped := do
    let c ← Clip.halfPlane ⟨0.0, 1.0⟩ (-dx) (a.x - r.left)
    let c ← c.halfPlane dx (r.right - a.x)
    let c ← c.halfPlane (-dy) (a.y - r.top)
    c.halfPlane dy (r.bottom - a.y)
  match clipped with
  | none => false
  | some c => decide (epsilon < c.stop - c.start)

end Rect

end NestedLayout
