import NestedLayout.Measure.Extent

/-!
# Space requirements

How much room a container needs for its contents, in pixels. Its elements stand in a near-square
grid of equal cells, its children in a near-square grid whose columns and rows are as wide and high
as their largest member; elements and children stand one above the other.

* `gridShape`: the shape of the grids.
* `Requirement.compute`: what a container needs, from the extents of its elements and the
  requirements of its children.
* `Requirement.grown`: what it needs with one more footprint.
-/

set_option autoImplicit false

namespace NestedLayout

variable {α : Type} [Scalar α]

/-- Columns and rows of the near-square grid for `n` items: the columns are the square root of `n`
rounded up, the rows as many as are needed. -/
def gridShape (α : Type) [Scalar α] (n : Nat) : Nat × Nat :=
  if n = 0 then (0, 0)
  else
    let columns := Nat.max (Scalar.ceilNat (Scalar.sqrt (Scalar.ofNat n : α))) 1
    (columns, (n + columns - 1) / columns)

/-- The largest size on each of `count` tracks, at least zero, where `place` gives the track of the
`i`-th size. -/
def trackSizes (count : Nat) (place : Nat → Nat) (sizes : List α) : List α :=
  (List.range count).map fun track =>
    ((sizes.zipIdx.filter fun s => place s.2 = track).map (·.1)).foldl Scalar.max 0.0

/-- Least and preferred size of a container, and what it was computed for. -/
structure Requirement (α : Type) where
  minWidth : α
  minHeight : α
  preferredWidth : α
  preferredHeight : α
  elements : List String
  children : List String
deriving Inhabited

namespace Requirement

def minArea (r : Requirement α) : α := r.minWidth * r.minHeight

/-- The size of a grid with a cell for each element, all as large as the largest one. -/
def elementFootprint (gap : α) (extents : IdTable (Extent α)) (elements : List String) : α × α :=
  let (columns, rows) := gridShape α elements.length
  if columns = 0 then (0.0, 0.0)
  else
    let known := elements.filterMap extents.get?
    let cellWidth := (known.map Extent.totalWidth).foldl Scalar.max 0.0
    let cellHeight := (known.map Extent.totalHeight).foldl Scalar.max 0.0
    (Scalar.ofNat columns * (cellWidth + gap) - gap, Scalar.ofNat rows * (cellHeight + gap) - gap)

/-- The size of a grid of children in their preferred sizes. A child without a requirement has a
place, but no size. -/
def childrenFootprint (gap : α) (requirements : IdTable (Requirement α)) (children : List String) :
    α × α :=
  let (columns, rows) := gridShape α children.length
  if columns = 0 then (0.0, 0.0)
  else
    let size (f : Requirement α → α) (id : String) : α :=
      match requirements.get? id with
      | some r => f r
      | none => 0.0
    let widths := trackSizes columns (· % columns) (children.map (size (·.preferredWidth)))
    let heights := trackSizes rows (· / columns) (children.map (size (·.preferredHeight)))
    (Scalar.sum widths + gap * Scalar.ofNat (columns - 1),
      Scalar.sum heights + gap * Scalar.ofNat (rows - 1))

/-- The size of the contents: the grid of elements above the grid of children, with a gap between
them when there are both. -/
def contentSize (gap : α) (elements children : α × α) : α × α :=
  if 0.0 < elements.1 then
    if 0.0 < children.1 then
      (Scalar.max elements.1 children.1, elements.2 + children.2 + gap)
    else elements
  else if 0.0 < children.1 then children
  else (0.0, 0.0)

/-- The requirement with these least sizes: the preferred sizes exceed them by the growth. -/
def ofMinimum (spacing : Spacing α) (minWidth minHeight : α) (elements children : List String) :
    Requirement α where
  minWidth := minWidth
  minHeight := minHeight
  preferredWidth := minWidth * (1.0 + spacing.growthWidth)
  preferredHeight := minHeight * (1.0 + spacing.growthHeight)
  elements := elements
  children := children

/-- What a container with these elements and children needs, given what the children need. -/
def compute (spacing : Spacing α) (extents : IdTable (Extent α))
    (requirements : IdTable (Requirement α)) (elements children : List String) : Requirement α :=
  let content := contentSize spacing.gap (elementFootprint spacing.gap extents elements)
    (childrenFootprint spacing.gap requirements children)
  ofMinimum spacing
    (Scalar.max (content.1 + spacing.padding * 2.0) spacing.minWidth)
    (Scalar.max (content.2 + spacing.padding * 2.0) spacing.minHeight)
    elements children

/-- The requirement with room for one more footprint below. -/
def grown (spacing : Spacing α) (r : Requirement α) (width height : α) : Requirement α :=
  ofMinimum spacing
    (Scalar.max r.minWidth (width + spacing.padding * 2.0))
    (r.minHeight + (height + spacing.gap))
    r.elements r.children

end Requirement

end NestedLayout
