import NestedLayout.Sizing.Plan

/-!
# Proportional sizing

Boxes from requirements alone, top down: each container splits its padded interior into a grid of
cells for its children, in proportion to their preferred sizes, and keeps a band at the bottom for
its own elements. A container that is much larger than it needs to be shrinks about its center
before its children get their cells.
-/

set_option autoImplicit false

namespace NestedLayout

namespace Proportional

variable {α : Type} [Scalar α]

/-! ## Tracks -/

/-- Tracks one after the other from `cursor`, each scaled by `factor`, with gaps between them. -/
def layTracks (factor gap : α) : α → List α → List (Span α)
  | _, [] => []
  | cursor, size :: rest =>
    let stop := cursor + size * factor
    ⟨cursor, stop⟩ :: layTracks factor gap (stop + gap) rest

/-- Scales tracks so that they fill a span together with the gaps between them. Where the gaps
alone do not fit they are left out. -/
def distribute (sizes : List α) (start span gap : α) : List (Span α) :=
  let gaps := gap * Scalar.ofNat (sizes.length - 1)
  let total := Scalar.sum sizes
  if total ≤ 0.0 then layTracks 0.0 0.0 start sizes
  else if gaps < span then layTracks ((span - gaps) / total) gap start sizes
  else layTracks (Scalar.atLeast span 0.0 / total) 0.0 start sizes

/-! ## Shrinking -/

/-- `x` brought into a range, if the range is in order. -/
def clamp? (lo hi x : α) : Option α := if h : lo ≤ hi then some (Scalar.clamp lo hi h x) else none

/-- Shrinks a box about its center when its area exceeds the threshold. No side becomes shorter
than the requirement's minimum, or than it was; and the area keeps its least share. -/
def shrinkToContent (box : Rect α) (r : Requirement α) (scale : WorldScale α)
    (settings : SizingSettings α) : Option (Rect α) := do
  let width := box.width * scale.width
  let height := box.height * scale.height
  let area := width * height
  let required := r.minArea
  if required ≤ 0.0 ∨ area ≤ required * settings.shrinkThreshold then
    return box
  let factor := Scalar.max (required * settings.shrinkTarget / area) settings.minShrinkFactor
  let side := Scalar.sqrt factor
  let newWidth ← clamp? (Scalar.min r.minWidth width) width (width * side)
  let newHeight ← clamp? (Scalar.min r.minHeight height) height (height * side)
  return .fromCenter box.center (scale.toUnitX newWidth) (scale.toUnitY newHeight)

/-! ## Cells -/

/-- The interior of a container above the band for its elements. The band has the share of the
height that the elements need; the root keeps at least its reserve, as far as the children leave
it. -/
def childrenRegion (request : SizingRequest α) (c : Container) (own : Rect α)
    (scale : WorldScale α) : Rect α :=
  let spacing := request.settings.spacing
  let inner := own.deflate (scale.toUnitX spacing.padding) (scale.toUnitY spacing.padding)
  if c.elements.isEmpty then inner
  else
    let gap := request.ledger.spacing.gap
    let elementsHeight := (Requirement.elementFootprint gap request.extents c.elements).2
    let childrenHeight :=
      (Requirement.childrenFootprint gap request.ledger.requirements c.children).2
    let bandHeight := elementsHeight + spacing.gap
    let contentHeight := bandHeight + childrenHeight
    let innerHeight := inner.height
    let share := if 0.0 < contentHeight then innerHeight * bandHeight / contentHeight else 0.0
    let band :=
      if c.parent.isNone then
        let reserve := innerHeight * request.settings.sizing.rootElementReserve
        let ceiling := Scalar.atLeast (innerHeight - scale.toUnitY childrenHeight) 0.0
        Scalar.max share (Scalar.min reserve ceiling)
      else share
    { inner with bottom := inner.bottom - Scalar.min band innerHeight }

/-- Splits a region into a cell for each child, in their order. -/
def childCells (request : SizingRequest α) (children : List String) (region : Rect α)
    (scale : WorldScale α) : List (String × Rect α) :=
  let (columns, rows) := gridShape α children.length
  let spacing := request.settings.spacing
  let sizes := children.map fun id => match request.ledger.requirements.get? id with
    | some r => (r.preferredWidth, r.preferredHeight)
    | none => (spacing.minWidth, spacing.minHeight)
  let widths := trackSizes columns (· % columns) (sizes.map fun s => scale.toUnitX s.1)
  let heights := trackSizes rows (· / columns) (sizes.map fun s => scale.toUnitY s.2)
  let across := distribute widths region.left region.width (scale.toUnitX spacing.gap)
  let down := distribute heights region.top region.height (scale.toUnitY spacing.gap)
  children.zipIdx.filterMap fun (id, i) => do
    let x ← across[i % columns]?
    let y ← down[i / columns]?
    return (id, ⟨x.low, y.low, x.high, y.high⟩)

/-! ## The plan -/

/-- Boxes under way, and how many of them have shrunk. -/
structure Progress (α : Type) where
  boxes : Boxes α
  shrunk : Nat

/-- Shrinks the box of a container other than the root. -/
def shrinkOwn (request : SizingRequest α) (scale : WorldScale α) (p : Progress α) (id : String)
    (c : Container) (own : Rect α) : Option (Progress α × Rect α) :=
  match c.parent, request.ledger.requirements.get? id with
  | some _, some r => do
    let reduced ← shrinkToContent own r scale request.settings.sizing
    if reduced.sameAs own then return (p, own)
    else return (⟨p.boxes.insert id reduced, p.shrunk + 1⟩, reduced)
  | _, _ => some (p, own)

/-- Settles the box of a container and gives its children their cells. -/
def sizeContainer (request : SizingRequest α) (scale : WorldScale α) (p : Progress α)
    (id : String) : Option (Progress α) :=
  match request.hierarchy.container? id, p.boxes.get? id with
  | some c, some own => do
    let (p, own) ← shrinkOwn request scale p id c own
    if c.children.isEmpty then return p
    let region := childrenRegion request c own scale
    let cells := childCells request c.children region scale
    return { p with boxes := cells.foldl (fun t e => t.insert e.1 e.2) p.boxes }
  | _, _ => some p

/-- Sizes all containers, parents before children. -/
def plan (request : SizingRequest α) : Option (SizingPlan α) := do
  let scale := request.workingScale
  let start : Progress α := ⟨Table.empty.insert request.hierarchy.root .unit, 0⟩
  let p ← request.hierarchy.preOrder.foldlM (sizeContainer request scale) start
  return ⟨p.boxes, scale, .empty, .proportional, p.shrunk⟩

/-- The sizer that needs no tool. -/
def sizer : Sizer α where
  name := "proportional"
  plan request := (plan request).map .ok

end Proportional

end NestedLayout
