import NestedLayout.Drawing.Basic

/-!
# Placed drawings

`Drawing.place` gives every element a place in its container, containers from the outside in and
elements in their order. An element stands where the sizer suggests if that is free; else at the
first free position; else as near to the middle as the child containers allow, and then its
container has to grow.
-/

set_option autoImplicit false

namespace NestedLayout

namespace Drawing

variable {α : Type} [Scalar α]

/-! ## The place of one element -/

/-- Where the place of an element came from. -/
inductive Origin where
  | hint
  | search
  | fallback
deriving DecidableEq

structure Spot (α : Type) where
  center : Point α
  origin : Origin

/-- Whether a footprint lies in a room and, with half the gap around it, keeps clear of all zones.
-/
def fits (d : Drawing α) (room footprint : Rect α) (zones : List (Rect α)) : Bool :=
  let gap := d.unitGap
  let padded := footprint.inflate (gap.1 / 2.0) (gap.2 / 2.0)
  (zones.all fun zone => !zone.intersects padded) && room.contains footprint

/-- The suggested center of an element, if it is free. -/
def hintedCenter? (d : Drawing α) (container element : String) (size : α × α) :
    Option (Point α) := do
  let hint ← d.hints.get? element
  let allotment ← d.ledger.allotments.get? container
  let zones := d.ledger.exclusionZones d.hierarchy d.boxes container
  if d.fits allotment.available (.fromCenter hint size.1 size.2) zones then some hint else none

/-- The center for an element without a free place. -/
def fallbackCenter (d : Drawing α) (container : String) (size : α × α) : Point α :=
  match d.ledger.allotments.get? container, d.boxes.get? container with
  | some allotment, _ =>
    (d.ledger.nearestClear? d.hierarchy d.boxes container size).getD allotment.available.center
  | none, some box => box.center
  | none, none => .middle

/-- The place for an element. -/
def spotFor (d : Drawing α) (container element : String) (size : α × α) : Spot α :=
  match d.hintedCenter? container element size with
  | some center => ⟨center, .hint⟩
  | none =>
    match d.ledger.firstPosition? d.hierarchy d.boxes container size d.settings.maxAttempts with
    | some center => ⟨center, .search⟩
    | none => ⟨d.fallbackCenter container size, .fallback⟩

/-! ## The record of a placement -/

/-- Counts a placement under its origin. -/
def countPlacement (m : Metrics α) : Origin → Metrics α
  | .hint => { m with placedByHint := m.placedByHint + 1 }
  | .search => { m with placedBySearch := m.placedBySearch + 1 }
  | .fallback => { m with fallbackPlacements := m.fallbackPlacements + 1 }

/-- Lets a container grow by the footprint of an element, and flags all containers that grow with
it. -/
def flagForResize (d : Drawing α) (container : String) (extent : Extent α) : Drawing α :=
  match d.ledger.grownRequirement? container extent.totalWidth extent.totalHeight with
  | none => d
  | some grown =>
    let (ledger, affected) := d.ledger.propagate d.hierarchy d.extents container grown
    { d with
      ledger := ledger
      metrics.flaggedForResize := affected.foldl Diagram.appendNew d.metrics.flaggedForResize }

/-- The note about an element without a free place. -/
def noPlaceNote (container element : String) : Note :=
  .warning .spacingExhausted
    ("no free position for " ++ DiagramError.quoted element ++ " in " ++
      DiagramError.quoted container ++ ", placed at center")
    [element, container]

/-- Puts an element at a spot. -/
def putAt (d : Drawing α) (container element : String) (extent : Extent α) (spot : Spot α) :
    Drawing α :=
  let size := extent.unitSize d.scale
  let footprint := Rect.fromCenter spot.center size.1 size.2
  let placement : Placement α :=
    { footprint := footprint
      body := extent.bodyWithin (d.kindOf element) footprint d.scale
      fallback := spot.origin = .fallback }
  { d with
    ledger := d.ledger.registerElement container element footprint
    placements := d.placements.insert element placement
    metrics := countPlacement d.metrics spot.origin }

/-- Finds a place for an element and puts it there. -/
def placeOne (d : Drawing α) (container element : String) (extent : Extent α) :
    Drawing α × List Note :=
  let spot := d.spotFor container element (extent.unitSize d.scale)
  if spot.origin = .fallback then
    ((d.flagForResize container extent).putAt container element extent spot,
      [noPlaceNote container element])
  else (d.putAt container element extent spot, [])

/-! ## All elements -/

/-- Every container with each of its elements. -/
def members (h : Hierarchy) : List (String × String) :=
  h.preOrder.flatMap fun container => (h.elements container).map fun e => (container, e)

/-- Gives every measured element a place. -/
def place (d : Drawing α) : Step (Drawing α) :=
  let start : Step (Drawing α) := .quiet { d with placements := .empty }
  (members d.hierarchy).foldl (fun step m => match d.extents.get? m.2 with
    | none => step
    | some extent =>
      let (next, notes) := step.state.placeOne m.1 m.2 extent
      { step with state := next, notes := step.notes ++ notes }) start

end Drawing

end NestedLayout
