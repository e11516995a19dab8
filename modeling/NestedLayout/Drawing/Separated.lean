import NestedLayout.Drawing.Basic
import NestedLayout.Separation
import NestedLayout.Sizing.Containment

/-!
# Separated drawings

`Drawing.separate` pushes overlapping elements of a container apart. A move is brought back into the
container, and not made at all where it would enter a child container. Overlaps that remain are
counted and reported.
-/

set_option autoImplicit false

namespace NestedLayout

namespace Drawing

variable {α : Type} [Scalar α]

/-- The placed elements of a container, as items of a separation pass. -/
def separationItems (d : Drawing α) (container : String) : List (Separation.Item α) :=
  (d.hierarchy.elements container).filterMap fun id =>
    (d.placements.get? id).map fun p => ⟨id, none, p.footprint⟩

/-- Moves an element to where a pass has pushed it, if that is possible. -/
def followPush (container : String) (room : Rect α) (zones : List (Rect α)) (d : Drawing α)
    (item : Separation.Item α) : Drawing α :=
  match d.placements.get? item.id with
  | none => d
  | some placement =>
    if item.bounds.sameAs placement.footprint then d
    else
      let moved := item.bounds.clampWithin room
      if zones.any fun zone => zone.intersects moved then d
      else
        let placed := placement.translate (moved.left - placement.footprint.left)
          (moved.top - placement.footprint.top)
        { d with
          placements := d.placements.insert item.id placed
          ledger := d.ledger.registerElement container item.id placed.footprint }

/-- The elements of a list that overlap, in pairs. -/
def overlappingPairs (d : Drawing α) (ids : List String) : List (String × String) :=
  let placed := ids.filterMap fun id => (d.placements.get? id).map fun p => (id, p.footprint)
  ((pairsOf placed).filter fun p => p.1.2.intersects p.2.2).map fun p => (p.1.1, p.2.1)

/-- The note about two elements that still overlap. -/
def overlapNote (pair : String × String) : Note :=
  .warning .collision
    (DiagramError.quoted pair.1 ++ " and " ++ DiagramError.quoted pair.2 ++ " still overlap")
    [pair.1, pair.2]

/-- A drawing under separation: the notes so far tell the overlaps that remain. -/
structure Untangling (α : Type) where
  drawing : Drawing α
  notes : List Note

/-- Separates the elements of one container. -/
def separateIn (u : Untangling α) (container : String) : Untangling α :=
  let d := u.drawing
  let items := d.separationItems container
  if items.length < 2 then u
  else match d.ledger.allotments.get? container with
    | none => u
    | some allotment =>
      let zones := SpaceLedger.childZones d.hierarchy d.boxes container
      let (pushed, pushes) := Separation.pass items
      let moved := pushed.foldl (followPush container allotment.available zones) d
      let drawing := { moved with
        metrics.collisionsResolved := moved.metrics.collisionsResolved + pushes }
      let remaining := drawing.overlappingPairs (items.map (·.id))
      ⟨drawing, u.notes ++ remaining.map overlapNote⟩

/-- Separates the elements of all containers. -/
def separate (d : Drawing α) : Step (Drawing α) :=
  let u := d.hierarchy.preOrder.foldl separateIn ⟨d, []⟩
  ⟨{ u.drawing with metrics.remainingOverlaps := u.notes.length }, u.notes, none⟩

end Drawing

end NestedLayout
