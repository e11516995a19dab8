import NestedLayout.Space.Ledger

/-!
# The search for free positions

Candidate centers for a footprint come from a grid of rows and columns: a regular grid that is
thinned to a limit, both edges of the interior, and the slots flush against every zone to avoid.

* `axisCandidates`: the coordinates along one axis, in increasing order.
* `SpaceLedger.availablePositions`: all candidates that keep clear of occupied regions and child
  containers, row by row; `firstPosition?` is the first of them.
* `SpaceLedger.nearestClear?`: the candidate nearest to the middle that keeps clear of the child
  containers only.
-/

set_option autoImplicit false

namespace NestedLayout

open Scalar (epsilon)

variable {α : Type} [Scalar α]

/-! ## Coordinates along one axis -/

/-- Drops every value that is within the tolerance of the last one kept. -/
def thinSorted (last : α) : List α → List α
  | [] => []
  | c :: rest =>
    if Scalar.abs (c - last) ≤ epsilon then thinSorted last rest else c :: thinSorted c rest

/-- A list of values without those that are within the tolerance of the last one kept. -/
def thinned : List α → List α
  | [] => []
  | c :: rest => c :: thinSorted c rest

/-- Places for an extent of `size` along one axis of `span`: the seeds, both edges, and the slots
`gap` away from either side of each zone. Places a little past an edge are pulled back onto it; an
extent that is too large gets the middle. The edges are in order whenever a place passes the
filter. -/
def axisCandidates (span : Span α) (size gap : α) (seeds : List α) (zones : List (Span α)) :
    List α :=
  let low := span.low + size / 2.0
  let high := Scalar.max (span.high - size / 2.0) low
  if span.high - span.low < size then [(span.low + span.high) / 2.0]
  else
    let slack := Scalar.max epsilon (gap * 0.25)
    let slots := zones.flatMap fun z =>
      [z.high + gap + size / 2.0, z.low - gap - size / 2.0]
    if inOrder : low ≤ high then
      let near := (seeds ++ [low, high] ++ slots).filter fun c =>
        decide (low - slack ≤ c) && decide (c ≤ high + slack)
      let kept := near.map (Scalar.clamp low high inOrder)
      thinned (kept.mergeSort fun a b => (Scalar.compareTotal a b).isLE)
    else []

/-! ## The regular grid -/

/-- Steps and numbers of columns and rows of a regular grid. -/
structure GridSteps (α : Type) where
  stepX : α
  stepY : α
  columns : Nat
  rows : Nat

/-- The number of places at a step within the slack that an extent leaves. -/
def placeCount (step slack : α) : Nat :=
  Scalar.counter α (Scalar.floorNat (Scalar.atLeast slack 0.0 / step) + 1)

/-- The grid with these steps in the given slack. -/
def GridSteps.of (slack : α × α) (stepX stepY : α) : GridSteps α :=
  ⟨stepX, stepY, placeCount stepX slack.1, placeCount stepY slack.2⟩

/-- Whether a grid, with one more row and column, has more places than the limit, and can be made
coarser. -/
def GridSteps.tooFine (g : GridSteps α) (limit : Nat) : Bool :=
  decide (limit < Scalar.counter α ((g.columns + 1) * (g.rows + 1))) &&
    (decide (1 < g.columns) || decide (1 < g.rows))

/-- Makes the steps half as long again until the grid is within the limit, at most as often as the
first argument. -/
def GridSteps.thin (slack : α × α) (limit : Nat) : Nat → GridSteps α → GridSteps α
  | 0, g => g
  | n + 1, g =>
    if g.tooFine limit then thin slack limit n (.of slack (g.stepX * 1.5) (g.stepY * 1.5)) else g

/-- How often a grid can be made coarser: two rounds more than double the steps, and six hundred
take the least step of single precision to an infinite one. -/
def GridSteps.rounds (g : GridSteps α) : Nat := 2 * (g.columns.log2 + g.rows.log2) + 600

/-- The regular grid for an extent in an area, thinned to the limit. It starts at half the extent,
but no finer than ten tolerances. -/
def GridSteps.within (area : Rect α) (size : α × α) (limit : Nat) : GridSteps α :=
  let slack := (area.width - size.1, area.height - size.2)
  let start := GridSteps.of slack
    (Scalar.atLeast (size.1 / 2.0) (epsilon * 10.0))
    (Scalar.atLeast (size.2 / 2.0) (epsilon * 10.0))
  GridSteps.thin slack limit start.rounds start

/-- The places of a regular grid along one axis. -/
def gridSeeds (start size step : α) (count : Nat) : List α :=
  (List.range count).map fun i => start + size / 2.0 + Scalar.ofNat i * step

/-! ## Positions -/

/-- All points of a grid, row by row. -/
def gridPoints (xs ys : List α) : List (Point α) := ys.flatMap fun y => xs.map fun x => ⟨x, y⟩

/-- Whether a footprint with half the gap around it keeps clear of all zones. -/
def isClear (size halfGap : α × α) (zones : List (Rect α)) (center : Point α) : Bool :=
  let footprint := (Rect.fromCenter center size.1 size.2).inflate halfGap.1 halfGap.2
  zones.all fun zone => !zone.intersects footprint

/-- The grid of candidate centers in an area with zones to avoid. -/
def candidates (area : Rect α) (size halfGap : α × α) (seedsX seedsY : List α)
    (zones : List (Rect α)) : List (Point α) :=
  let xs := axisCandidates ⟨area.left, area.right⟩ size.1 (2.0 * halfGap.1) seedsX
    (zones.map fun z => ⟨z.left, z.right⟩)
  let ys := axisCandidates ⟨area.top, area.bottom⟩ size.2 (2.0 * halfGap.2) seedsY
    (zones.map fun z => ⟨z.top, z.bottom⟩)
  gridPoints xs ys

namespace SpaceLedger

/-- Whether a footprint is too large for an area, beyond the tolerance. -/
def tooLarge (area : Rect α) (size : α × α) : Bool :=
  decide (area.width + epsilon < size.1) || decide (area.height + epsilon < size.2)

/-- The candidate centers for a footprint in a container, and the zones to keep clear of. -/
def positionCandidates (l : SpaceLedger α) (h : Hierarchy) (boxes : Boxes α) (container : String)
    (size : α × α) (limit : Nat) : List (Point α) × List (Rect α) :=
  match l.allotments.get? container with
  | none => ([], [])
  | some allotment =>
    let area := allotment.available
    if tooLarge area size || limit = 0 then ([], [])
    else
      let grid := GridSteps.within area size limit
      let zones := l.exclusionZones h boxes container
      (candidates area size l.halfGap
        (gridSeeds area.left size.1 grid.stepX grid.columns)
        (gridSeeds area.top size.2 grid.stepY grid.rows) zones, zones)

/-- The centers at which a footprint is free, row by row. -/
def availablePositions (l : SpaceLedger α) (h : Hierarchy) (boxes : Boxes α) (container : String)
    (size : α × α) (limit : Nat) : List (Point α) :=
  let (centers, zones) := l.positionCandidates h boxes container size limit
  centers.filter (isClear size l.halfGap zones)

/-- The first center at which a footprint is free. -/
def firstPosition? (l : SpaceLedger α) (h : Hierarchy) (boxes : Boxes α) (container : String)
    (size : α × α) (limit : Nat) : Option (Point α) :=
  let (centers, zones) := l.positionCandidates h boxes container size limit
  centers.find? (isClear size l.halfGap zones)

theorem firstPosition?_eq_head? (l : SpaceLedger α) (h : Hierarchy) (boxes : Boxes α)
    (container : String) (size : α × α) (limit : Nat) :
    l.firstPosition? h boxes container size limit =
      (l.availablePositions h boxes container size limit).head? := by
  simp only [firstPosition?, availablePositions]
  exact List.head?_filter.symm

/-- The better of the best center so far and another one: the nearer one, the earlier one within
the tolerance. -/
def nearer (target : Point α) (best : Option (α × Point α)) (center : Point α) :
    Option (α × Point α) :=
  let distance := center.distance target
  match best with
  | none => some (distance, center)
  | some (closest, found) =>
    if distance < closest - epsilon then some (distance, center) else some (closest, found)

/-- The center nearest to the middle of the interior at which a footprint keeps clear of the child
containers. -/
def nearestClear? (l : SpaceLedger α) (h : Hierarchy) (boxes : Boxes α) (container : String)
    (size : α × α) : Option (Point α) :=
  (l.allotments.get? container).bind fun allotment =>
    let area := allotment.available
    let target := area.center
    let zones := childZones h boxes container
    let centers := candidates area size l.halfGap [target.x] [target.y] zones
    ((centers.filter (isClear size l.halfGap zones)).foldl (nearer target) none).map (·.2)

end SpaceLedger

end NestedLayout
