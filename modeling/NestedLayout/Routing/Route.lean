import NestedLayout.Geometry.Polyline
import NestedLayout.Routing.Hook
import NestedLayout.Settings.Basic

/-!
# Routes

The polyline of a connector runs from the hook at its hub through the hooks at its other endpoints,
in the order of their angles. In the rectilinear style every leg between two hooks is bent at right
angles, once or twice.
-/

set_option autoImplicit false

namespace NestedLayout

namespace Route

variable {α : Type} [Scalar α]

/-! ## Legs -/

/-- Whether two points stand straight above or beside each other, within the tolerance. -/
def aligned (a b : Point α) : Bool :=
  decide (Scalar.abs (b.x - a.x) ≤ Scalar.epsilon) ||
    decide (Scalar.abs (b.y - a.y) ≤ Scalar.epsilon)

/-- Whether the way from one point to another is at least as long across as up and down. -/
def widerThanHigh (a b : Point α) : Bool :=
  decide (Scalar.abs (b.y - a.y) ≤ Scalar.abs (b.x - a.x))

/-- The leg that changes over halfway, starting along the longer axis. -/
def throughMiddle (a b : Point α) : List (Point α) :=
  if widerThanHigh a b then
    let mx := (a.x + b.x) / 2.0
    [a, ⟨mx, a.y⟩, ⟨mx, b.y⟩, b]
  else
    let my := (a.y + b.y) / 2.0
    [a, ⟨a.x, my⟩, ⟨b.x, my⟩, b]

/-- The leg with one bend, starting along the longer axis. -/
def aroundCorner (a b : Point α) : List (Point α) :=
  if widerThanHigh a b then [a, ⟨b.x, a.y⟩, b] else [a, ⟨a.x, b.y⟩, b]

/-- The leg from `a` to a hook at `b`: it bends once if it can enter the side of the hook straight
that way, else twice. -/
def orthogonal (a b : Point α) (side : Side) : List (Point α) :=
  if aligned a b then [a, b]
  else if side.isHorizontal = widerThanHigh a b then throughMiddle a b
  else aroundCorner a b

/-- The leg between two hooks in a chain of several. -/
def chainLeg (style : RouteStyle) (a b : Point α) : List (Point α) :=
  match style with
  | .straight => [a, b]
  | .rectilinear => if aligned a b then [a, b] else throughMiddle a b

/-! ## Polylines -/

/-- Joins legs of which each starts where the one before it ends. -/
def joinLegs : List (List (Point α)) → List (Point α)
  | [] => []
  | leg :: rest => rest.foldl (fun path next => path ++ next.drop 1) leg

/-- The polyline from the hub through the other hooks. -/
def chain (style : RouteStyle) (hub : Hook α) (others : List (Hook α)) : List (Point α) :=
  let points := hub.point :: others.map (·.point)
  joinLegs ((Polyline.legs points).map fun leg => chainLeg style leg.1 leg.2)

/-- The polyline of a connector through its hooks. There is none without a hook at the hub, or at
the only other endpoint; other endpoints without a hook are left out. -/
def polyline (c : Connector) (hooks : HookTable α) (placements : Placements α)
    (style : RouteStyle) : List (Point α) :=
  match HookTable.hook? hooks c c.hub with
  | none => []
  | some hub => match (c.othersByAngle placements).map (·.2) with
    | [other] => match HookTable.hook? hooks c other, style with
      | none, _ => []
      | some stop, .straight => [hub.point, stop.point]
      | some stop, .rectilinear => orthogonal hub.point stop.point stop.side
    | others => chain style hub (others.filterMap (HookTable.hook? hooks c))

/-- The hook points of a connector, in the order of its endpoints. -/
def pins (c : Connector) (hooks : HookTable α) : List (Point α) :=
  c.endpoints.filterMap fun id => (HookTable.hook? hooks c id).map (·.point)

/-- The path of a connector: its polyline without idle points, hooks always kept. -/
def path (c : Connector) (hooks : HookTable α) (placements : Placements α) (style : RouteStyle) :
    List (Point α) :=
  Polyline.simplify (polyline c hooks placements style) (pins c hooks)

/-- How many elements other than the endpoints a path comes too near to: their bodies meet one of
its corridors. -/
def crossings (c : Connector) (placements : Placements α) (corridors : List (Rect α)) : Nat :=
  placements.entries.countP fun e =>
    !c.endpoints.contains e.1 && corridors.any fun lane => lane.intersects e.2.body

end Route

end NestedLayout
