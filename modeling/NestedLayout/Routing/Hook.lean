import NestedLayout.Geometry.Side
import NestedLayout.Hierarchy.Connector
import NestedLayout.Placement

/-!
# Hooks

A hook is the point at which a connector meets one of its elements, on one side of its body.
`HookTable.assign` gives every endpoint of every connector one hook.

* **At hubs** the connectors that share a hub are sorted by the angle at which they leave it. The
  first takes the side nearest to its angle, and each next one the next side of a clockwise turn.
* **Elsewhere** the hook is on the side that faces the hub.
* A body without extent has its hooks on a ring around its center.
-/

set_option autoImplicit false

namespace NestedLayout

structure Hook (α : Type) where
  side : Side
  point : Point α
deriving Inhabited

/-- What a hook belongs to: an endpoint of a connector. -/
structure HookKey where
  connector : String
  endpoint : String
deriving DecidableEq, Inhabited

namespace HookKey

/-- Hooks are ordered by connector, those of one connector by endpoint. -/
instance : Ord HookKey where
  compare := compareLex (compareOn connector) (compareOn endpoint)

instance : Std.TransOrd HookKey :=
  inferInstanceAs (Std.TransCmp (compareLex (compareOn connector) (compareOn endpoint)))

theorem eq_of_compare {a b : HookKey} (h : compare a b = .eq) : a = b := by
  have h : compareLex (compareOn connector) (compareOn endpoint) a b = .eq := h
  rw [compareLex_eq_eq] at h
  obtain ⟨c, e⟩ := a
  obtain ⟨c', e'⟩ := b
  have hc : compare c c' = .eq := h.1
  have he : compare e e' = .eq := h.2
  rw [Std.LawfulEqCmp.eq_of_compare hc, Std.LawfulEqCmp.eq_of_compare he]

instance : Std.LawfulEqOrd HookKey where
  toReflCmp := inferInstance
  eq_of_compare := eq_of_compare

end HookKey

abbrev HookTable (α : Type) := Table HookKey (Hook α)

variable {α : Type} [Scalar α]

/-! ## Angles -/

/-- Puts ids in the order of their angles, and in their own order where the angles agree. -/
def beforeByAngle (a b : α × String) : Bool :=
  ((Scalar.compareTotal a.1 b.1).then (compare a.2 b.2)).isLE

namespace Connector

/-- The other endpoints by the angle at which they are seen from the hub. -/
def othersByAngle (c : Connector) (placements : Placements α) : List (α × String) :=
  let hub := Placement.centerOf placements c.hub
  let seen := c.others.map fun id => (hub.angleTo (Placement.centerOf placements id), id)
  seen.mergeSort beforeByAngle

/-- The angle at which a connector leaves its hub: towards the mean of the other endpoints. -/
def angle (c : Connector) (placements : Placements α) : α :=
  let hub := Placement.centerOf placements c.hub
  let centers := c.others.map (Placement.centerOf placements)
  if centers.isEmpty then 0.0
  else
    let total := centers.foldl (fun (s : Point α) p => ⟨s.x + p.x, s.y + p.y⟩) ⟨0.0, 0.0⟩
    let count := Scalar.ofNat centers.length
    hub.angleTo ⟨total.x / count, total.y / count⟩

end Connector

/-! ## Assignment -/

/-- The hook on one side of a body, or of the ring around a body without extent. -/
def Hook.on (body : Rect α) (side : Side) (ring : α × α) : Hook α :=
  if body.isDegenerate then
    let (dx, dy) := side.direction (α := α)
    ⟨side, body.center.translate (dx * ring.1) (dy * ring.2)⟩
  else ⟨side, side.pointOn body⟩

namespace HookTable

/-- The hook of a connector at one of its endpoints. -/
def hook? (hooks : HookTable α) (c : Connector) (endpoint : String) : Option (Hook α) :=
  hooks.get? ⟨c.id, endpoint⟩

/-- The hubs of connectors, each once and in order. -/
def hubs (connectors : List Connector) : List String :=
  (Table.ofList (connectors.map fun c => (c.hub, ()))).keys

/-- The connectors at a hub by the angle at which they leave it. -/
def spokes (connectors : List Connector) (placements : Placements α) (hub : String) :
    List (α × Connector) :=
  let here := (connectors.filter fun c => c.hub == hub).map fun c => (c.angle placements, c)
  here.mergeSort fun a b => beforeByAngle (a.1, a.2.id) (b.1, b.2.id)

/-- Hooks for one connector, on the given side of its hub and on the facing sides elsewhere. -/
def assignOne (placements : Placements α) (ring : α × α) (hooks : HookTable α) (c : Connector)
    (side : Side) : HookTable α :=
  let hub := Placement.bodyOf placements c.hub
  let start := hooks.insert ⟨c.id, c.hub⟩ (.on hub side ring)
  c.others.foldl (fun hooks id =>
    let body := Placement.bodyOf placements id
    hooks.insert ⟨c.id, id⟩ (.on body (.facing body.center hub.center) ring)) start

/-- Hooks for the connectors of one hub. -/
def assignAround (connectors : List Connector) (placements : Placements α) (ring : α × α)
    (hooks : HookTable α) (hub : String) : HookTable α :=
  let sorted := spokes connectors placements hub
  let start := match sorted with
    | [] => 0
    | (angle, _) :: _ => (Side.ofAngle angle).turn
  sorted.zipIdx.foldl (fun hooks (spoke, k) =>
    assignOne placements ring hooks spoke.2 (.ofTurn (start + k))) hooks

/-- A hook for every endpoint of every connector. -/
def assign (connectors : List Connector) (placements : Placements α) (ring : α × α) :
    HookTable α :=
  (hubs connectors).foldl (assignAround connectors placements ring) .empty

/-- Moves the hooks at an element along with it. -/
def translateElement (hooks : HookTable α) (element : String) (dx dy : α) : HookTable α :=
  hooks.map fun key hook =>
    if key.endpoint = element then { hook with point := hook.point.translate dx dy } else hook

end HookTable

end NestedLayout
