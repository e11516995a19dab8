import NestedLayout.Drawing.Basic
import NestedLayout.Routing.Route

/-!
# Routed drawings

`Drawing.attachHooks` gives every connector its hooks, `Drawing.route` its path. The corridors of a
path are reserved in the innermost container around the connector.
-/

set_option autoImplicit false

namespace NestedLayout

namespace Drawing

variable {α : Type} [Scalar α]

/-- Assigns all hooks anew. -/
def attachHooks (d : Drawing α) : Drawing α :=
  let ring := d.scale.toUnit (d.settings.ringOffset, d.settings.ringOffset)
  let hooks := HookTable.assign d.connectors d.placements ring
  { d with hooks := hooks, metrics.hooksAssigned := hooks.size }

/-- A connector with its path and the corridors around it. -/
structure RoutedConnector (α : Type) where
  connector : Connector
  path : List (Point α)
  corridors : List (Rect α)

/-- Routes a connector. -/
def routeOne (d : Drawing α) (c : Connector) : RoutedConnector α :=
  let half := d.settings.routing.corridorWidth / 2.0
  let path := Route.path c d.hooks d.placements d.settings.routing.style
  ⟨c, path, Polyline.corridors path (d.scale.toUnit (half, half))⟩

/-- The ledger with the corridors of a connector reserved. -/
def reserveCorridors (l : SpaceLedger α) (r : RoutedConnector α) : SpaceLedger α :=
  r.corridors.foldl (fun l corridor => l.reserveRegion r.connector.area corridor) l

/-- Routes all connectors anew. -/
def route (d : Drawing α) : Drawing α :=
  let routed := d.connectors.map d.routeOne
  { d with
    ledger := routed.foldl reserveCorridors d.ledger.clearReserved
    routes := .ofList (routed.map fun r => (r.connector.id, r.path))
    metrics.connectorBends := routed.foldl (fun n r => n + Polyline.bends r.path) 0
    metrics.connectorLength := routed.foldl (fun s r => s + Polyline.length r.path) 0.0
    metrics.connectorElementCrossings :=
      routed.foldl (fun n r => n + Route.crossings r.connector d.placements r.corridors) 0 }

end Drawing

end NestedLayout
