import NestedLayout.Pipeline
import NestedLayout.Routing.Hook
import NestedLayout.Settings.Basic
import NestedLayout.Space.Search

/-!
# Drawings

The state of a layout run. It starts with a diagram, its container tree and its connectors, and
every phase adds to it: extents, requirements, boxes, placements, hooks and routes, all in unit
space.
-/

set_option autoImplicit false

namespace NestedLayout

structure Drawing (α : Type) where
  diagram : Diagram
  settings : LayoutSettings α
  /-- The size of the output in pixels; what is drawn may be larger. -/
  canvas : α × α
  hierarchy : Hierarchy
  connectors : List Connector
  extents : IdTable (Extent α)
  boxes : Boxes α
  ledger : SpaceLedger α
  scale : WorldScale α
  /-- Centers that the sizer suggests for elements. -/
  hints : IdTable (Point α)
  placements : Placements α
  hooks : HookTable α
  routes : IdTable (List (Point α))
  metrics : Metrics α

namespace Drawing

variable {α : Type} [Scalar α]

/-- The drawing before any phase. -/
def start (diagram : Diagram) (settings : LayoutSettings α) (canvas : α × α)
    (hierarchy : Hierarchy) (connectors : List Connector) : Drawing α where
  diagram := diagram
  settings := settings
  canvas := canvas
  hierarchy := hierarchy
  connectors := connectors
  extents := .empty
  boxes := .empty
  ledger := .new settings.spacing
  scale := .standard
  hints := .empty
  placements := .empty
  hooks := .empty
  routes := .empty
  metrics := .start hierarchy.size hierarchy.owners.size connectors.length

/-- The kind of an element; an unknown one counts as a vertex. -/
def kindOf (d : Drawing α) (element : String) : ElementKind :=
  match d.diagram.elements.get? element with
  | some e => e.kind
  | none => .vertex

/-- The padding of containers in unit space. -/
def unitPadding (d : Drawing α) : α × α :=
  d.scale.toUnit (d.settings.spacing.padding, d.settings.spacing.padding)

/-- The gap between neighbours in unit space. -/
def unitGap (d : Drawing α) : α × α :=
  d.scale.toUnit (d.settings.spacing.gap, d.settings.spacing.gap)

/-- Sets the box of a container; only containers of the tree have boxes. -/
def setBox (d : Drawing α) (id : String) (box : Rect α) : Drawing α :=
  if d.hierarchy.containers.contains id then { d with boxes := d.boxes.insert id box } else d

/-! ## Extents and requirements -/

/-- Measures all elements. -/
def measure (d : Drawing α) : Drawing α :=
  { d with extents := d.diagram.elements.map fun _ e => .of e d.settings.measure }

/-- Computes the requirements of all containers. -/
def require (d : Drawing α) : Drawing α :=
  { d with ledger := d.ledger.calculate d.hierarchy d.extents }

end Drawing

end NestedLayout
