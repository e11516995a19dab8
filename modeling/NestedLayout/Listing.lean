import NestedLayout.Picture.Json

/-!
# Listings

The flat account of an outcome that the command line writes: containers level by level, elements
with their hooks, connectors with their points, then the reports and the metrics.
-/

set_option autoImplicit false

namespace NestedLayout

/-- A box by its top left corner and its size. -/
structure ListedBox (α : Type) where
  id : String
  kind : FigureKind
  area : Option String
  layer : Nat
  x : α
  y : α
  width : α
  height : α

structure ListedHook (α : Type) where
  connector : String
  side : Side
  point : Point α

structure ListedElement (α : Type) where
  box : ListedBox α
  hooks : List (ListedHook α)

structure ListedConnector (α : Type) where
  id : String
  area : Option String
  endpoints : List String
  layer : Nat
  points : List (Point α)

structure Listing (α : Type) where
  status : RunStatus
  space : CoordinateSpace
  width : α
  height : α
  containers : List (ListedBox α)
  elements : List (ListedElement α)
  connectors : List (ListedConnector α)
  phases : List PhaseReport
  metrics : Metrics α

namespace Listing

variable {α : Type} [Scalar α]

def boxOf (f : Figure α) : ListedBox α :=
  ⟨f.id, f.kind, f.area, f.layer, f.bounds.left, f.bounds.top, f.bounds.width, f.bounds.height⟩

/-- The hooks at an element, in the order of their connectors. -/
def hooksAt (hooks : HookTable α) (element : String) : List (ListedHook α) :=
  (hooks.entries.filter fun e => e.1.endpoint == element).map fun e =>
    ⟨e.1.connector, e.2.side, e.2.point⟩

def connectorOf (f : Figure α) : ListedConnector α :=
  ⟨f.id, f.area, f.endpoints, f.layer, f.path⟩

/-- Whether a figure shows an element. -/
def isElement (f : Figure α) : Bool := f.kind == .vertex || f.kind == .predicate

/-- The listing of an outcome. -/
def ofOutcome (o : Outcome α) : Listing α :=
  let p := o.picture
  { status := o.status
    space := p.space
    width := p.width
    height := p.height
    containers := (p.containerOrder.filterMap p.figures.get?).map boxOf
    elements := (p.figures.values.filter isElement).map fun f => ⟨boxOf f, hooksAt p.hooks f.id⟩
    connectors := (p.figures.values.filter fun f => f.kind == .connector).map connectorOf
    phases := o.phases
    metrics := o.metrics }

/-! ## JSON -/

/-- The name of a side. -/
def sideName : Side → String
  | .north => "north"
  | .east => "east"
  | .south => "south"
  | .west => "west"

/-- Corner and size of a box. -/
def cornerJson (b : ListedBox Float32) : List (String × Json) :=
  [("z", .ofNat b.layer), ("x", .ofSingle b.x), ("y", .ofSingle b.y),
    ("width", .ofSingle b.width), ("height", .ofSingle b.height)]

def containerJson (b : ListedBox Float32) : Json :=
  .record ([("id", .text b.id), ("parent", .ofOption .text b.area)] ++ cornerJson b)

def hookJson (h : ListedHook Float32) : Json :=
  .record [("connector", .text h.connector), ("side", .text (sideName h.side)),
    ("x", .ofSingle h.point.x), ("y", .ofSingle h.point.y)]

def elementJson (e : ListedElement Float32) : Json :=
  .record ([("id", .text e.box.id), ("kind", .text e.box.kind.name),
      ("area", .ofOption .text e.box.area)] ++ cornerJson e.box ++
    [("hooks", .list (e.hooks.map hookJson))])

def connectorJson (c : ListedConnector Float32) : Json :=
  .record [("id", .text c.id), ("area", .ofOption .text c.area),
    ("endpoints", .ofTexts c.endpoints), ("z", .ofNat c.layer),
    ("points", .list (c.points.map fun p => .list [.ofSingle p.x, .ofSingle p.y]))]

def toJson (l : Listing Float32) : Json :=
  .record [("status", .text l.status.name), ("space", .text l.space.name),
    ("width", .ofSingle l.width), ("height", .ofSingle l.height),
    ("containers", .list (l.containers.map containerJson)),
    ("elements", .list (l.elements.map elementJson)),
    ("connectors", .list (l.connectors.map connectorJson)),
    ("phases", .list (l.phases.map PhaseReport.toJson)), ("metrics", l.metrics.toJson)]

end Listing

end NestedLayout
