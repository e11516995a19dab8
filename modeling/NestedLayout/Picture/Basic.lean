import NestedLayout.Drawing.Basic

/-!
# Pictures

What a run has to show: a figure for every container, element and connector that it reached, in the
space that the settings ask for.

* In **unit** space the figures stand as they were laid out.
* In **absolute** space the top left corner of the root is the origin, lengths are pixels, and
  everything is scaled down evenly when the root does not fit the canvas.
-/

set_option autoImplicit false

namespace NestedLayout

inductive FigureKind where
  | container
  | vertex
  | predicate
  | connector
deriving DecidableEq, Inhabited

/-- The figures of elements have the kinds of the elements. -/
def FigureKind.ofElement : ElementKind → FigureKind
  | .vertex => vertex
  | .predicate => predicate

structure Figure (α : Type) where
  id : String
  kind : FigureKind
  /-- The center of a box, or the first point of a path. -/
  position : Point α
  bounds : Rect α
  /-- Body and clearance of an element. -/
  footprint : Option (Rect α)
  area : Option String
  /-- The layer: containers by depth, connectors above them, elements on top. -/
  layer : Nat
  path : List (Point α)
  endpoints : List String
deriving Inhabited

structure Picture (α : Type) where
  space : CoordinateSpace
  width : α
  height : α
  figures : IdTable (Figure α)
  /-- The containers level by level. -/
  containerOrder : List String
  hooks : HookTable α

namespace Picture

variable {α : Type} [Scalar α]

/-! ## From unit space to the output space -/

/-- A map of the plane and the size of what it maps onto. -/
structure Projection (α : Type) where
  map : AxisMap α
  width : α
  height : α

/-- The factor that scales a box down to a canvas; a box without extent stays as it is. -/
def fitFactor (canvas : α × α) (box : Rect α) : α :=
  if 0.0 < box.width ∧ 0.0 < box.height then
    Scalar.atMost (Scalar.min (canvas.1 / box.width) (canvas.2 / box.height)) 1.0
  else 1.0

/-- The projection for the output space. -/
def projection (d : Drawing α) (render : RenderSettings α) : Projection α :=
  match render.space with
  | .unit => ⟨.identity, 1.0, 1.0⟩
  | .absolute =>
    let world := d.scale.rectToWorld ((d.boxes.get? d.hierarchy.root).getD .unit)
    let fit := fitFactor (render.width, render.height) world
    ⟨⟨d.scale.width * fit, d.scale.height * fit, -world.left * fit, -world.top * fit⟩,
      render.width, render.height⟩

/-! ## Figures -/

/-- The figure of a container with a box. -/
def containerFigure (map : AxisMap α) (c : Container) (box : Rect α) : Figure α :=
  let bounds := map.applyRect box
  { id := c.id, kind := .container, position := bounds.center, bounds := bounds,
    footprint := none, area := c.parent, layer := c.depth, path := [], endpoints := [] }

/-- The figure of a placed element. -/
def elementFigure (d : Drawing α) (map : AxisMap α) (id : String) (p : Placement α) : Figure α :=
  let bounds := map.applyRect p.body
  { id := id, kind := .ofElement (d.kindOf id), position := bounds.center, bounds := bounds,
    footprint := some (map.applyRect p.footprint), area := d.hierarchy.owners.get? id,
    layer := d.hierarchy.maxDepth + 2, path := [], endpoints := [] }

/-- The figure of a connector with a path; there is none for an empty path. -/
def connectorFigure? (d : Drawing α) (map : AxisMap α) (c : Connector) (path : List (Point α)) :
    Option (Figure α) :=
  match path.map map.apply with
  | [] => none
  | start :: rest =>
    (Rect.ofPoints? (start :: rest)).map fun bounds =>
      { id := c.id, kind := .connector, position := start, bounds := bounds, footprint := none,
        area := some c.area, layer := d.hierarchy.maxDepth + 1, path := start :: rest,
        endpoints := c.endpoints }

/-- The containers with boxes, level by level. -/
def shownContainers (d : Drawing α) : List String :=
  d.hierarchy.processingRank.filter d.boxes.contains

/-- All figures, later kinds after earlier ones: a connector hides a box with the same id. -/
def figuresOf (d : Drawing α) (map : AxisMap α) : List (Figure α) :=
  let containers := (shownContainers d).filterMap fun id => do
    let c ← d.hierarchy.container? id
    let box ← d.boxes.get? id
    return containerFigure map c box
  let elements := d.placements.entries.map fun e => elementFigure d map e.1 e.2
  let connectors := d.connectors.filterMap fun c =>
    (d.routes.get? c.id).bind (connectorFigure? d map c)
  containers ++ elements ++ connectors

/-- The picture of a drawing. -/
def ofDrawing (d : Drawing α) (render : RenderSettings α) : Picture α :=
  let p := projection d render
  { space := render.space
    width := p.width
    height := p.height
    figures := .ofList ((figuresOf d p.map).map fun f => (f.id, f))
    containerOrder := shownContainers d
    hooks := d.hooks.map fun _ hook => { hook with point := p.map.apply hook.point } }

end Picture

end NestedLayout
