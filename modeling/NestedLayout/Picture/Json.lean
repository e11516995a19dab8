import NestedLayout.Engine
import NestedLayout.Report.Json
import NestedLayout.Settings.Json

/-!
# Outcomes as JSON values
-/

set_option autoImplicit false

namespace NestedLayout

def Point.toJson (p : Point Float32) : Json :=
  .record [("x", .ofSingle p.x), ("y", .ofSingle p.y)]

def Rect.toJson (r : Rect Float32) : Json :=
  .record [("left", .ofSingle r.left), ("top", .ofSingle r.top), ("right", .ofSingle r.right),
    ("bottom", .ofSingle r.bottom)]

/-- The initial of a side. -/
def Side.initial : Side → String
  | north => "N"
  | east => "E"
  | south => "S"
  | west => "W"

def FigureKind.name : FigureKind → String
  | container => "container"
  | vertex => "vertex"
  | predicate => "predicate"
  | connector => "connector"

/-- A figure. Only elements have a footprint, and only connectors a path and endpoints. -/
def Figure.toJson (f : Figure Float32) : Json :=
  let footprint := f.footprint.toList.map fun r => ("footprint", r.toJson)
  let path := if f.path.isEmpty then [] else [("path", Json.list (f.path.map Point.toJson))]
  let endpoints := if f.endpoints.isEmpty then [] else [("endpoints", Json.ofTexts f.endpoints)]
  .record ([("id", .text f.id), ("kind", .text f.kind.name), ("position", f.position.toJson),
      ("bounds", f.bounds.toJson)] ++ footprint ++
    [("parent_area", .ofOption .text f.area), ("z", .ofNat f.layer)] ++ path ++ endpoints)

def Picture.hookJson (key : HookKey) (hook : Hook Float32) : Json :=
  .record [("connector", .text key.connector), ("element", .text key.endpoint),
    ("cardinal", .text hook.side.initial), ("point", hook.point.toJson)]

def Picture.toJson (p : Picture Float32) : Json :=
  .record [("space", .text p.space.name), ("width", .ofSingle p.width),
    ("height", .ofSingle p.height), ("elements", .ofTable Figure.toJson p.figures),
    ("container_order", .ofTexts p.containerOrder),
    ("hooks", .list (p.hooks.entries.map fun e => Picture.hookJson e.1 e.2))]

def Outcome.toJson (o : Outcome Float32) : Json :=
  .record [("status", .text o.status.name), ("phases", .list (o.phases.map PhaseReport.toJson)),
    ("metrics", o.metrics.toJson), ("output", o.picture.toJson)]

end NestedLayout
