import NestedLayout.Drawing.Compacted
import NestedLayout.Drawing.Placed
import NestedLayout.Drawing.Separated
import NestedLayout.Drawing.Sized
import NestedLayout.Picture.Basic
import NestedLayout.Sizing.Dot.Sizer

/-!
# The layout engine

`Engine.run` lays a diagram out. A diagram with an error never gets to a phase; every other run has
an outcome with a report for each phase and a picture of what the phases reached, also when one of
them failed.
-/

set_option autoImplicit false

namespace NestedLayout

/-- What a run comes to. -/
structure Outcome (α : Type) where
  status : RunStatus
  phases : List PhaseReport
  metrics : Metrics α
  picture : Picture α

namespace Outcome

variable {α : Type}

/-- All diagnostics, phase by phase. -/
def diagnostics (o : Outcome α) : List Diagnostic := o.phases.flatMap (·.diagnostics)

end Outcome

namespace Engine

variable {α : Type} [Scalar α]

/-! ## Phases -/

def measurePhase : Phase (Drawing α) := ⟨"measure", [], fun d => some (.quiet d.measure)⟩

def requirementsPhase : Phase (Drawing α) :=
  ⟨"requirements", ["measure"], fun d => some (.quiet d.require)⟩

def sizingPhase (sizer : Sizer α) : Phase (Drawing α) :=
  ⟨"sizing", ["requirements"], Drawing.size sizer⟩

def positioningPhase : Phase (Drawing α) := ⟨"positioning", ["sizing"], fun d => some d.place⟩

def collisionsPhase : Phase (Drawing α) :=
  ⟨"collisions", ["positioning"], fun d => some d.separate⟩

def hooksPhase : Phase (Drawing α) :=
  ⟨"hooks", ["collisions"], fun d => some (.quiet d.attachHooks)⟩

def routingPhase : Phase (Drawing α) := ⟨"routing", ["hooks"], fun d => some (.quiet d.route)⟩

def compactionPhase : Phase (Drawing α) :=
  ⟨"compaction", ["routing"], fun d => some d.compact⟩

def phases (sizer : Sizer α) : List (Phase (Drawing α)) :=
  [measurePhase, requirementsPhase, sizingPhase sizer, positioningPhase, collisionsPhase,
    hooksPhase, routingPhase, compactionPhase]

/-! ## Runs -/

/-- Runs all phases on the drawing of a diagram that has no errors. -/
def execute (settings : Settings α) (sizer : Sizer α) (diagram : Diagram) (hierarchy : Hierarchy)
    (connectors : List Connector) : Option (Run (Drawing α)) :=
  Pipeline.run (phases sizer)
    (.start diagram settings.layout settings.canvas hierarchy connectors)

/-- What a run shows. -/
def outcome (settings : Settings α) (run : Run (Drawing α)) : Outcome α where
  status := run.status
  phases := run.reports
  metrics := run.state.metrics
  picture := .ofDrawing run.state settings.render

/-- Lays a diagram out. There is no outcome when the coordinates break down. -/
def run (settings : Settings α) (sizer : Sizer α) (diagram : Diagram) :
    Except DiagramError (Option (Outcome α)) := do
  let hierarchy ← Hierarchy.extract diagram
  let connectors ← Connector.derive diagram hierarchy
  return (execute settings sizer diagram hierarchy connectors).map (outcome settings)

/-- The sizer that the settings ask for. -/
def sizerFor (settings : ToolSettings) (tool : ExternalTool) : Sizer Float32 :=
  if settings.enabled then tool.sizer else Proportional.sizer

end Engine

end NestedLayout
