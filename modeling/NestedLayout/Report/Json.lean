import NestedLayout.Json.Value
import NestedLayout.Report

/-!
# Reports as JSON values
-/

set_option autoImplicit false

namespace NestedLayout

def Severity.name : Severity → String
  | info => "info"
  | warning => "warning"
  | error => "error"

def Topic.name : Topic → String
  | configuration => "configuration"
  | externalTool => "external-tool"
  | spacingExhausted => "spacing-exhausted"
  | collision => "collision"
  | containmentViolation => "containment-violation"
  | compaction => "compaction"

def PhaseStatus.name : PhaseStatus → String
  | completed => "completed"
  | failed => "failed"
  | skipped => "skipped"

def RunStatus.name : RunStatus → String
  | completed => "completed"
  | failed => "failed"

def SizingStrategy.name : SizingStrategy → String
  | direct => "direct"
  | externalTool => "external-tool"
  | proportional => "proportional"

def Diagnostic.toJson (d : Diagnostic) : Json :=
  .record [("phase", .text d.phase), ("severity", .text d.severity.name),
    ("kind", .text d.topic.name), ("message", .text d.message), ("ids", .ofTexts d.ids)]

def PhaseReport.toJson (r : PhaseReport) : Json :=
  .record [("name", .text r.name), ("status", .text r.status.name),
    ("diagnostics", .list (r.diagnostics.map Diagnostic.toJson))]

def Metrics.toJson (m : Metrics Float32) : Json :=
  .record [("containers", .ofNat m.containers), ("elements", .ofNat m.elements),
    ("connectors", .ofNat m.connectors),
    ("sizing_strategy", .ofOption (fun s => .text s.name) m.sizingStrategy),
    ("external_tool_failures", .ofNat m.externalToolFailures),
    ("containers_shrunk", .ofNat m.containersShrunk),
    ("containment_corrections", .ofNat m.containmentCorrections),
    ("placed_by_hint", .ofNat m.placedByHint), ("placed_by_search", .ofNat m.placedBySearch),
    ("fallback_placements", .ofNat m.fallbackPlacements),
    ("containers_flagged_for_resize", .ofTexts m.flaggedForResize),
    ("collisions_resolved", .ofNat m.collisionsResolved),
    ("remaining_overlaps", .ofNat m.remainingOverlaps),
    ("hooks_assigned", .ofNat m.hooksAssigned), ("connector_bends", .ofNat m.connectorBends),
    ("connector_length", .ofSingle m.connectorLength),
    ("connector_element_crossings", .ofNat m.connectorElementCrossings),
    ("compaction_shifts", .ofNat m.compactionShifts)]

end NestedLayout
