import NestedLayout.Diagram.Error
import NestedLayout.Scalar

/-!
# Reports

What a run tells about itself: a report per phase with its diagnostics, the errors that end a
phase, and the metrics of the whole run.
-/

set_option autoImplicit false

namespace NestedLayout

/-! ## Errors -/

/-- Boxes that break the nesting of containers or the separation of siblings. -/
structure ContainmentViolation where
  container : String
  other : Option String
  detail : String
deriving DecidableEq

namespace ContainmentViolation

def message (v : ContainmentViolation) : String :=
  let other := match v.other with
    | some id => " / " ++ DiagramError.quoted id
    | none => ""
  "containment violation at " ++ DiagramError.quoted v.container ++ other ++ ": " ++ v.detail

def ids (v : ContainmentViolation) : List String := v.container :: v.other.toList

end ContainmentViolation

/-- What a diagnostic is about. -/
inductive Topic where
  | configuration
  | externalTool
  | spacingExhausted
  | collision
  | containmentViolation
  | compaction
deriving DecidableEq

/-- Why a phase fails. -/
inductive LayoutError where
  | diagram (error : DiagramError)
  | containment (violation : ContainmentViolation)
  | phaseOrder (phase dependency : String)
deriving DecidableEq

namespace LayoutError

def message : LayoutError → String
  | diagram e => e.message
  | containment v => v.message
  | phaseOrder phase dependency =>
    "phase " ++ DiagramError.quoted phase ++ " depends on " ++ DiagramError.quoted dependency ++
      ", which is missing or cyclic"

def ids : LayoutError → List String
  | diagram e => e.ids
  | containment v => v.ids
  | phaseOrder phase dependency => [phase, dependency]

def topic : LayoutError → Topic
  | containment _ => .containmentViolation
  | diagram _ | phaseOrder _ _ => .configuration

end LayoutError

/-! ## Diagnostics -/

inductive Severity where
  | info
  | warning
  | error
deriving DecidableEq

/-- What a phase has to say, before the name of the phase is put to it. -/
structure Note where
  severity : Severity
  topic : Topic
  message : String
  ids : List String
deriving DecidableEq

namespace Note

def warning (topic : Topic) (message : String) (ids : List String) : Note :=
  ⟨.warning, topic, message, ids⟩

def info (topic : Topic) (message : String) : Note := ⟨.info, topic, message, []⟩

/-- The note about an error that ended a phase. -/
def ofError (e : LayoutError) : Note := ⟨.error, e.topic, e.message, e.ids⟩

end Note

structure Diagnostic where
  phase : String
  severity : Severity
  topic : Topic
  message : String
  ids : List String
deriving DecidableEq

/-- A note of a phase. -/
def Note.at (phase : String) (n : Note) : Diagnostic :=
  ⟨phase, n.severity, n.topic, n.message, n.ids⟩

inductive PhaseStatus where
  | completed
  | failed
  | skipped
deriving DecidableEq

inductive RunStatus where
  | completed
  | failed
deriving DecidableEq

structure PhaseReport where
  name : String
  status : PhaseStatus
  diagnostics : List Diagnostic
deriving DecidableEq

/-! ## Metrics -/

/-- Where the boxes of the containers came from. -/
inductive SizingStrategy where
  /-- The root is the only container and takes the unit square. -/
  | direct
  | externalTool
  | proportional
deriving DecidableEq

/-- The quality record of a run. -/
structure Metrics (α : Type) where
  containers : Nat
  elements : Nat
  connectors : Nat
  sizingStrategy : Option SizingStrategy
  externalToolFailures : Nat
  containersShrunk : Nat
  containmentCorrections : Nat
  placedByHint : Nat
  placedBySearch : Nat
  fallbackPlacements : Nat
  /-- Containers whose requirement grew after a fallback placement. -/
  flaggedForResize : List String
  collisionsResolved : Nat
  remainingOverlaps : Nat
  hooksAssigned : Nat
  connectorBends : Nat
  connectorLength : α
  connectorElementCrossings : Nat
  compactionShifts : Nat

/-- The record at the start of a run. -/
def Metrics.start {α : Type} [Scalar α] (containers elements connectors : Nat) : Metrics α where
  containers := containers
  elements := elements
  connectors := connectors
  sizingStrategy := none
  externalToolFailures := 0
  containersShrunk := 0
  containmentCorrections := 0
  placedByHint := 0
  placedBySearch := 0
  fallbackPlacements := 0
  flaggedForResize := []
  collisionsResolved := 0
  remainingOverlaps := 0
  hooksAssigned := 0
  connectorBends := 0
  connectorLength := 0.0
  connectorElementCrossings := 0
  compactionShifts := 0

end NestedLayout
