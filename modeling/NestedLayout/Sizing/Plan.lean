import NestedLayout.Hierarchy.Connector
import NestedLayout.Report
import NestedLayout.Space.Ledger

/-!
# Sizing plans

A sizer turns requirements into boxes for the containers. `SizingRequest` is what it may look at,
`SizingPlan` what it proposes, `ToolError` how an external tool may let it down.
-/

set_option autoImplicit false

namespace NestedLayout

/-! ## Failures of the external tool -/

inductive ToolError where
  | notFound (program : String)
  | notStarted (program reason : String)
  | io (reason : String)
  | timedOut (milliseconds : Nat)
  | failed (status complaint : String)
  | unparseable (reason : String)
deriving DecidableEq

namespace ToolError

/-- A stretch of time in its largest unit: seconds, with milliseconds after the point, or
milliseconds. -/
def durationText (milliseconds : Nat) : String :=
  if milliseconds = 0 then "0ns"
  else if milliseconds < 1000 then toString milliseconds ++ "ms"
  else
    let seconds := toString (milliseconds / 1000)
    let rest := milliseconds % 1000
    if rest = 0 then seconds ++ "s"
    else if rest % 100 = 0 then seconds ++ "." ++ toString (rest / 100) ++ "s"
    else if rest % 10 = 0 then
      seconds ++ "." ++ toString (rest / 100) ++ toString (rest / 10 % 10) ++ "s"
    else
      seconds ++ "." ++ toString (rest / 100) ++ toString (rest / 10 % 10) ++
        toString (rest % 10) ++ "s"

def message : ToolError → String
  | notFound program => "layout tool " ++ DiagramError.quoted program ++ " was not found"
  | notStarted program reason =>
    "failed to start layout tool " ++ DiagramError.quoted program ++ ": " ++ reason
  | io reason => "layout tool i/o failed: " ++ reason
  | timedOut ms => "layout tool timed out after " ++ durationText ms
  | failed status complaint => "layout tool exited with " ++ status ++ ": " ++ complaint
  | unparseable reason => "layout tool output could not be parsed: " ++ reason

end ToolError

/-! ## Requests and plans -/

/-- All that a sizer may look at. -/
structure SizingRequest (α : Type) where
  hierarchy : Hierarchy
  ledger : SpaceLedger α
  extents : IdTable (Extent α)
  connectors : List Connector
  settings : LayoutSettings α
  canvas : α × α

/-- Boxes for containers in unit space, and what the unit square measures. -/
structure SizingPlan (α : Type) where
  boxes : Boxes α
  scale : WorldScale α
  /-- Centers that the sizer suggests for elements. -/
  hints : IdTable (Point α)
  strategy : SizingStrategy
  shrunk : Nat

/-- A way to size containers. There is no answer at all when the coordinates break down: when the
ends of a range are not in order because one of them is no number. -/
structure Sizer (α : Type) where
  name : String
  plan : SizingRequest α → Option (Except ToolError (SizingPlan α))

namespace SizingRequest

variable {α : Type} [Scalar α]

/-- What the unit square measures: the canvas, or the preferred size of the root where that is
larger. -/
def workingScale (r : SizingRequest α) : WorldScale α :=
  match r.ledger.requirements.get? r.hierarchy.root with
  | some q =>
    .of (Scalar.max r.canvas.1 q.preferredWidth) (Scalar.max r.canvas.2 q.preferredHeight)
  | none => .of r.canvas.1 r.canvas.2

/-- The root alone takes the unit square. -/
def directPlan (r : SizingRequest α) : SizingPlan α where
  boxes := Table.empty.insert r.hierarchy.root .unit
  scale := r.workingScale
  hints := .empty
  strategy := .direct
  shrunk := 0

end SizingRequest

end NestedLayout
