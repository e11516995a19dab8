import NestedLayout.Drawing.Basic
import NestedLayout.Sizing.Containment
import NestedLayout.Sizing.Proportional

/-!
# Sized drawings

`Drawing.size` gives every container a box. A root without children takes the unit square; else a
sizer makes the plan, and proportional sizing steps in when it fails. The boxes of the plan are
repaired and checked before anything is placed in them.
-/

set_option autoImplicit false

namespace NestedLayout

namespace Drawing

variable {α : Type} [Scalar α]

/-- What a sizer may look at. -/
def sizingRequest (d : Drawing α) : SizingRequest α :=
  ⟨d.hierarchy, d.ledger, d.extents, d.connectors, d.settings, d.canvas⟩

/-- A plan, and the failure of the sizer if another one had to step in. -/
structure Proposal (α : Type) where
  plan : SizingPlan α
  failure : Option ToolError

/-- The plan for the containers of a drawing. -/
def propose (sizer : Sizer α) (d : Drawing α) : Option (Proposal α) :=
  if d.hierarchy.hasNesting then do
    match ← sizer.plan d.sizingRequest with
    | .ok plan => return ⟨plan, none⟩
    | .error e =>
      let plan ← Proportional.plan d.sizingRequest
      return ⟨plan, some e⟩
  else some ⟨d.sizingRequest.directPlan, none⟩

/-- The drawing with the boxes, the scale and the hints of a plan. -/
def adopt (d : Drawing α) (p : Proposal α) : Drawing α :=
  let boxed := p.plan.boxes.entries.foldl (fun d e => d.setBox e.1 e.2) d
  { boxed with
    scale := p.plan.scale
    hints := p.plan.hints
    metrics.externalToolFailures :=
      d.metrics.externalToolFailures + (if p.failure.isSome then 1 else 0)
    metrics.sizingStrategy := some p.plan.strategy
    metrics.containersShrunk := p.plan.shrunk }

/-- The note about a sizer that failed. -/
def sizerNotes (sizer : Sizer α) (failure : Option ToolError) : List Note :=
  failure.toList.map fun e =>
    .warning .externalTool (sizer.name ++ " sizer failed: " ++ e.message) []

/-- The note about boxes that were repaired. -/
def repairNotes (corrections : Nat) : List Note :=
  if 0 < corrections then
    [.info .containmentViolation
      ("corrected " ++ toString corrections ++ " container placement(s)")]
  else []

/-- Repairs and checks the boxes of a drawing, then starts the ledger over with them. -/
def settleBoxes (d : Drawing α) (notes : List Note) : Step (Drawing α) :=
  let padding := d.unitPadding
  match Containment.enforce d.hierarchy d.boxes padding d.settings.sizing.containmentRetries with
  | .error failed =>
    ⟨{ d with boxes := failed.boxes }, notes, some (.containment failed.violation)⟩
  | .ok repaired =>
    let notes := notes ++ repairNotes repaired.corrections
    let d := { d with
      boxes := repaired.boxes
      metrics.containmentCorrections :=
        d.metrics.containmentCorrections + repaired.corrections }
    match Containment.validate d.hierarchy d.boxes padding with
    | .error violation => ⟨d, notes, some (.containment violation)⟩
    | .ok () => ⟨{ d with ledger := d.ledger.restart d.boxes d.scale }, notes, none⟩

/-- Gives every container a box. -/
def size (sizer : Sizer α) (d : Drawing α) : Option (Step (Drawing α)) := do
  let proposal ← d.propose sizer
  return (d.adopt proposal).settleBoxes (sizerNotes sizer proposal.failure)

end Drawing

end NestedLayout
