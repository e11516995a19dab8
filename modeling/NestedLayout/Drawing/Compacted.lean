import NestedLayout.Drawing.Routed
import NestedLayout.Sizing.Containment

/-!
# Compacted drawings

`Drawing.compact` replaces the box of every container by the tight one around its contents and the
padding, children before parents. Children that overlap are first moved apart, the later one of a
pair away from the earlier one and with everything inside it. The routes are drawn anew, and the
boxes have to be valid in the end.
-/

set_option autoImplicit false

namespace NestedLayout

namespace Drawing

variable {α : Type} [Scalar α]

/-! ## Moving subtrees -/

/-- Moves a container with everything in it. -/
def translateSubtree (d : Drawing α) (root : String) (dx dy : α) : Drawing α :=
  let containers := d.hierarchy.subtree root
  let elements := d.hierarchy.subtreeElements root
  { d with
    boxes := d.boxes.map fun id box =>
      if containers.contains id then box.translate dx dy else box
    placements := d.placements.map fun id p =>
      if elements.contains id then p.translate dx dy else p
    hooks := elements.foldl (fun hooks id => HookTable.translateElement hooks id dx dy) d.hooks }

/-- How far the second of two overlapping boxes has to go, along the axis of the smaller overlap, to
leave the gap between them. -/
def shiftApart (gap : α × α) (a b : Rect α) : α × α :=
  let overlap := a.overlapExtent b
  if overlap.1 ≤ overlap.2 then
    let sign : α := if a.center.x ≤ b.center.x then 1.0 else -1.0
    (sign * (overlap.1 + gap.1), 0.0)
  else
    let sign : α := if a.center.y ≤ b.center.y then 1.0 else -1.0
    (0.0, sign * (overlap.2 + gap.2))

/-- A drawing under compaction, with the number of shifts so far. -/
structure Shifting (α : Type) where
  drawing : Drawing α
  shifts : Nat

/-- A compaction that gave up, with the drawing as it left it. -/
structure FailedShifting (α : Type) where
  drawing : Drawing α
  violation : ContainmentViolation

/-- Moves the second of two containers away from the first where they overlap and neither contains
the other. -/
def shiftPair (s : Shifting α) (pair : String × String) : Shifting α :=
  if Containment.partiallyOverlap s.drawing.boxes pair.1 pair.2 then
    match s.drawing.boxes.get? pair.1, s.drawing.boxes.get? pair.2 with
    | some a, some b =>
      let (dx, dy) := shiftApart s.drawing.unitGap a b
      ⟨s.drawing.translateSubtree pair.2 dx dy, s.shifts + 1⟩
    | _, _ => s
  else s

/-- Moves siblings apart, in at most as many rounds as the first argument. -/
def separateChildren (children : List String) :
    Nat → Shifting α → Except (FailedShifting α) (Shifting α)
  | 0, s =>
    let overlapping := (pairsOf children).find? fun p =>
      Containment.partiallyOverlap s.drawing.boxes p.1 p.2
    match overlapping with
    | some (a, b) =>
      .error ⟨s.drawing, ⟨a, some b, "sibling containers still overlap after compaction"⟩⟩
    | none => .ok s
  | n + 1, s =>
    let next := (pairsOf children).foldl shiftPair s
    if next.shifts = s.shifts then .ok s else separateChildren children n next

/-! ## Tight boxes -/

/-- The box of a container without contents: its least size, in the middle of its box and no larger
than that. -/
def emptyBox (d : Drawing α) (id : String) : Rect α :=
  let least := match d.ledger.requirements.get? id with
    | some r => (r.minWidth, r.minHeight)
    | none => (d.settings.spacing.minWidth, d.settings.spacing.minHeight)
  let (w, h) := d.scale.toUnit least
  match d.boxes.get? id with
  | some box => .fromCenter box.center (Scalar.min w box.width) (Scalar.min h box.height)
  | none => .fromCenter .middle w h

/-- The box around the contents of a container. -/
def tightBox (d : Drawing α) (c : Container) : Rect α :=
  let contents := c.children.filterMap d.boxes.get? ++
    c.elements.filterMap fun id => (d.placements.get? id).map (·.footprint)
  let padding := d.unitPadding
  match Rect.unionAll? contents with
  | some box => box.inflate padding.1 padding.2
  | none => d.emptyBox c.id

/-- Moves the children of a container apart and gives it its tight box. -/
def compactOne (s : Shifting α) (id : String) : Except (FailedShifting α) (Shifting α) :=
  match s.drawing.hierarchy.container? id with
  | none => .ok s
  | some c => do
    let apart ← separateChildren c.children s.drawing.settings.sizing.containmentRetries s
    return { apart with drawing := apart.drawing.setBox id (apart.drawing.tightBox c) }

/-! ## The whole drawing -/

/-- Starts the ledger over with the current boxes and placements. -/
def restartLedger (d : Drawing α) : Drawing α :=
  let fresh := d.ledger.restart d.boxes d.scale
  { d with ledger := d.hierarchy.owners.entries.foldl (fun l e =>
      match d.placements.get? e.1 with
      | some p => l.registerElement e.2 e.1 p.footprint
      | none => l) fresh }

/-- The note about containers that were moved. -/
def shiftNotes (shifts : Nat) : List Note :=
  if 0 < shifts then
    [.info .compaction ("shifted " ++ toString shifts ++ " container subtree(s) apart")]
  else []

/-- Gives every container its tight box and draws the routes anew. -/
def compact (d : Drawing α) : Step (Drawing α) :=
  match d.hierarchy.postOrder.foldlM compactOne ⟨d, 0⟩ with
  | .error failed => ⟨failed.drawing, [], some (.containment failed.violation)⟩
  | .ok s =>
    let settled := { s.drawing.restartLedger with metrics.compactionShifts := s.shifts }
    let hooked := if 0 < s.shifts then settled.attachHooks else settled
    let final := hooked.route
    let failure := match Containment.validate final.hierarchy final.boxes d.unitPadding with
      | .error violation => some (.containment violation)
      | .ok () => none
    ⟨final, shiftNotes s.shifts, failure⟩

end Drawing

end NestedLayout
