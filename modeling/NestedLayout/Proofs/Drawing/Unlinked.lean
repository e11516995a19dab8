import NestedLayout.Engine
import NestedLayout.Proofs.Pipeline
import NestedLayout.Proofs.Table

/-!
# Drawings without their links

`Drawing.unlinked` forgets everything that stems from the connections of a diagram: the connectors
with their hooks and routes, the corridors reserved for them, and the metrics about them. Every
phase of a layout passes that on to the drawing it leaves, so nothing that a phase decides about
containers and elements looks at what is forgotten.

* `SpaceLedger.…_clearReserved`: no search for a free position looks at the reserved corridors.
* `size_unlinked`, `place_unlinked`, `separate_unlinked`, `compact_unlinked`: the phases that set
  boxes and places.
* `attachHooks_unlinked`, `route_unlinked`: hooks and routes are forgotten as soon as they are made.
-/

set_option autoImplicit false

namespace NestedLayout

variable {α : Type}

/-! ## What is forgotten -/

/-- The diagram without its connections. -/
def Diagram.unlinked (d : Diagram) : Diagram :=
  { d with elements := d.elements.map fun _ e => { e with connections := [] }, connections := [] }

/-- The metrics without those about connectors. -/
def Metrics.unlinked [Scalar α] (m : Metrics α) : Metrics α :=
  { m with
    connectors := 0
    hooksAssigned := 0
    connectorBends := 0
    connectorLength := 0.0
    connectorElementCrossings := 0 }

/-- The drawing without what stems from connections. -/
def Drawing.unlinked [Scalar α] (d : Drawing α) : Drawing α :=
  { d with
    diagram := d.diagram.unlinked
    connectors := []
    ledger := d.ledger.clearReserved
    hooks := .empty
    routes := .empty
    metrics := d.metrics.unlinked }

/-! ## The ledger without reserved corridors -/

namespace SpaceLedger

theorem get?_clearReserved (l : SpaceLedger α) (container : String) :
    l.clearReserved.allotments.get? container =
      (l.allotments.get? container).map fun a => { a with reserved := [] } :=
  Table.get?_map _ _ _

theorem clearReserved_registerElement (l : SpaceLedger α) (container element : String)
    (bounds : Rect α) : (l.registerElement container element bounds).clearReserved =
      l.clearReserved.registerElement container element bounds := by
  simp only [registerElement, clearReserved, Table.modify, Table.map_map]
  congr 2
  funext k a
  cases compare container k <;> rfl

theorem clearReserved_reserveRegion (l : SpaceLedger α) (container : String) (bounds : Rect α) :
    (l.reserveRegion container bounds).clearReserved = l.clearReserved := by
  simp only [reserveRegion, clearReserved, Table.modify, Table.map_map]
  congr 2
  funext k a
  cases hk : compare container k <;> rfl

theorem clearReserved_idem (l : SpaceLedger α) :
    l.clearReserved.clearReserved = l.clearReserved := by
  simp only [clearReserved, Table.map_map]

variable [Scalar α]

theorem clearReserved_restart (l : SpaceLedger α) (boxes : Boxes α) (scale : WorldScale α) :
    (l.restart boxes scale).clearReserved = l.restart boxes scale := by
  simp only [restart, clearReserved, Table.map_map]

theorem calculate_clearReserved (l : SpaceLedger α) (h : Hierarchy)
    (extents : IdTable (Extent α)) :
    l.clearReserved.calculate h extents = (l.calculate h extents).clearReserved :=
  @List.foldl_hom _ _ _ clearReserved (fun l id => l.require id (l.requirementOf h extents id))
    (fun l id => l.require id (l.requirementOf h extents id)) h.postOrder
    { l with requirements := .empty } fun _ _ => rfl

theorem climb_clearReserved (h : Hierarchy) (extents : IdTable (Extent α)) (n : Nat)
    (l : SpaceLedger α) (id : Option String) :
    climb h extents n l.clearReserved id =
      ((climb h extents n l id).1.clearReserved, (climb h extents n l id).2) := by
  induction n generalizing l id with
  | zero => rfl
  | succ n ih =>
    cases id with
    | none => rfl
    | some id =>
      have hneed : l.clearReserved.requirementOf h extents id = l.requirementOf h extents id := rfl
      have hold : l.clearReserved.requirements = l.requirements := rfl
      have hmore := ih (l.require id (l.requirementOf h extents id)) (h.parent? id)
      simp only [climb, hneed, hold]
      split
      · rw [show l.clearReserved.require id (l.requirementOf h extents id) =
          (l.require id (l.requirementOf h extents id)).clearReserved from rfl, hmore]
      · rfl

theorem propagate_clearReserved (l : SpaceLedger α) (h : Hierarchy) (extents : IdTable (Extent α))
    (id : String) (r : Requirement α) : l.clearReserved.propagate h extents id r =
      ((l.propagate h extents id r).1.clearReserved, (l.propagate h extents id r).2) := by
  have hclimb := climb_clearReserved h extents (h.size + 1) (l.require id r) (h.parent? id)
  simp only [propagate]
  rw [show l.clearReserved.require id r = (l.require id r).clearReserved from rfl, hclimb]

omit [Scalar α] in
theorem exclusionZones_clearReserved (l : SpaceLedger α) (h : Hierarchy) (boxes : Boxes α)
    (container : String) : l.clearReserved.exclusionZones h boxes container =
      l.exclusionZones h boxes container := by
  simp only [exclusionZones, get?_clearReserved]
  cases l.allotments.get? container <;> rfl

theorem firstPosition?_clearReserved (l : SpaceLedger α) (h : Hierarchy) (boxes : Boxes α)
    (container : String) (size : α × α) (limit : Nat) :
    l.clearReserved.firstPosition? h boxes container size limit =
      l.firstPosition? h boxes container size limit := by
  simp only [firstPosition?, positionCandidates, get?_clearReserved, exclusionZones_clearReserved]
  cases l.allotments.get? container <;> rfl

theorem nearestClear?_clearReserved (l : SpaceLedger α) (h : Hierarchy) (boxes : Boxes α)
    (container : String) (size : α × α) :
    l.clearReserved.nearestClear? h boxes container size =
      l.nearestClear? h boxes container size := by
  simp only [nearestClear?, get?_clearReserved]
  cases l.allotments.get? container <;> rfl

end SpaceLedger

namespace Drawing

variable [Scalar α]

/-! ## Before placing -/

theorem start_unlinked (diagram : Diagram) (settings : LayoutSettings α) (canvas : α × α)
    (h : Hierarchy) (connectors : List Connector) :
    (start diagram settings canvas h connectors).unlinked =
      start diagram.unlinked settings canvas h [] := rfl

theorem measure_unlinked (d : Drawing α) : d.unlinked.measure = d.measure.unlinked := by
  simp only [measure, unlinked, Diagram.unlinked, Table.map_map]
  rfl

theorem require_unlinked (d : Drawing α) : d.unlinked.require = d.require.unlinked := by
  simp only [require, unlinked, SpaceLedger.calculate_clearReserved]

theorem setBox_unlinked (d : Drawing α) (id : String) (box : Rect α) :
    d.unlinked.setBox id box = (d.setBox id box).unlinked := by
  have htree : d.unlinked.hierarchy = d.hierarchy := rfl
  simp only [setBox, htree]
  split <;> rfl

theorem propose_unlinked (d : Drawing α) :
    d.unlinked.propose Proportional.sizer = d.propose Proportional.sizer := rfl

theorem adopt_unlinked (d : Drawing α) (p : Proposal α) :
    d.unlinked.adopt p = (d.adopt p).unlinked := by
  have hboxed : p.plan.boxes.entries.foldl (fun d e => d.setBox e.1 e.2) d.unlinked =
      (p.plan.boxes.entries.foldl (fun d e => d.setBox e.1 e.2) d).unlinked :=
    List.foldl_hom unlinked fun d e => setBox_unlinked d e.1 e.2
  simp only [adopt, hboxed]
  rfl

theorem settleBoxes_unlinked (d : Drawing α) (notes : List Note) :
    d.unlinked.settleBoxes notes = (d.settleBoxes notes).map unlinked := by
  have htree : d.unlinked.hierarchy = d.hierarchy := rfl
  have hboxes : d.unlinked.boxes = d.boxes := rfl
  have hpadding : d.unlinked.unitPadding = d.unitPadding := rfl
  have hsettings : d.unlinked.settings = d.settings := rfl
  simp only [settleBoxes, htree, hboxes, hpadding, hsettings]
  cases Containment.enforce d.hierarchy d.boxes d.unitPadding
      d.settings.sizing.containmentRetries with
  | error failed => rfl
  | ok repaired =>
    dsimp only
    cases Containment.validate d.hierarchy repaired.boxes d.unitPadding with
    | error violation => rfl
    | ok _ =>
      simp only [Step.map, unlinked, SpaceLedger.clearReserved_restart]
      rfl

/-- Proportional sizing does not look at connectors. -/
theorem size_unlinked (d : Drawing α) : d.unlinked.size Proportional.sizer =
    (d.size Proportional.sizer).map (Step.map unlinked) := by
  simp only [size, propose_unlinked]
  cases d.propose Proportional.sizer with
  | none => rfl
  | some proposal =>
    show some ((d.unlinked.adopt proposal).settleBoxes _) = some _
    rw [adopt_unlinked, settleBoxes_unlinked]

/-! ## Placing -/

theorem kindOf_unlinked (d : Drawing α) (element : String) :
    d.unlinked.kindOf element = d.kindOf element := by
  simp only [kindOf, unlinked, Diagram.unlinked, Table.get?_map]
  cases d.diagram.elements.get? element <;> rfl

theorem hintedCenter?_unlinked (d : Drawing α) (container element : String) (size : α × α) :
    d.unlinked.hintedCenter? container element size = d.hintedCenter? container element size := by
  have hfits : d.unlinked.fits = d.fits := rfl
  simp only [hintedCenter?, hfits]
  simp only [unlinked, SpaceLedger.get?_clearReserved, SpaceLedger.exclusionZones_clearReserved]
  cases d.hints.get? element with
  | none => rfl
  | some hint => cases d.ledger.allotments.get? container <;> rfl

theorem fallbackCenter_unlinked (d : Drawing α) (container : String) (size : α × α) :
    d.unlinked.fallbackCenter container size = d.fallbackCenter container size := by
  simp only [fallbackCenter, unlinked, SpaceLedger.get?_clearReserved,
    SpaceLedger.nearestClear?_clearReserved]
  cases d.ledger.allotments.get? container with
  | some a => rfl
  | none => cases d.boxes.get? container <;> rfl

theorem spotFor_unlinked (d : Drawing α) (container element : String) (size : α × α) :
    d.unlinked.spotFor container element size = d.spotFor container element size := by
  simp only [spotFor, hintedCenter?_unlinked, fallbackCenter_unlinked]
  simp only [unlinked, SpaceLedger.firstPosition?_clearReserved]

theorem flagForResize_unlinked (d : Drawing α) (container : String) (extent : Extent α) :
    d.unlinked.flagForResize container extent = (d.flagForResize container extent).unlinked := by
  have hgrown : d.unlinked.ledger.grownRequirement? container extent.totalWidth extent.totalHeight =
    d.ledger.grownRequirement? container extent.totalWidth extent.totalHeight := rfl
  simp only [flagForResize, hgrown]
  cases d.ledger.grownRequirement? container extent.totalWidth extent.totalHeight with
  | none => rfl
  | some grown =>
    simp only [unlinked, SpaceLedger.propagate_clearReserved]
    rfl

theorem putAt_unlinked (d : Drawing α) (container element : String) (extent : Extent α)
    (spot : Spot α) : d.unlinked.putAt container element extent spot =
      (d.putAt container element extent spot).unlinked := by
  obtain ⟨center, origin⟩ := spot
  simp only [putAt, kindOf_unlinked]
  simp only [unlinked, SpaceLedger.clearReserved_registerElement]
  cases origin <;> rfl

theorem placeOne_unlinked (d : Drawing α) (container element : String) (extent : Extent α) :
    d.unlinked.placeOne container element extent =
      ((d.placeOne container element extent).1.unlinked,
        (d.placeOne container element extent).2) := by
  have hscale : d.unlinked.scale = d.scale := rfl
  simp only [placeOne, hscale, spotFor_unlinked, flagForResize_unlinked, putAt_unlinked]
  split <;> rfl

theorem place_unlinked (d : Drawing α) : d.unlinked.place = d.place.map unlinked := by
  have hextents : d.unlinked.extents = d.extents := rfl
  unfold place
  refine @List.foldl_hom _ _ _ (Step.map unlinked) _ _ _
    (.quiet { d with placements := .empty }) fun step m => ?_
  rw [hextents]
  cases d.extents.get? m.2 with
  | none => rfl
  | some extent => simp only [Step.map, placeOne_unlinked]

/-! ## Separating -/

theorem followPush_unlinked (container : String) (room : Rect α) (zones : List (Rect α))
    (d : Drawing α) (item : Separation.Item α) :
    followPush container room zones d.unlinked item =
      (followPush container room zones d item).unlinked := by
  have hplacements : d.unlinked.placements = d.placements := rfl
  simp only [followPush, hplacements]
  cases d.placements.get? item.id with
  | none => rfl
  | some p =>
    dsimp only
    split
    · rfl
    · split
      · rfl
      · simp only [unlinked, SpaceLedger.clearReserved_registerElement]

/-- An untangling without links. -/
def Untangling.unlinked (u : Untangling α) : Untangling α :=
  { u with drawing := u.drawing.unlinked }

theorem separateIn_unlinked (u : Untangling α) (container : String) :
    separateIn u.unlinked container = (separateIn u container).unlinked := by
  obtain ⟨d, notes⟩ := u
  have hitems : d.unlinked.separationItems container = d.separationItems container := rfl
  have hallotment : d.unlinked.ledger.allotments.get? container =
    (d.ledger.allotments.get? container).map fun a => { a with reserved := [] } :=
      SpaceLedger.get?_clearReserved _ _
  simp only [separateIn, Untangling.unlinked, hitems, hallotment]
  split
  · rfl
  · cases d.ledger.allotments.get? container with
    | none => rfl
    | some a =>
      dsimp only [Option.map_some]
      rw [List.foldl_hom unlinked (followPush_unlinked container a.available _)]
      rfl

theorem separate_unlinked (d : Drawing α) : d.unlinked.separate = d.separate.map unlinked := by
  have hfold : d.hierarchy.preOrder.foldl separateIn ⟨d.unlinked, []⟩ =
      (d.hierarchy.preOrder.foldl separateIn ⟨d, []⟩).unlinked :=
    @List.foldl_hom _ _ _ Untangling.unlinked _ _ _ ⟨d, []⟩ separateIn_unlinked
  have hpre : d.unlinked.hierarchy = d.hierarchy := rfl
  simp only [separate, hpre, hfold]
  rfl

/-! ## Routing -/

theorem attachHooks_unlinked (d : Drawing α) :
    d.unlinked.attachHooks = d.attachHooks.unlinked := rfl

omit [Scalar α] in
/-- The corridors of a connector are forgotten again. -/
theorem clearReserved_reserveCorridors (l : SpaceLedger α) (r : RoutedConnector α) :
    (reserveCorridors l r).clearReserved = l.clearReserved :=
  Fold.keeps (fun _ l' => l'.clearReserved = l.clearReserved) rfl fun _ corridor _ l' _ hl =>
    (SpaceLedger.clearReserved_reserveRegion l' _ corridor).trans hl

theorem route_unlinked (d : Drawing α) : d.unlinked.route = d.route.unlinked := by
  have hledger : ((d.connectors.map d.routeOne).foldl reserveCorridors
      d.ledger.clearReserved).clearReserved = d.ledger.clearReserved :=
    Fold.keeps (fun _ l => l.clearReserved = d.ledger.clearReserved)
      d.ledger.clearReserved_idem fun _ r _ l _ hl => (clearReserved_reserveCorridors l r).trans hl
  simp only [route, unlinked, hledger, SpaceLedger.clearReserved_idem]
  rfl

/-! ## Compacting -/

theorem translateSubtree_unlinked (d : Drawing α) (root : String) (dx dy : α) :
    d.unlinked.translateSubtree root dx dy = (d.translateSubtree root dx dy).unlinked := by
  have hhooks : (d.hierarchy.subtreeElements root).foldl
      (fun hooks id => HookTable.translateElement hooks id dx dy) (.empty : HookTable α) = .empty :=
    Fold.keeps (fun _ (hooks : HookTable α) => hooks = .empty) rfl fun _ _ _ hooks _ h => by
      rw [h]
      rfl
  have htree : d.unlinked.hierarchy = d.hierarchy := rfl
  simp only [translateSubtree, htree]
  simp only [unlinked, hhooks]

/-- A compaction without links. -/
def Shifting.unlinked (s : Shifting α) : Shifting α := { s with drawing := s.drawing.unlinked }

/-- A compaction that gave up, without links. -/
def FailedShifting.unlinked (f : FailedShifting α) : FailedShifting α :=
  { f with drawing := f.drawing.unlinked }

/-- What a step of the compaction comes to without links. -/
def shiftedUnlinked :
    Except (FailedShifting α) (Shifting α) → Except (FailedShifting α) (Shifting α)
  | .ok s => .ok s.unlinked
  | .error f => .error f.unlinked

theorem shiftPair_unlinked (s : Shifting α) (pair : String × String) :
    shiftPair s.unlinked pair = (shiftPair s pair).unlinked := by
  obtain ⟨d, shifts⟩ := s
  have hboxes : d.unlinked.boxes = d.boxes := rfl
  have hgap : d.unlinked.unitGap = d.unitGap := rfl
  simp only [shiftPair, Shifting.unlinked, hboxes, hgap, translateSubtree_unlinked]
  split
  · cases d.boxes.get? pair.1 with
    | none => rfl
    | some a => cases d.boxes.get? pair.2 <;> rfl
  · rfl

theorem separateChildren_unlinked (children : List String) (rounds : Nat) (s : Shifting α) :
    separateChildren children rounds s.unlinked =
      shiftedUnlinked (separateChildren children rounds s) := by
  induction rounds generalizing s with
  | zero =>
    have hboxes : s.unlinked.drawing.boxes = s.drawing.boxes := rfl
    simp only [separateChildren, hboxes]
    cases (pairsOf children).find? fun p =>
      Containment.partiallyOverlap s.drawing.boxes p.1 p.2 <;> rfl
  | succ rounds ih =>
    have hfold : (pairsOf children).foldl shiftPair s.unlinked =
        ((pairsOf children).foldl shiftPair s).unlinked :=
      List.foldl_hom Shifting.unlinked shiftPair_unlinked
    have hshifts : ∀ t : Shifting α, t.unlinked.shifts = t.shifts := fun _ => rfl
    simp only [separateChildren, hfold, hshifts, ih]
    split <;> rfl

theorem compactOne_unlinked (s : Shifting α) (id : String) :
    compactOne s.unlinked id = shiftedUnlinked (compactOne s id) := by
  have hcontainer : s.unlinked.drawing.hierarchy.container? id =
    s.drawing.hierarchy.container? id := rfl
  have hrounds : s.unlinked.drawing.settings = s.drawing.settings := rfl
  simp only [compactOne, hcontainer, hrounds]
  cases s.drawing.hierarchy.container? id with
  | none => rfl
  | some c =>
    simp only [separateChildren_unlinked]
    cases separateChildren c.children s.drawing.settings.sizing.containmentRetries s with
    | error f => rfl
    | ok apart =>
      show Except.ok (Shifting.mk (apart.drawing.unlinked.setBox id _) _) = _
      rw [setBox_unlinked]
      rfl

theorem foldlM_compactOne_unlinked (ids : List String) (s : Shifting α) :
    ids.foldlM compactOne s.unlinked = shiftedUnlinked (ids.foldlM compactOne s) := by
  induction ids generalizing s with
  | nil => rfl
  | cons id ids ih =>
    rw [List.foldlM_cons, List.foldlM_cons, compactOne_unlinked]
    cases compactOne s id with
    | error f => rfl
    | ok s' => exact ih s'

/-- A ledger that is started over has no corridors to forget. -/
theorem restartLedger_unlinked (d : Drawing α) :
    d.unlinked.restartLedger = d.restartLedger.unlinked := by
  have hnone : d.restartLedger.ledger.clearReserved = d.restartLedger.ledger := by
    refine Fold.keeps (fun _ (l : SpaceLedger α) => l.clearReserved = l)
      (SpaceLedger.clearReserved_restart d.ledger d.boxes d.scale) fun _ e _ l _ hl => ?_
    split
    · rw [SpaceLedger.clearReserved_registerElement, hl]
    · exact hl
  simp only [unlinked, hnone]
  rfl

theorem compact_unlinked (d : Drawing α) : d.unlinked.compact = d.compact.map unlinked := by
  have hpost : d.unlinked.hierarchy = d.hierarchy := rfl
  have hpadding : d.unlinked.unitPadding = d.unitPadding := rfl
  have hfold := foldlM_compactOne_unlinked d.hierarchy.postOrder ⟨d, 0⟩
  have hsettled : ∀ s : Shifting α,
      { s.drawing.unlinked.restartLedger with metrics.compactionShifts := s.shifts } =
        Drawing.unlinked
          { s.drawing.restartLedger with metrics.compactionShifts := s.shifts } := by
    intro s
    rw [restartLedger_unlinked]
    rfl
  simp only [compact, hpost, hpadding]
  rw [show (⟨d.unlinked, 0⟩ : Shifting α) = Shifting.unlinked ⟨d, 0⟩ from rfl, hfold]
  cases d.hierarchy.postOrder.foldlM compactOne ⟨d, 0⟩ with
  | error f => rfl
  | ok s =>
    dsimp only [shiftedUnlinked, Shifting.unlinked]
    rw [hsettled]
    split <;> simp only [attachHooks_unlinked, route_unlinked] <;> rfl

end Drawing

end NestedLayout
