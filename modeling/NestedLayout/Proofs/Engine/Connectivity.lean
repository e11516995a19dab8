import NestedLayout.Proofs.Drawing.Unlinked
import NestedLayout.Proofs.Engine.Completion

/-!
# Connections and geometry

Two diagrams that differ only in their connections are laid out alike by proportional sizing: the
boxes of all containers and the places of all elements are the same, with the same status and the
same record, whether the run completes, fails or breaks down. What their connectors come to is the
only difference.

* `extract_unlinked`: the container tree does not depend on connections.
* `execute_unlinked`: the run without connections is the run with them, its links forgotten.
* `run_sameGeometry`: the runs of two such diagrams side by side.
-/

set_option autoImplicit false

namespace NestedLayout

/-! ## The tree -/

namespace Hierarchy

theorem contains_unlinked (d : Diagram) (id : String) :
    d.unlinked.elements.contains id = d.elements.contains id := Table.contains_map _ _ _

theorem listedOwners_unlinked (d : Diagram) : listedOwners d.unlinked = listedOwners d := by
  have hrecord : recordOwner d.unlinked = recordOwner d := by
    funext owners area item
    simp only [recordOwner, contains_unlinked]
    rfl
  unfold listedOwners
  rw [hrecord]
  rfl

theorem elementOwners_unlinked (d : Diagram) (owners : IdTable String) :
    elementOwners d.unlinked owners = elementOwners d owners := by
  have hkeys : d.unlinked.elements.keys = d.elements.keys := Table.keys_map _ _
  simp only [elementOwners, hkeys]

theorem node_unlinked (d : Diagram) (owners parents : IdTable String) (depths : IdTable Nat) :
    node d.unlinked owners parents depths = node d owners parents depths := by
  funext id area
  have helements : d.unlinked.elements.contains = d.elements.contains :=
    funext (contains_unlinked d)
  simp only [node, helements]
  rfl

/-- **Connections have no part in the tree.** -/
theorem extract_unlinked (d : Diagram) : extract d.unlinked = extract d := by
  have helements : d.unlinked.elements.contains = d.elements.contains :=
    funext (contains_unlinked d)
  simp only [extract, helements, listedOwners_unlinked, elementOwners_unlinked, node_unlinked]
  rfl

end Hierarchy

namespace Engine

variable {α : Type} [Scalar α]

/-! ## The run without links -/

/-- No phase looks at the connectors, or at what they came to, to set a box or a place. -/
theorem phases_unlinked : ∀ p ∈ phases (Proportional.sizer : Sizer α), ∀ d : Drawing α,
    p.run d.unlinked = (p.run d).map (Step.map Drawing.unlinked) :=
  forall_phases.2
    ⟨fun d => congrArg (fun d => some (Step.quiet d)) (Drawing.measure_unlinked d),
      fun d => congrArg (fun d => some (Step.quiet d)) (Drawing.require_unlinked d),
      Drawing.size_unlinked,
      forall_laterPhases.2
        ⟨fun d => congrArg some (Drawing.place_unlinked d),
          fun d => congrArg some (Drawing.separate_unlinked d),
          fun d => congrArg (fun d => some (Step.quiet d)) (Drawing.attachHooks_unlinked d),
          fun d => congrArg (fun d => some (Step.quiet d)) (Drawing.route_unlinked d),
          fun d => congrArg some (Drawing.compact_unlinked d)⟩⟩

section
variable {settings : Settings α} {diagram other : Diagram} {h : Hierarchy}
  {connectors others : List Connector}

/-- **A run without connections** is the run with them, its links forgotten. -/
theorem execute_unlinked : execute settings Proportional.sizer diagram.unlinked h [] =
    (execute settings Proportional.sizer diagram h connectors).map
      (Run.map Drawing.unlinked) := by
  rw [execute, execute, Pipeline.run, Pipeline.run,
    Pipeline.arrange_of_inOrder (phases_inOrder _)]
  rw [← Drawing.start_unlinked diagram settings.layout settings.canvas h connectors]
  exact Pipeline.execute_map phases_unlinked _

/-! ## Two runs side by side -/

/-- Two runs that set the same boxes and places, and record the same about it. -/
structure SameGeometry (r r' : Run (Drawing α)) : Prop where
  status : r'.status = r.status
  reports : r'.reports = r.reports
  scale : r'.state.scale = r.state.scale
  boxes : r'.state.boxes = r.state.boxes
  /-- The body, the footprint and the fallback mark of every element. -/
  placements : r'.state.placements = r.state.placements
  sizingStrategy : r'.state.metrics.sizingStrategy = r.state.metrics.sizingStrategy
  toolFailures : r'.state.metrics.externalToolFailures = r.state.metrics.externalToolFailures
  shrunk : r'.state.metrics.containersShrunk = r.state.metrics.containersShrunk
  corrections :
    r'.state.metrics.containmentCorrections = r.state.metrics.containmentCorrections
  byHint : r'.state.metrics.placedByHint = r.state.metrics.placedByHint
  bySearch : r'.state.metrics.placedBySearch = r.state.metrics.placedBySearch
  byFallback : r'.state.metrics.fallbackPlacements = r.state.metrics.fallbackPlacements
  flagged : r'.state.metrics.flaggedForResize = r.state.metrics.flaggedForResize
  collisions : r'.state.metrics.collisionsResolved = r.state.metrics.collisionsResolved
  overlaps : r'.state.metrics.remainingOverlaps = r.state.metrics.remainingOverlaps
  shifts : r'.state.metrics.compactionShifts = r.state.metrics.compactionShifts

/-- Runs that are one when their links are forgotten have the same geometry. -/
theorem SameGeometry.of_unlinked {r r' : Run (Drawing α)}
    (h : r.map Drawing.unlinked = r'.map Drawing.unlinked) : SameGeometry r r' := by
  have hstate : r.state.unlinked = r'.state.unlinked := congrArg Run.state h
  have hmetrics : r.state.metrics.unlinked = r'.state.metrics.unlinked :=
    congrArg Drawing.metrics hstate
  constructor
  case status => exact (congrArg Run.status h).symm
  case reports => exact (congrArg Run.reports h).symm
  case scale => exact (congrArg Drawing.scale hstate).symm
  case boxes => exact (congrArg Drawing.boxes hstate).symm
  case placements => exact (congrArg Drawing.placements hstate).symm
  case sizingStrategy => exact (congrArg Metrics.sizingStrategy hmetrics).symm
  case toolFailures => exact (congrArg Metrics.externalToolFailures hmetrics).symm
  case shrunk => exact (congrArg Metrics.containersShrunk hmetrics).symm
  case corrections => exact (congrArg Metrics.containmentCorrections hmetrics).symm
  case byHint => exact (congrArg Metrics.placedByHint hmetrics).symm
  case bySearch => exact (congrArg Metrics.placedBySearch hmetrics).symm
  case byFallback => exact (congrArg Metrics.fallbackPlacements hmetrics).symm
  case flagged => exact (congrArg Metrics.flaggedForResize hmetrics).symm
  case collisions => exact (congrArg Metrics.collisionsResolved hmetrics).symm
  case overlaps => exact (congrArg Metrics.remainingOverlaps hmetrics).symm
  case shifts => exact (congrArg Metrics.compactionShifts hmetrics).symm

variable (settings) in
/-- The runs of two diagrams that differ only in their connections have the same geometry, or break
down both. -/
theorem execute_sameGeometry (hsame : diagram.unlinked = other.unlinked) :
    Option.Rel SameGeometry
      (execute settings Proportional.sizer diagram h connectors)
      (execute settings Proportional.sizer other h others) := by
  have hruns : (execute settings Proportional.sizer diagram h connectors).map
        (Run.map Drawing.unlinked) =
      (execute settings Proportional.sizer other h others).map (Run.map Drawing.unlinked) := by
    rw [← execute_unlinked, ← execute_unlinked, hsame]
  cases hr : execute settings Proportional.sizer diagram h connectors with
  | none =>
    rw [hr] at hruns
    rw [Option.map_eq_none_iff.1 hruns.symm]
    exact .none
  | some r =>
    rw [hr] at hruns
    obtain ⟨r', hr', hmap⟩ := Option.map_eq_some_iff.1 hruns.symm
    rw [hr']
    exact .some (.of_unlinked hmap.symm)

variable (settings) in
/-- **Connections never influence geometry.** Two diagrams without errors that differ only in their
connections have one container tree, and with proportional sizing their runs set the same boxes and
places and record the same about it. -/
theorem run_sameGeometry (hsame : diagram.unlinked = other.unlinked)
    (hh : Hierarchy.extract diagram = .ok h)
    (hc : Connector.derive diagram h = .ok connectors)
    (hc' : Connector.derive other h = .ok others) :
    Hierarchy.extract other = .ok h ∧ ∃ r r' : Option (Run (Drawing α)),
      execute settings Proportional.sizer diagram h connectors = r ∧
      execute settings Proportional.sizer other h others = r' ∧
      run settings Proportional.sizer diagram = .ok (r.map (outcome settings)) ∧
      run settings Proportional.sizer other = .ok (r'.map (outcome settings)) ∧
      Option.Rel SameGeometry r r' := by
  have hh' : Hierarchy.extract other = .ok h := by
    rw [← Hierarchy.extract_unlinked, ← hsame, Hierarchy.extract_unlinked, hh]
  exact ⟨hh', _, _, rfl, rfl, run_eq hh hc, run_eq hh' hc', execute_sameGeometry settings hsame⟩

end

/-- The connection between the two vertices moves nothing. -/
theorem twoLevels_sameGeometry : ∃ cs, cs ≠ [] ∧
    Connector.derive twoLevels twoLevelsTree = .ok cs ∧
    ∃ r r' : Run (Drawing ℝ),
      execute .standard Proportional.sizer twoLevels twoLevelsTree cs = some r ∧
      execute .standard Proportional.sizer twoLevels.unlinked twoLevelsTree [] = some r' ∧
      r.status = .completed ∧ SameGeometry r r' := by
  obtain ⟨cs, hc⟩ := derive_twoLevels
  have hlinked : cs ≠ [] := by
    cases hc
    decide
  obtain ⟨r, -, hr, hdone, -⟩ :=
    proportional_run cs extract_twoLevels Settings.standard_inRange
  have hc' : Connector.derive twoLevels.unlinked twoLevelsTree = .ok [] := rfl
  have hsame : twoLevels.unlinked = twoLevels.unlinked.unlinked := rfl
  obtain ⟨-, _, _, rfl, hr', -, -, hrel⟩ :=
    run_sameGeometry (Settings.standard : Settings ℝ) hsame extract_twoLevels hc hc'
  rw [hr] at hrel
  cases hrel with
  | some hsame => exact ⟨cs, hlinked, hc, r, _, hr, hr', hdone, hsame⟩

end Engine

end NestedLayout
