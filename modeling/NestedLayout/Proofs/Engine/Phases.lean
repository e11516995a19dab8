import NestedLayout.Engine
import NestedLayout.Proofs.Drawing.Furnished
import NestedLayout.Proofs.Pipeline

/-!
# Completed runs of the engine

The phases of the engine stand in order, and only two of them can fail: sizing and compaction.

* `phases_stepsTo`: what each of the phases does to a drawing.
* `execute_completed_iff`: a run is completed exactly when both succeed; it ends with the furnished
  drawing compacted.
* `run_eq`: what a run of the engine comes to when the diagram has no errors.
-/

set_option autoImplicit false

namespace NestedLayout.Engine

variable {α : Type} [Scalar α]

theorem phases_inOrder (sizer : Sizer α) :
    Pipeline.InOrder [] (phases sizer) := by
  simp [Pipeline.InOrder, Pipeline.ready, phases, measurePhase, requirementsPhase, sizingPhase,
    positioningPhase, collisionsPhase, hooksPhase, routingPhase, compactionPhase]

/-! ## Every phase -/

/-- The phases after sizing. -/
def laterPhases : List (Phase (Drawing α)) :=
  [positioningPhase, collisionsPhase, hooksPhase, routingPhase, compactionPhase]

theorem forall_laterPhases {P : Phase (Drawing α) → Prop} : (∀ p ∈ laterPhases, P p) ↔
    P positioningPhase ∧ P collisionsPhase ∧ P hooksPhase ∧ P routingPhase ∧
      P compactionPhase := by
  simp [laterPhases]

theorem forall_phases {sizer : Sizer α} {P : Phase (Drawing α) → Prop} :
    (∀ p ∈ phases sizer, P p) ↔ P measurePhase ∧ P requirementsPhase ∧ P (sizingPhase sizer) ∧
      ∀ p ∈ laterPhases, P p := by
  simp [phases, laterPhases]

/-- What a phase does to a drawing. Sizing may break down, and four phases are quiet: they say
nothing and leave the tree alone. -/
inductive StepsTo (sizer : Sizer α) (d : Drawing α) : Phase (Drawing α) → Step (Drawing α) → Prop
  | sized {step : Step (Drawing α)} (h : d.size sizer = some step) :
    StepsTo sizer d (sizingPhase sizer) step
  | placed : StepsTo sizer d positioningPhase d.place
  | separated : StepsTo sizer d collisionsPhase d.separate
  | compacted : StepsTo sizer d compactionPhase d.compact
  | quiet {p : Phase (Drawing α)} {d' : Drawing α} (h : d'.hierarchy = d.hierarchy) :
    StepsTo sizer d p (.quiet d')

/-- **What the phases do.** -/
theorem phases_stepsTo {sizer : Sizer α} : ∀ p ∈ phases sizer, ∀ (d : Drawing α) step,
    p.run d = some step → StepsTo sizer d p step := by
  refine forall_phases.2 ⟨?measure, ?requirements, fun d step h => .sized h,
    forall_laterPhases.2 ⟨?positioning, ?collisions, ?hooks, ?routing, ?compaction⟩⟩ <;>
    rintro d step ⟨⟩
  case positioning => exact .placed
  case collisions => exact .separated
  case compaction => exact .compacted
  all_goals exact .quiet rfl

/-! ## Completed runs -/

/-- The first phases get through when sizing succeeds. -/
theorem sizing_complete_iff {sizer : Sizer α} {rest : List (Phase (Drawing α))}
    {d final : Drawing α} :
    Pipeline.Completes (measurePhase :: requirementsPhase :: sizingPhase sizer :: rest) d final ↔
      ∃ sized notes, d.measure.require.size sizer = some ⟨sized, notes, none⟩ ∧
        Pipeline.Completes rest sized final := by
  rw [measurePhase, Pipeline.completes_sure_iff rfl, requirementsPhase,
    Pipeline.completes_sure_iff rfl, sizingPhase, Pipeline.completes_cons_iff]
  refine ⟨?_, ?_⟩
  · rintro ⟨⟨sized, notes, failure⟩, hsize, hquiet, more⟩
    obtain rfl : failure = none := hquiet
    exact ⟨sized, notes, hsize, more⟩
  · rintro ⟨sized, notes, hsize, more⟩
    exact ⟨_, hsize, rfl, more⟩

/-- The phases after sizing get through when compaction succeeds. -/
theorem later_complete_iff {sized final : Drawing α} :
    Pipeline.Completes laterPhases sized final ↔
      sized.furnished.compact.failure = none ∧ final = sized.furnished.compact.state := by
  rw [laterPhases, positioningPhase, Pipeline.completes_sure_iff (Drawing.place_failure sized),
    collisionsPhase, Pipeline.completes_sure_iff rfl, hooksPhase,
    Pipeline.completes_sure_iff rfl, routingPhase, Pipeline.completes_sure_iff rfl,
    compactionPhase, Pipeline.completes_last_iff]
  exact Iff.rfl

theorem phases_complete_iff {sizer : Sizer α} {d final : Drawing α} :
    Pipeline.Completes (phases sizer) d final ↔
      ∃ sized notes, d.measure.require.size sizer = some ⟨sized, notes, none⟩ ∧
        sized.furnished.compact.failure = none ∧ final = sized.furnished.compact.state := by
  rw [phases, sizing_complete_iff]
  exact exists_congr fun sized => exists_congr fun notes =>
    and_congr_right fun _ => later_complete_iff

section
variable {settings : Settings α} {sizer : Sizer α} {diagram : Diagram} {h : Hierarchy}
  {connectors : List Connector}

/-- **A run is completed** exactly when sizing and compaction succeed. -/
theorem execute_completed_iff {final : Drawing α} :
    (∃ r, execute settings sizer diagram h connectors = some r ∧ r.status = .completed ∧
        r.state = final) ↔
      ∃ sized notes,
        (Drawing.prepared diagram settings.layout settings.canvas h connectors).size sizer =
          some ⟨sized, notes, none⟩ ∧
        sized.furnished.compact.failure = none ∧ final = sized.furnished.compact.state := by
  rw [execute, Pipeline.run, Pipeline.arrange_of_inOrder (phases_inOrder sizer)]
  exact Pipeline.execute_completed_iff.trans phases_complete_iff

theorem run_eq (hh : Hierarchy.extract diagram = .ok h)
    (hc : Connector.derive diagram h = .ok connectors) :
    run settings sizer diagram =
      .ok ((execute settings sizer diagram h connectors).map (outcome settings)) := by
  rw [run, hh]
  show (Connector.derive diagram h >>= _) = _
  rw [hc]
  rfl

/-- An error in the connectors ends a run before any phase. -/
theorem run_of_derive_error {e : DiagramError} (hh : Hierarchy.extract diagram = .ok h)
    (hc : Connector.derive diagram h = .error e) : run settings sizer diagram = .error e := by
  rw [run, hh]
  show (Connector.derive diagram h >>= _) = _
  rw [hc]
  rfl

end

end NestedLayout.Engine
