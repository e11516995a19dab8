import NestedLayout.Proofs.Engine.Reports
import NestedLayout.Proofs.Sizing.Breakdown
import NestedLayout.Settings.File

/-!
# Runs that break down

A run with the proportional sizer in single precision. Settings are bounded from one side only, so
lengths can leave the range of the format, and a run has an outcome unless sizing comes to a box
that has lost a side.

* `run_proportional_breaks_iff`: the one place where such a run breaks down, and the places where it
  cannot.
* `steep_breaks`: a settings file with which every lookup succeeds and a run breaks down.
-/

set_option autoImplicit false

namespace NestedLayout.Engine

open Proportional

section
variable {settings : Settings Float32} {diagram : Diagram} {h : Hierarchy}
  {connectors : List Connector}

/-- A container that is not the root makes a nest. -/
theorem hasNesting_of_inner (t : h.IsTree) {id : String} (hinner : (h.parent? id).isSome = true) :
    h.hasNesting = true := by
  obtain ⟨p, hp⟩ := Option.isSome_iff_exists.1 hinner
  have hlt := t.depth_lt_size (Hierarchy.known_of_parent hp)
  have hdepth := t.depthChild hp
  rw [Hierarchy.hasNesting, decide_eq_true_eq]
  omega

/-- **A run with the proportional sizer breaks down** exactly when it gets stuck. -/
theorem execute_proportional_eq_none_iff (t : h.IsTree) :
    execute settings Proportional.sizer diagram h connectors = none ↔
      let request :=
        (Drawing.prepared diagram settings.layout settings.canvas h connectors).sizingRequest
      ∃ id boxes, Reaches request id boxes ∧ StuckAt request request.workingScale boxes id := by
  rw [execute_eq_none_iff, size_eq_none_iff]
  dsimp only [Proportional.sizer]
  rw [← plan_eq_none_iff]
  refine ⟨?_, fun hplan => ⟨?_, .inl (by rw [hplan]; rfl)⟩⟩
  · rintro ⟨-, hplan | ⟨e, he, hplan⟩⟩
    · exact Option.map_eq_none_iff.1 hplan
    · exact hplan
  · obtain ⟨id, boxes, -, hstuck⟩ := plan_eq_none_iff.1 hplan
    exact hasNesting_of_inner t hstuck.inner

end

/-- **When a run in single precision breaks down.** A run with the proportional sizer has neither
an error nor an outcome exactly when sizing gets to a container that has to shrink although a side
of its box is no number. There is nothing else that can go wrong: the place of a member of a grid is
in the grid, every child gets its cell, a range with a place near it is in order, and what the
search tries along an axis are the places near its range, pulled into it. This holds for all
settings, in range or not. -/
theorem run_proportional_breaks_iff (settings : Settings Float32) (diagram : Diagram) :
    (run settings Proportional.sizer diagram = .ok none ↔ ∃ h connectors,
      Hierarchy.extract diagram = .ok h ∧ Connector.derive diagram h = .ok connectors ∧
      let request :=
        (Drawing.prepared diagram settings.layout settings.canvas h connectors).sizingRequest
      ∃ id boxes, Reaches request id boxes ∧ StuckAt request request.workingScale boxes id) ∧
    (∀ n i, i < n → i % (gridShape Float32 n).1 < (gridShape Float32 n).1 ∧
      i / (gridShape Float32 n).1 < (gridShape Float32 n).2) ∧
    (∀ (request : SizingRequest Float32) children region scale,
      (childCells request children region scale).map (·.1) = children) ∧
    (∀ (span : Span Float32) (size gap c : Float32),
      nearRange (placeRange span size) gap c = true →
        (placeRange span size).low ≤ (placeRange span size).high) ∧
    ∀ (span : Span Float32) (size gap : Float32) (seeds : List Float32)
      (zones : List (Span Float32)), ¬ span.high - span.low < size →
        axisCandidates span size gap seeds zones =
          thinned ((Binary32.pulled span size gap
            (soughtPlaces span size gap seeds zones)).mergeSort
              fun a b => (Scalar.compareTotal a b).isLE) := by
  refine ⟨⟨fun hrun => ?_, ?_⟩, fun n i hi => gridShape_places hi, childCells_ids,
    fun span size gap c hc => Binary32.placeRange_inOrder hc,
    fun span size gap => Binary32.axisCandidates_eq_pulled⟩
  · obtain ⟨h, connectors, hh, hc, -⟩ := (run_orderly settings _ diagram).2.1.1 hrun
    refine ⟨h, connectors, hh, hc, ?_⟩
    rw [run_eq hh hc] at hrun
    refine (execute_proportional_eq_none_iff (Hierarchy.extract_treeOf hh).toIsTree).1 ?_
    simpa using hrun
  · rintro ⟨h, connectors, hh, hc, hstuck⟩
    rw [run_eq hh hc, (execute_proportional_eq_none_iff
      (Hierarchy.extract_treeOf hh).toIsTree).2 hstuck]
    rfl

/-! ## A steep growth -/

/-- A settings file that asks for very wide containers. -/
def steep : String := "\x7b\"layout\":\x7b\"growthWidth\":10000000000000000000\x7d\x7d"

/-- Whether a settings file is fine and a run with it breaks down. -/
def breaksDownWith (text : String) (diagram : Diagram) : Bool :=
  match Settings.ofText .json text with
  | .ok settings => breaksDown (run (α := Float32) settings Proportional.sizer diagram)
  | .error _ => false

/-- Neither the file nor the diagram has an error, and yet the run has no outcome: the sheet would
have to be so wide that the area in it gets no width at all. -/
theorem steep_breaks : ∃ settings : Settings Float32, Settings.ofText .json steep = .ok settings ∧
    (∃ h connectors, Hierarchy.extract nested = .ok h ∧
      Connector.derive nested h = .ok connectors) ∧
    ¬ ∃ o, run settings Proportional.sizer nested = .ok (some o) := by
  have hbreak : breaksDownWith steep nested = true := by decide +kernel
  unfold breaksDownWith at hbreak
  split at hbreak
  · rename_i settings hread
    refine ⟨settings, hread, ⟨_, _, rfl, rfl⟩, ?_⟩
    rintro ⟨o, ho⟩
    rw [breaksDown_iff.1 hbreak] at ho
    cases ho
  · cases hbreak

end NestedLayout.Engine
