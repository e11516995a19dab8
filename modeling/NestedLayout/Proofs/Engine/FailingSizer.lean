import NestedLayout.Proofs.Drawing.ToolFailures
import NestedLayout.Proofs.Engine.Completion

/-!
# Runs with a failing sizer

When the sizer fails, proportional sizing steps in, and the run is the one with proportional sizing
from the start: the same status and picture, or the same breakdown. Only the record tells of it, in
the count of failures and in one more diagnostic of the sizing phase.

* `execute_of_failure`: the runs of the phases side by side.
* `run_of_failure`: the outcomes side by side; of a diagram whose root is its only container the
  outcome does not depend on the sizer at all.
-/

set_option autoImplicit false

namespace NestedLayout

variable {α : Type}

/-- The outcome with one failure of the external tool on record: it is counted, and the sizing
phase tells it first. -/
def Outcome.withToolFailure (note : Note) (o : Outcome α) : Outcome α :=
  { o with
    phases := o.phases.map (PhaseReport.noting "sizing" note)
    metrics.externalToolFailures := 1 }

namespace Engine

variable [Scalar α]

/-- No phase after sizing looks at the count of failures. -/
theorem laterPhases_withToolFailures (n : Nat) : ∀ p ∈ laterPhases (α := α), ∀ d,
    p.run (d.withToolFailures n) = (p.run d).map (Step.map (Drawing.withToolFailures n)) :=
  forall_laterPhases.2
    ⟨fun d => congrArg some (Drawing.place_withToolFailures n d),
      fun d => congrArg some (Drawing.separate_withToolFailures n d),
      fun d => congrArg (fun d => some (Step.quiet d)) (Drawing.attachHooks_withToolFailures n d),
      fun d => congrArg (fun d => some (Step.quiet d)) (Drawing.route_withToolFailures n d),
      fun d => congrArg some (Drawing.compact_withToolFailures n d)⟩

theorem sizing_not_later : "sizing" ∉ (laterPhases (α := α)).map (·.name) := by
  simp [laterPhases, positioningPhase, collisionsPhase, hooksPhase, routingPhase, compactionPhase]

section
variable {settings : Settings α} {sizer : Sizer α} {e : ToolError} {diagram : Diagram}
  {h : Hierarchy} {connectors : List Connector}

/-- A run measures and adds up requirements before it sizes. -/
theorem execute_eq_sizing : execute settings sizer diagram h connectors =
    ((Pipeline.execute (sizingPhase sizer :: laterPhases)
      (Drawing.prepared diagram settings.layout settings.canvas h connectors)).map
        (Run.after (Pipeline.report "requirements" [] none))).map
          (Run.after (Pipeline.report "measure" [] none)) := by
  rw [execute, Pipeline.run, Pipeline.arrange_of_inOrder (phases_inOrder sizer)]
  exact Pipeline.execute_quiet.trans (congrArg _ Pipeline.execute_quiet)

/-- **A run with a failing sizer** is the run with proportional sizing but for the record. -/
theorem execute_of_failure (hn : h.hasNesting = true)
    (hfail : sizer.plan
      (Drawing.prepared diagram settings.layout settings.canvas h connectors).sizingRequest =
        some (.error e)) :
    execute settings sizer diagram h connectors =
      (execute settings Proportional.sizer diagram h connectors).map fun run =>
        (run.map (Drawing.withToolFailures 1)).noting "sizing" (Drawing.failureNote sizer e) := by
  let start := Drawing.prepared diagram settings.layout settings.canvas h connectors
  have hsizing : Pipeline.execute (sizingPhase sizer :: laterPhases) start =
      (Pipeline.execute (sizingPhase Proportional.sizer :: laterPhases) start).map fun run =>
        (run.map (Drawing.withToolFailures 1)).noting "sizing" (Drawing.failureNote sizer e) :=
    Pipeline.execute_noting rfl (Drawing.size_of_failure hn hfail)
      (laterPhases_withToolFailures 1) sizing_not_later
  rw [execute_eq_sizing, execute_eq_sizing, hsizing]
  simp only [Option.map_map]
  rfl

/-- With proportional sizing there is no failure to count. -/
theorem execute_toolFailures {run : Run (Drawing α)}
    (hrun : execute settings Proportional.sizer diagram h connectors = some run) :
    run.state.metrics.externalToolFailures = 0 := by
  rw [execute_eq_sizing, Option.map_map] at hrun
  obtain ⟨sizing, hs, rfl⟩ := Option.map_eq_some_iff.1 hrun
  obtain ⟨step, hstep, hs⟩ := Option.bind_eq_some_iff.1 hs
  have hzero : step.state.metrics.externalToolFailures = 0 := Drawing.size_toolFailures hstep
  dsimp only at hs
  split at hs
  · obtain ⟨later, hlater, hs⟩ := Option.bind_eq_some_iff.1 hs
    cases hs
    -- The count of the drawing before the later phases is written over itself.
    have hsame : step.state.withToolFailures 0 = step.state := by
      rw [← hzero]
      rfl
    have hmap := Pipeline.execute_map (laterPhases_withToolFailures 0) step.state
    rw [hsame, hlater] at hmap
    exact congrArg (·.state.metrics.externalToolFailures) (Option.some.inj hmap)
  · cases hs
    exact hzero

/-- A run of the phases reports on each of them. -/
theorem execute_names {run : Run (Drawing α)}
    (hrun : execute settings sizer diagram h connectors = some run) :
    run.reports.map (·.name) = (phases sizer).map (·.name) := by
  rw [execute, Pipeline.run, Pipeline.arrange_of_inOrder (phases_inOrder sizer)] at hrun
  exact Pipeline.execute_names hrun

/-- Without nesting the sizer is not asked. -/
theorem execute_of_root {sizer' : Sizer α} (hn : h.hasNesting = false) :
    execute settings sizer diagram h connectors = execute settings sizer' diagram h connectors := by
  have hphase : (sizingPhase sizer).run (Drawing.prepared diagram settings.layout settings.canvas h
      connectors) = (sizingPhase sizer').run _ := Drawing.size_of_root hn
  rw [execute_eq_sizing, execute_eq_sizing, Pipeline.execute, Pipeline.execute, hphase]
  rfl

end

/-! ## Outcomes -/

section
variable {settings : Settings α} {sizer : Sizer α} {e : ToolError} {diagram : Diagram}
  {h : Hierarchy}

/-- **A failing sizer shows in the record only.** With more than one container the outcome is the
one with proportional sizing, which counts no failure, with one failure counted and one more
warning in the report of the sizing phase; else no sizer is asked. -/
theorem run_of_failure (hh : Hierarchy.extract diagram = .ok h)
    (hfail : ∀ connectors, Connector.derive diagram h = .ok connectors →
      sizer.plan
        (Drawing.prepared diagram settings.layout settings.canvas h connectors).sizingRequest =
          some (.error e)) :
    (1 < h.size →
      run settings sizer diagram = (run settings Proportional.sizer diagram).map
        (Option.map (Outcome.withToolFailure (Drawing.failureNote sizer e))) ∧
      ∀ o, run settings Proportional.sizer diagram = .ok (some o) →
        o.metrics.externalToolFailures = 0 ∧ (o.phases.map (·.name)).count "sizing" = 1) ∧
    (¬ 1 < h.size →
      ∀ other : Sizer α, run settings other diagram = run settings Proportional.sizer diagram) := by
  cases hc : Connector.derive diagram h with
  | error err =>
    have herr : ∀ s : Sizer α, run settings s diagram = .error err := fun _ =>
      run_of_derive_error hh hc
    refine ⟨fun _ => ⟨?_, fun o ho => ?_⟩, fun _ other => ?_⟩
    · rw [herr, herr]
      rfl
    · rw [herr] at ho
      cases ho
    · rw [herr, herr]
  | ok connectors =>
    simp only [run_eq hh hc]
    refine ⟨fun hn => ⟨?_, ?_⟩, fun hn other => ?_⟩
    · rw [execute_of_failure (decide_eq_true hn) (hfail connectors hc)]
      simp only [Except.map, Option.map_map]
      rfl
    · rintro o ho
      obtain ⟨run, hrun, rfl⟩ := Option.map_eq_some_iff.1 (Except.ok.inj ho)
      refine ⟨execute_toolFailures hrun, ?_⟩
      show (run.reports.map (·.name)).count "sizing" = 1
      rw [execute_names hrun]
      rfl
    · rw [execute_of_root (decide_eq_false hn)]

end

/-- A sizer without its tool. -/
def toolless : Sizer ℝ := ⟨"dot", fun _ => some (.error (.notFound "dot"))⟩

/-- A run that completes with a failure on record. -/
theorem twoLevels_of_failure : ∃ o, run Settings.standard toolless twoLevels = .ok (some o) ∧
    o.status = .completed ∧ o.metrics.externalToolFailures = 1 := by
  obtain ⟨cs, hc⟩ := derive_twoLevels
  obtain ⟨r, -, hrun, hdone, -⟩ :=
    proportional_run cs extract_twoLevels Settings.standard_inRange
  have hp : run Settings.standard Proportional.sizer twoLevels =
      .ok (some (outcome Settings.standard r)) := by
    rw [run_eq extract_twoLevels hc, hrun]
    rfl
  have hfail : ∀ request, toolless.plan request = some (.error (.notFound "dot")) := fun _ => rfl
  obtain ⟨hf, -⟩ := (run_of_failure extract_twoLevels fun _ _ => hfail _).1 (by decide)
  rw [hp] at hf
  exact ⟨_, hf, hdone, rfl⟩

end Engine

end NestedLayout
