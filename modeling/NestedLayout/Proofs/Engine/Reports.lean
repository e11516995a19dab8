import NestedLayout.Proofs.Drawing.Failures
import NestedLayout.Proofs.Engine.FailingSizer
import NestedLayout.Scalar.Binary32

/-!
# What a run reports

A diagram with an error has that error for an answer, and no phase is run. Every other run has an
orderly outcome, whatever the settings and the sizer, unless the coordinates break down in sizing.

* `Outcome.Orderly`: eight reports in order; in a failed run one of them is failed, over one or two
  containers of the diagram, with those before it completed and those after it skipped.
* `execute_eq_none_iff`: the coordinates can break down in sizing only, and only where the sizer or
  proportional sizing in its place has no answer.
* `run_orderly`: errors, breakdowns and outcomes of runs.
* `endless_no_outcome`: on a canvas without end a run may break down.
-/

set_option autoImplicit false

namespace NestedLayout

variable {α : Type}

/-! ## Orderly outcomes -/

/-- The report of a phase that failed over containers of the diagram: the last diagnostic is the
only error, and names one or two of them. -/
structure PhaseReport.FailedOver (diagram : Diagram) (r : PhaseReport) : Prop where
  failed : r.status = .failed
  violation : ∃ notes last, r.diagnostics = notes ++ [last] ∧ (∀ d ∈ notes, d.severity ≠ .error) ∧
    last.severity = .error ∧ last.topic = .containmentViolation ∧
    (last.ids.length = 1 ∨ last.ids.length = 2) ∧
    ∀ id ∈ last.ids, diagram.areas.contains id = true

/-- The reports of a run are in order, and tell where it failed if it did. -/
structure Outcome.Orderly (diagram : Diagram) (o : Outcome α) : Prop where
  named : o.phases.map (·.name) = ["measure", "requirements", "sizing", "positioning",
    "collisions", "hooks", "routing", "compaction"]
  failed_iff : o.status = .failed ↔ o.phases.countP (·.status = .failed) = 1
  completed : o.status = .completed → ∀ r ∈ o.phases, r.CompletedCalmly
  failed : o.status = .failed → ∃ before r after, o.phases = before ++ r :: after ∧
    (r.name = "sizing" ∨ r.name = "compaction") ∧ r.FailedOver diagram ∧
    (∀ q ∈ before, q.CompletedCalmly) ∧ ∀ q ∈ after, q.status = .skipped ∧ q.diagnostics = []

/-- The report of a phase that a violation ended. -/
theorem report_failedOver {diagram : Diagram} {h : Hierarchy} (t : Hierarchy.TreeOf diagram h)
    {phase : String} {notes : List Note} {v : ContainmentViolation} (hnotes : Note.Calm notes)
    (hv : v.Within h) :
    (Pipeline.report phase notes (some (.containment v))).FailedOver diagram := by
  refine ⟨rfl, notes.map (Note.at phase), (Note.ofError (.containment v)).at phase, ?_, ?_, rfl,
    rfl, ?_, fun id hid => ?_⟩
  · simp [Pipeline.report]
  · intro d hd
    obtain ⟨n, hn, rfl⟩ := List.mem_map.1 hd
    exact hnotes n hn
  · show v.ids.length = 1 ∨ v.ids.length = 2
    cases hother : v.other <;> simp [ContainmentViolation.ids, hother]
  · rw [← t.known]
    exact hv id hid

/-- Reports that all have another status have no failed one among them. -/
theorem countP_failed_eq_zero {s : PhaseStatus} {reports : List PhaseReport} (hs : s ≠ .failed)
    (h : ∀ r ∈ reports, r.status = s) : reports.countP (·.status = .failed) = 0 := by
  refine List.countP_eq_zero.2 fun r hr => ?_
  rw [h r hr]
  simpa using hs

namespace Engine

variable [Scalar α] {sizer : Sizer α}

/-! ## The phases -/

/-- No phase reports an error of its own. -/
theorem phases_calm : ∀ p ∈ phases sizer, ∀ (d : Drawing α) step, p.run d = some step →
    Note.Calm step.notes := by
  intro p hp d step hstep
  cases phases_stepsTo p hp d step hstep with
  | sized h => exact Drawing.size_calm h
  | placed => exact Drawing.place_calm d
  | separated => exact Drawing.separate_calm d
  | compacted => exact Drawing.compact_calm d
  | quiet => exact Note.calm_nil

/-- The phases work on one tree. -/
theorem phases_tree {h : Hierarchy} (t : h.IsTree) : ∀ p ∈ phases sizer, ∀ (d : Drawing α) step,
    p.run d = some step → step.failure = none → d.hierarchy = h → step.state.hierarchy = h := by
  intro p hp d step hstep _ hd
  cases phases_stepsTo p hp d step hstep with
  | sized h => exact (Drawing.size_subject h).1.hierarchy.trans hd
  | placed => exact (Drawing.place_ground d).hierarchy.trans hd
  | separated => exact (Drawing.separate_ground d).hierarchy.trans hd
  | compacted => exact (Drawing.compact_hierarchy (hd ▸ t)).trans hd
  | quiet h => exact h.trans hd

/-- **Only sizing and compaction fail**, over containers of the tree. -/
theorem phases_failure {h : Hierarchy} (t : h.IsTree) : ∀ p ∈ phases sizer,
    ∀ (d : Drawing α) step e, p.run d = some step → step.failure = some e → d.hierarchy = h →
      (p.name = "sizing" ∨ p.name = "compaction") ∧ ∃ v, e = .containment v ∧ v.Within h := by
  rintro p hp d step e hstep he rfl
  cases phases_stepsTo p hp d step hstep with
  | sized h => exact ⟨.inl rfl, Drawing.size_failure t h he⟩
  | placed => cases (Drawing.place_failure d).symm.trans he
  | separated => cases he
  | compacted => exact ⟨.inr rfl, Drawing.compact_failure t he⟩
  | quiet => cases he

/-! ## Breakdowns -/

/-- Sizing has no answer where the sizer has none, or failed and proportional sizing has none. -/
theorem size_eq_none_iff {d : Drawing α} : d.size sizer = none ↔
    d.hierarchy.hasNesting = true ∧ (sizer.plan d.sizingRequest = none ∨
      ∃ e, sizer.plan d.sizingRequest = some (.error e) ∧
        Proportional.plan d.sizingRequest = none) := by
  have hsize : d.size sizer = none ↔ d.propose sizer = none := by
    unfold Drawing.size
    cases d.propose sizer <;> simp
  rw [hsize, Drawing.propose]
  cases hn : d.hierarchy.hasNesting with
  | false => simp
  | true =>
    cases hp : sizer.plan d.sizingRequest with
    | none => simp
    | some answer =>
      cases answer with
      | ok plan => simp
      | error e =>
        cases hq : Proportional.plan d.sizingRequest <;> simp

section
variable {settings : Settings α} {diagram : Diagram} {h : Hierarchy} {connectors : List Connector}

/-- **A run breaks down in sizing** or not at all. -/
theorem execute_eq_none_iff : execute settings sizer diagram h connectors = none ↔
    (Drawing.prepared diagram settings.layout settings.canvas h connectors).size sizer = none := by
  have hlater : ∀ p ∈ laterPhases (α := α), ∀ d, (p.run d).isSome = true :=
    forall_laterPhases.2 ⟨fun _ => rfl, fun _ => rfl, fun _ => rfl, fun _ => rfl, fun _ => rfl⟩
  rw [execute_eq_sizing, Option.map_eq_none_iff, Option.map_eq_none_iff, Pipeline.execute]
  show ((Drawing.prepared _ _ _ _ _).size sizer).bind _ = none ↔ _
  cases (Drawing.prepared diagram settings.layout settings.canvas h connectors).size sizer with
  | none => simp
  | some step =>
    obtain ⟨run, hrun⟩ := Option.isSome_iff_exists.1 (Pipeline.execute_isSome hlater step.state)
    cases hf : step.failure <;> simp [hf, hrun]

/-! ## Outcomes -/

/-- **The outcome of a run is orderly.** -/
theorem outcome_orderly (t : Hierarchy.TreeOf diagram h) {run : Run (Drawing α)}
    (hrun : execute settings sizer diagram h connectors = some run) :
    (outcome settings run).Orderly diagram := by
  have hnamed := execute_names hrun
  have htree : (Drawing.start diagram settings.layout settings.canvas h connectors).hierarchy = h :=
    rfl
  rw [execute, Pipeline.run, Pipeline.arrange_of_inOrder (phases_inOrder sizer)] at hrun
  rcases Pipeline.execute_cases phases_calm (phases_tree t.toIsTree) htree hrun with
    ⟨hdone, hall⟩ | ⟨hfail, before, p, after, mid, step, e, done, hsplit, hmid, hp, he, -, hreports,
      hall⟩
  · have hnone : run.reports.countP (·.status = .failed) = 0 :=
      countP_failed_eq_zero (by decide) fun r hr => (hall r hr).1
    refine ⟨hnamed, ?_, fun _ => hall, fun hf => ?_⟩
    · show run.status = .failed ↔ run.reports.countP _ = 1
      simp [hdone, hnone]
    · cases hdone.symm.trans hf
  · have hmem : p ∈ phases sizer := by
      rw [hsplit]
      simp
    obtain ⟨hname, v, rfl, hv⟩ := phases_failure t.toIsTree p hmem mid step e hp he hmid
    have hover : (Pipeline.report p.name step.notes (some (.containment v))).FailedOver diagram :=
      report_failedOver t (phases_calm p hmem mid step hp) hv
    have hafter : ∀ q ∈ after.map Pipeline.skipped, q.status = .skipped ∧ q.diagnostics = [] := by
      intro q hq
      obtain ⟨p', -, rfl⟩ := List.mem_map.1 hq
      exact ⟨rfl, rfl⟩
    have hone : run.reports.countP (·.status = .failed) = 1 := by
      have hbefore : done.countP (·.status = .failed) = 0 :=
        countP_failed_eq_zero (by decide) fun r hr => (hall r hr).1
      have hskipped : (after.map Pipeline.skipped).countP (·.status = .failed) = 0 :=
        countP_failed_eq_zero (by decide) fun r hr => (hafter r hr).1
      rw [hreports, List.countP_append, List.countP_cons, hbefore, hskipped, hover.failed]
      rfl
    refine ⟨hnamed, ?_, fun hd => ?_, fun _ => ⟨done, _, _, hreports, hname, hover, hall, hafter⟩⟩
    · show run.status = .failed ↔ run.reports.countP _ = 1
      simp [hfail, hone]
    · cases hfail.symm.trans hd

end

/-- **What a run of the engine comes to**, whatever the diagram, the settings and the sizer. It has
an error exactly when the tree or the connectors have one. It breaks down exactly when containers
are nested and the sizer has no answer, or has failed and proportional sizing has none. Else it has
an orderly outcome. -/
theorem run_orderly (settings : Settings α) (sizer : Sizer α) (diagram : Diagram) :
    (∀ e, run settings sizer diagram = .error e ↔ Hierarchy.extract diagram = .error e ∨
      ∃ h, Hierarchy.extract diagram = .ok h ∧ Connector.derive diagram h = .error e) ∧
    (run settings sizer diagram = .ok none ↔ ∃ h connectors,
      Hierarchy.extract diagram = .ok h ∧ Connector.derive diagram h = .ok connectors ∧
      h.hasNesting = true ∧
      let request :=
        (Drawing.prepared diagram settings.layout settings.canvas h connectors).sizingRequest
      (sizer.plan request = none ∨
        ∃ e, sizer.plan request = some (.error e) ∧ Proportional.plan request = none)) ∧
    ∀ o, run settings sizer diagram = .ok (some o) → o.Orderly diagram := by
  cases hh : Hierarchy.extract diagram with
  | error e =>
    have hrun : run settings sizer diagram = .error e := by
      rw [run, hh]
      rfl
    simp [hrun]
  | ok h =>
    cases hc : Connector.derive diagram h with
    | error e =>
      have hrun : run settings sizer diagram = .error e := run_of_derive_error hh hc
      simp [hrun, hc]
    | ok connectors =>
      have hrun : run settings sizer diagram =
          .ok ((execute settings sizer diagram h connectors).map (outcome settings)) := run_eq hh hc
      refine ⟨fun e => ?_, ?_, fun o ho => ?_⟩
      · simp [hrun, hc]
      · have hnone : run settings sizer diagram = .ok none ↔
            execute settings sizer diagram h connectors = none := by
          rw [hrun]
          simp
        rw [hnone, execute_eq_none_iff, size_eq_none_iff]
        refine ⟨fun hbreak => ⟨h, connectors, rfl, hc, hbreak⟩, ?_⟩
        rintro ⟨_, _, ⟨⟩, hc', hbreak⟩
        cases hc.symm.trans hc'
        exact hbreak
      · rw [hrun] at ho
        obtain ⟨r, hr, rfl⟩ := Option.map_eq_some_iff.1 (Except.ok.inj ho)
        exact outcome_orderly (Hierarchy.extract_treeOf hh) hr

/-! ## A canvas without end -/

/-- A sheet with an area in it. -/
def nested : Diagram := .build "sheet" [.area "A" "sheet"]

/-- The standard settings on a canvas without a right edge. -/
def endless : Settings Float32 := { Settings.standard with render.width := 1.0 / 0.0 }

/-- A sizer that cannot talk to its tool. -/
def unheard : Sizer Float32 := ⟨"dot", fun _ => some (.error (.io "x"))⟩

/-- Whether a run breaks down. -/
def breaksDown (answer : Except DiagramError (Option (Outcome α))) : Bool :=
  match answer with
  | .ok none => true
  | _ => false

omit [Scalar α] in
theorem breaksDown_iff {answer : Except DiagramError (Option (Outcome α))} :
    breaksDown answer = true ↔ answer = .ok none := by
  unfold breaksDown
  split <;> simp_all

/-- There is nothing wrong with this diagram, and yet its run has no outcome: the area gets the
share zero of an infinite width. -/
theorem endless_no_outcome :
    (∃ h connectors, Hierarchy.extract nested = .ok h ∧
      Connector.derive nested h = .ok connectors) ∧
    ¬ ∃ o, run endless unheard nested = .ok (some o) := by
  refine ⟨⟨_, _, rfl, rfl⟩, ?_⟩
  rintro ⟨o, ho⟩
  have hbreak : breaksDown (run endless unheard nested) = true := by decide +kernel
  rw [breaksDown_iff.1 hbreak] at ho
  cases ho

end Engine

end NestedLayout
