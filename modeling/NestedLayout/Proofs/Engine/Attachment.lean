import NestedLayout.Proofs.Binary32.Identity
import NestedLayout.Proofs.Drawing.Attached
import NestedLayout.Proofs.Engine.Reports

/-!
# Routes and hooks of an outcome

In an outcome each path runs from the hook of its hub to the hook of the last of its other
endpoints, also when the run failed: a run that fails in sizing has no paths yet, and one that fails
over its final boxes has drawn them anew. Only a run that moved siblings and gave up on them shows
hooks that have moved and paths that have not.

* `execute_ends`: a run ends in sizing or in compaction.
* `execute_attached`: the routes of a run are attached to its hooks unless compaction gave up.
* `run_attached`: so are the paths that a run shows in unit space. `crowded_not_attached` is a run
  that gave up.
-/

set_option autoImplicit false

namespace NestedLayout

/-- The report of a compaction that could not get two siblings apart. -/
def PhaseReport.GaveUp (r : PhaseReport) : Prop :=
  r.name = "compaction" ∧ r.status = .failed ∧
    ∃ a b, (Note.ofError (.containment (.unseparated a b))).at "compaction" ∈ r.diagnostics

namespace Engine

section
variable {α : Type} [Scalar α] {settings : Settings α} {sizer : Sizer α} {diagram : Diagram}
  {h : Hierarchy} {connectors : List Connector}

/-- The phases after sizing all run, and the last one decides. -/
theorem execute_later (d : Drawing α) :
    ∃ run, Pipeline.execute laterPhases d = some run ∧ run.state = d.furnished.compact.state ∧
      Pipeline.report "compaction" d.furnished.compact.notes d.furnished.compact.failure ∈
        run.reports := by
  have hplaced : positioningPhase.run d = some d.place := rfl
  have hseparated : collisionsPhase.run d.place.state = some d.place.state.separate := rfl
  have hfurnished : d.place.state.separate.state.attachHooks.route = d.furnished := rfl
  have hcompacted : compactionPhase.run d.furnished = some d.furnished.compact := rfl
  obtain ⟨last, hlast, hstate, hreports⟩ := Pipeline.execute_last hcompacted
  rw [laterPhases, Pipeline.execute_cons hplaced (Drawing.place_failure d),
    Pipeline.execute_cons hseparated rfl, hooksPhase, Pipeline.execute_quiet, routingPhase,
    Pipeline.execute_quiet, hfurnished, hlast]
  refine ⟨_, rfl, hstate, ?_⟩
  simp [Run.after, hreports, compactionPhase]

/-- **A run ends in sizing or in compaction.** -/
theorem execute_ends {run : Run (Drawing α)}
    (hrun : execute settings sizer diagram h connectors = some run) :
    ∃ step, (Drawing.prepared diagram settings.layout settings.canvas h connectors).size sizer =
        some step ∧
      (run.state = step.state ∧ step.failure ≠ none ∨
        run.state = step.state.furnished.compact.state ∧
          Pipeline.report "compaction" step.state.furnished.compact.notes
            step.state.furnished.compact.failure ∈ run.reports) := by
  rw [execute_eq_sizing, Option.map_map] at hrun
  obtain ⟨sizing, hsizing, rfl⟩ := Option.map_eq_some_iff.1 hrun
  obtain ⟨step, hstep, hrest⟩ := Option.bind_eq_some_iff.1 hsizing
  refine ⟨step, hstep, ?_⟩
  cases hf : step.failure with
  | some e =>
    rw [hf] at hrest
    cases hrest
    exact .inl ⟨rfl, by simp⟩
  | none =>
    obtain ⟨later, hlater, hstate, hmem⟩ := execute_later step.state
    rw [Pipeline.execute_cons hstep hf, hlater] at hsizing
    cases hsizing
    refine .inr ⟨hstate, ?_⟩
    simp [Run.after, hmem]

/-- Compaction moved siblings and could not get them apart. -/
def GaveUp (settings : Settings α) (reports : List PhaseReport) : Prop :=
  settings.layout.sizing.containmentRetries ≠ 0 ∧ ∃ r ∈ reports, r.GaveUp

omit [Scalar α] in
theorem gaveUp_report {notes : List Note} {a b : String} :
    (Pipeline.report "compaction" notes (some (.containment (.unseparated a b)))).GaveUp :=
  ⟨rfl, rfl, a, b, List.mem_map_of_mem (by simp)⟩

/-- **A run ends with its routes attached**, unless compaction gave up. -/
theorem execute_attached (hh : Hierarchy.extract diagram = .ok h)
    (hc : Connector.derive diagram h = .ok connectors) {run : Run (Drawing α)}
    (hrun : execute settings sizer diagram h connectors = some run) :
    run.state.connectors = connectors ∧ (run.state.Attached ∨ GaveUp settings run.reports) := by
  obtain ⟨step, hsize, hend⟩ := execute_ends hrun
  obtain ⟨hsub, -⟩ := Drawing.size_subject hsize
  rcases hend with ⟨hstate, -⟩ | ⟨hstate, hreport⟩
  · rw [hstate]
    refine ⟨hsub.connectors, .inl fun c _ path hpath => ?_⟩
    rw [Drawing.size_routes hsize] at hpath
    cases hpath
  · have t := Hierarchy.extract_treeOf hh
    have htree : step.state.hierarchy.IsTree := hsub.hierarchy.symm ▸ t.toIsTree
    have hdistinct : Connector.Distinct step.state.diagram step.state.connectors := by
      rw [hsub.diagram, hsub.connectors]
      exact Connector.derive_spec hc
    have hmeasured : ∀ {c e}, step.state.hierarchy.owners.get? e = some c →
        ∃ x, step.state.extents.get? e = some x := fun ho => by
      rw [hsub.extents]
      exact Drawing.prepared_measured _ _ t (hsub.hierarchy ▸ ho)
    obtain ⟨hconnectors, hall⟩ := Drawing.furnished_compact_attached htree hmeasured hdistinct
    rw [hstate]
    refine ⟨hconnectors.trans hsub.connectors, hall.imp_right ?_⟩
    rintro ⟨hretries, a, b, hfail⟩
    rw [hsub.settings] at hretries
    rw [hfail] at hreport
    exact ⟨hretries, _, hreport, gaveUp_report⟩

end

/-! ## Pictures in unit space -/

section
variable {settings : Settings Float32} {sizer : Sizer Float32} {diagram : Diagram} {h : Hierarchy}
  {connectors : List Connector}

/-- In unit space the output map is the identity. -/
theorem projection_unit {render : RenderSettings Float32} (hspace : render.space = .unit)
    (d : Drawing Float32) : (Picture.projection d render).map = .identity := by
  simp only [Picture.projection, hspace]

/-- **Paths and hooks agree in every outcome in unit space**, whatever the settings and the sizer:
each connector that is shown has a path from the hook of its hub to the hook of the last of its
other endpoints by angle. The exception is a run in which compaction moved siblings and then gave
up on them. -/
theorem run_attached (hh : Hierarchy.extract diagram = .ok h)
    (hc : Connector.derive diagram h = .ok connectors) {r : Run (Drawing Float32)}
    (hr : execute settings sizer diagram h connectors = some r)
    (hspace : settings.render.space = .unit) :
    run settings sizer diagram = .ok (some (outcome settings r)) ∧
      ((outcome settings r).picture.Attached connectors r.state.placements ∨
        GaveUp settings (outcome settings r).phases) := by
  refine ⟨by rw [run_eq hh hc, hr]; rfl, ?_⟩
  obtain ⟨hconnectors, hall⟩ := execute_attached hh hc hr
  refine hall.imp_left fun ha => ?_
  rw [← hconnectors]
  refine Picture.ofDrawing_attached ha fun p q hnear => ?_
  rw [projection_unit hspace, Binary32.near_identity]
  exact hnear

end

/-- Settings in unit space under which compaction moves nothing. -/
def inUnits : Settings Float32 :=
  { Settings.standard with render.space := .unit, layout.sizing.containmentRetries := 0 }

/-- The connector between the two vertices. -/
def betweenLevels : Connector := ⟨"v--w", ["v", "w"], "v", "root"⟩

theorem twoLevels_attached : ∃ r,
    execute inUnits Proportional.sizer twoLevels twoLevelsTree [betweenLevels] = some r ∧
      inUnits.render.space = .unit ∧
      run inUnits Proportional.sizer twoLevels = .ok (some (outcome inUnits r)) ∧
      (outcome inUnits r).picture.Attached [betweenLevels] r.state.placements := by
  have hc : Connector.derive twoLevels twoLevelsTree = .ok [betweenLevels] := rfl
  have hsize : ((Drawing.prepared twoLevels inUnits.layout inUnits.canvas twoLevelsTree
      [betweenLevels]).size Proportional.sizer).isSome = true := by decide +kernel
  have hsome := mt execute_eq_none_iff.1 (Option.isSome_iff_ne_none.1 hsize)
  obtain ⟨r, hr⟩ := Option.ne_none_iff_exists'.1 hsome
  obtain ⟨hrun, hall⟩ := run_attached extract_twoLevels hc hr rfl
  exact ⟨r, hr, rfl, hrun, hall.resolve_right fun hgave => hgave.1 rfl⟩

/-! ## A run that gave up -/

/-- Whether the path of a connector stops away from the hook at an endpoint. -/
def missesStop (d : Drawing Float32) (c : Connector) (stop : String) : Bool :=
  match d.routes.get? c.id, HookTable.hook? d.hooks c stop with
  | some path, some hook => match path.getLast? with
    | some p => !hook.point.near p && p.near p
    | none => false
  | _, _ => false

/-- A drawing with a path that stops away from its hook has no attached picture in unit space. -/
theorem not_attached_of_missesStop {d : Drawing Float32} {render : RenderSettings Float32}
    (hspace : render.space = .unit) {c : Connector} {stop : String} (hcs : d.connectors = [c])
    (hothers : c.others = [stop]) (hmiss : missesStop d c stop = true) :
    ¬ (Picture.ofDrawing d render).Attached [c] d.placements := by
  have hmap := projection_unit hspace d
  have hangle : (c.othersByAngle d.placements).map (·.2) = [stop] :=
    List.perm_singleton.1 (hothers ▸ c.othersByAngle_perm d.placements)
  unfold missesStop at hmiss
  split at hmiss
  · rename_i path hook hpath hhook
    split at hmiss
    · rename_i p hp
      rw [Bool.and_eq_true, Bool.not_eq_true'] at hmiss
      obtain ⟨start, rest, rfl⟩ : ∃ start rest, path = start :: rest := by
        cases path with
        | nil => cases hp
        | cons start rest => exact ⟨start, rest, rfl⟩
      intro hattached
      have hfigure : (Picture.ofDrawing d render).figures.get? c.id = some _ :=
        Picture.figures_get?_last (by rw [hcs]; rfl)
          (by rw [Picture.routeFigure?, hpath]; rfl) rfl
      obtain ⟨c', hmem, -, hc'⟩ := hattached _ _ hfigure rfl
      obtain rfl := List.mem_singleton.1 hmem
      obtain ⟨id, hook', p', hid, hhook', hp', hmeets⟩ := hc'.stop
      rw [hangle] at hid
      obtain rfl : stop = id := Option.some.inj hid
      -- The picture shows the hook and the end of the path as they are.
      have hpicture : (Picture.ofDrawing d render).hooks = d.hooks.map fun _ hook =>
          { hook with point := AxisMap.identity.apply hook.point } := by
        rw [← hmap]
        rfl
      rw [hpicture, HookTable.hook?_map, hhook] at hhook'
      cases hhook'
      have hshown : ((start :: rest).map (Picture.projection d render).map.apply).getLast? =
          some p' := hp'
      rw [hmap, List.getLast?_map, hp] at hshown
      cases hshown
      have hfar : (AxisMap.identity.apply hook.point).near (AxisMap.identity.apply p) = false :=
        (Binary32.near_identity ..).trans hmiss.1
      have hself : (AxisMap.identity.apply p).near (AxisMap.identity.apply p) = true :=
        (Binary32.near_identity ..).trans hmiss.2
      rcases hmeets with heq | hnear
      · exact Bool.false_ne_true (hfar.symm.trans (heq ▸ hself))
      · exact Bool.false_ne_true (hfar.symm.trans hnear)
    · cases hmiss
  · cases hmiss

/-- Two areas with a predicate each, connected to one another, and an empty area. -/
def crowded : Diagram where
  root := "sheet"
  areas := .ofList [("sheet", ⟨none, ["A", "B", "C"]⟩), ("A", ⟨none, ["a"]⟩), ("B", ⟨none, []⟩),
    ("C", ⟨none, ["c"]⟩)]
  elements := .ofList [("a", ⟨.predicate, "", ["c"]⟩), ("c", ⟨.predicate, "", []⟩)]
  connections := []

def crowdedTree : Hierarchy where
  root := "sheet"
  containers := .ofList [("A", ⟨"A", some "sheet", [], ["a"], 1⟩),
    ("B", ⟨"B", some "sheet", [], [], 1⟩), ("C", ⟨"C", some "sheet", [], ["c"], 1⟩),
    ("sheet", ⟨"sheet", none, ["A", "B", "C"], [], 0⟩)]
  owners := .ofList [("a", "A"), ("c", "C")]

/-- A sizer with the boxes of the crowded sheet, whatever it is asked: `C` has little room to the
left of `A`, and `B` lies below the two. -/
def pinned : Sizer Float32 where
  name := "pinned"
  plan _ := some (.ok ⟨.ofList [("sheet", ⟨0.0, 0.0, 1.0, 1.0⟩), ("A", ⟨0.59, 0.2, 0.69, 0.3⟩),
    ("B", ⟨0.4, 0.68, 0.42, 0.7⟩), ("C", ⟨0.3, 0.32, 0.4, 0.42⟩)], ⟨100.0, 100.0⟩, .empty,
    .direct, 0⟩)

/-- Straight routes in unit space, and one attempt to get siblings apart. -/
def oneAttempt : Settings Float32 :=
  { Settings.standard with
    render.space := .unit, layout.spacing.padding := 1.0, layout.spacing.gap := 1.0,
    layout.sizing.containmentRetries := 1, layout.routing.style := .straight }

def acrossAreas : Connector := ⟨"a--c", ["a", "c"], "a", "sheet"⟩

set_option maxRecDepth 100000 in
/-- The attempt moves `C` with the hook at its predicate, and the path still goes to where that
was. -/
theorem crowded_not_attached : ∃ r,
    Hierarchy.extract crowded = .ok crowdedTree ∧
      Connector.derive crowded crowdedTree = .ok [acrossAreas] ∧
      execute oneAttempt pinned crowded crowdedTree [acrossAreas] = some r ∧
      run oneAttempt pinned crowded = .ok (some (outcome oneAttempt r)) ∧
      oneAttempt.render.space = .unit ∧
      ¬ (outcome oneAttempt r).picture.Attached [acrossAreas] r.state.placements := by
  have hh : Hierarchy.extract crowded = .ok crowdedTree := rfl
  have hc : Connector.derive crowded crowdedTree = .ok [acrossAreas] := rfl
  have hmiss : (execute oneAttempt pinned crowded crowdedTree [acrossAreas]).any
      (fun r => missesStop r.state acrossAreas "c") = true := by decide +kernel
  obtain ⟨r, hr, hmiss⟩ := (Option.any_eq_true ..).1 hmiss
  refine ⟨r, hh, hc, hr, by rw [run_eq hh hc, hr]; rfl, rfl, ?_⟩
  exact not_attached_of_missesStop rfl (execute_attached hh hc hr).1 rfl hmiss

end Engine

end NestedLayout
