import NestedLayout.Proofs.Engine.Completion
import NestedLayout.Proofs.Listing

/-!
# Nothing is lost in a completed run

Whatever the sizer and the settings, a completed run ends with a complete drawing of its diagram:
`completed_complete`. Its picture and its listing lose nothing exactly when no connector has the id
of an area or an element (`completed_loses_nothing_iff`). The ids of connectors are made different
from each other, but they are not compared with the others, and a connector with the id of an
element hides it.
-/

set_option autoImplicit false

namespace NestedLayout.Engine

section
variable {α : Type} [Scalar α] {settings : Settings α} {sizer : Sizer α} {diagram : Diagram}
  {h : Hierarchy} {connectors : List Connector}

/-- **A completed run ends with a complete drawing** of the diagram. -/
theorem completed_complete {run : Run (Drawing α)} (hh : Hierarchy.extract diagram = .ok h)
    (hc : Connector.derive diagram h = .ok connectors)
    (hrun : execute settings sizer diagram h connectors = some run)
    (hdone : run.status = .completed) :
    run.state.diagram = diagram ∧ run.state.hierarchy = h ∧ run.state.connectors = connectors ∧
      run.state.Complete := by
  obtain ⟨sized, notes, hsize, hf, hstate⟩ := execute_completed_iff.1 ⟨run, hrun, hdone, rfl⟩
  obtain ⟨hsub, -⟩ := Drawing.size_subject hsize
  have hsd : sized.diagram = diagram := hsub.diagram
  have hsh : sized.hierarchy = h := hsub.hierarchy
  have hsc : sized.connectors = connectors := hsub.connectors
  have t := Hierarchy.extract_treeOf hh
  have hdistinct := Connector.derive_spec hc
  have ts : sized.hierarchy.IsTree := hsh ▸ t.toIsTree
  have hfh : sized.furnished.hierarchy = sized.hierarchy := sized.furnished_ground.hierarchy
  obtain ⟨hfd, hfc, hplaced, hhooked⟩ := Drawing.furnished_cast ts
    (fun {c e} ho => by
      rw [hsub.extents]
      exact Drawing.prepared_measured _ _ t (hsh ▸ ho))
    fun c hmem => (hdistinct.joining c (hsc ▸ hmem)).hub
  obtain ⟨hd, hhi, hcs, hcomplete⟩ := Drawing.compact_complete (hfh.symm ▸ ts)
    (by rw [hfd, hfc, hsd, hsc]; exact hdistinct) (fun e => (hfh.symm ▸ hplaced e)) hhooked hf
  rw [hstate]
  exact ⟨hd.trans (hfd.trans hsd), hhi.trans (hfh.trans hsh), hcs.trans (hfc.trans hsc), hcomplete⟩

/-- The picture of a completed run shows everything exactly when the ids are apart. -/
theorem completed_showsAll_iff {run : Run (Drawing α)} (hh : Hierarchy.extract diagram = .ok h)
    (hc : Connector.derive diagram h = .ok connectors)
    (hrun : execute settings sizer diagram h connectors = some run)
    (hdone : run.status = .completed) :
    (outcome settings run).picture.ShowsAll diagram h connectors ↔
      Connector.Apart diagram connectors := by
  obtain ⟨hd, hhi, hcs, hcomplete⟩ := completed_complete hh hc hrun hdone
  have hidsApart := Hierarchy.ids_apart hh
  have t := Hierarchy.extract_treeOf hh
  have hdistinct := Connector.derive_spec hc
  subst hd hhi hcs
  exact Picture.ofDrawing_showsAll_iff t hcomplete hdistinct hidsApart

/-- **A completed run loses nothing** in its picture and in its listing exactly when no connector
has the id of an area or an element. -/
theorem completed_loses_nothing_iff {o : Outcome α} (hh : Hierarchy.extract diagram = .ok h)
    (hc : Connector.derive diagram h = .ok connectors)
    (ho : run settings sizer diagram = .ok (some o)) (hdone : o.status = .completed) :
    o.picture.ShowsAll diagram h connectors ∧
        (Listing.ofOutcome o).ListsAll o.picture diagram h connectors ↔
      Connector.Apart diagram connectors := by
  rw [run_eq hh hc] at ho
  obtain ⟨run, hrun, rfl⟩ := Option.map_eq_some_iff.1 (Except.ok.inj ho)
  have hiff := completed_showsAll_iff hh hc hrun hdone
  refine ⟨fun hall => hiff.1 hall.1, fun hapart => ?_⟩
  have hshows := hiff.2 hapart
  exact ⟨hshows, hshows.listsAll (Connector.derive_spec hc)⟩

end

/-- The connector between the two vertices has an id of its own. -/
theorem twoLevels_loses_nothing : ∃ (o : Outcome ℝ) (cs : List Connector),
    run Settings.standard Proportional.sizer twoLevels = .ok (some o) ∧ o.status = .completed ∧
      o.picture.ShowsAll twoLevels twoLevelsTree cs ∧
      (Listing.ofOutcome o).ListsAll o.picture twoLevels twoLevelsTree cs := by
  obtain ⟨r, -, hrun, hdone, -⟩ :=
    proportional_run [⟨"v--w", ["v", "w"], "v", "root"⟩] extract_twoLevels Settings.standard_inRange
  have hc : Connector.derive twoLevels twoLevelsTree =
      .ok [⟨"v--w", ["v", "w"], "v", "root"⟩] := rfl
  have ho : run Settings.standard Proportional.sizer twoLevels =
      .ok (some (outcome Settings.standard r)) := by
    rw [run_eq extract_twoLevels hc, hrun]
    rfl
  have hapart : Connector.Apart twoLevels [⟨"v--w", ["v", "w"], "v", "root"⟩] := by
    intro c hmem
    obtain rfl := List.mem_singleton.1 hmem
    exact ⟨rfl, rfl⟩
  obtain ⟨hshows, hlists⟩ := (completed_loses_nothing_iff extract_twoLevels hc ho hdone).2 hapart
  exact ⟨_, _, ho, hdone, hshows, hlists⟩

/-! ## A connector in the place of an element -/

/-- A predicate and a vertex on a sheet, and a connector between them with the id of the vertex. -/
def sharedId : Diagram where
  root := "sheet"
  areas := .ofList [("sheet", ⟨none, ["p", "v"]⟩)]
  elements := .ofList [("p", ⟨.predicate, "P", []⟩), ("v", ⟨.vertex, "", []⟩)]
  connections := [⟨some "v", ["p", "v"]⟩]

/-- The run completes, and the vertex is lost. -/
theorem sharedId_loses_vertex : ∃ (o : Outcome ℝ) (h : Hierarchy) (cs : List Connector),
    Hierarchy.extract sharedId = .ok h ∧ Connector.derive sharedId h = .ok cs ∧
      run Settings.standard Proportional.sizer sharedId = .ok (some o) ∧ o.status = .completed ∧
      ¬ o.picture.ShowsAll sharedId h cs := by
  obtain ⟨h, hh⟩ : ∃ h, Hierarchy.extract sharedId = .ok h := ⟨_, rfl⟩
  obtain ⟨cs, hc⟩ : ∃ cs, Connector.derive sharedId h = .ok cs := by
    cases hh
    exact ⟨_, rfl⟩
  obtain ⟨r, -, hrun, hdone, -⟩ := proportional_run cs hh Settings.standard_inRange
  have ho : run Settings.standard Proportional.sizer sharedId =
      .ok (some (outcome Settings.standard r)) := by
    rw [run_eq hh hc, hrun]
    rfl
  refine ⟨_, h, cs, hh, hc, ho, hdone, fun hshows => ?_⟩
  have hapart := (completed_showsAll_iff hh hc hrun hdone).1 hshows
  cases hh
  cases hc
  obtain ⟨-, helement⟩ := hapart _ (.head _)
  cases helement

end NestedLayout.Engine
