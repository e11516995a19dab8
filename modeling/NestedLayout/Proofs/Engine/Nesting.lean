import NestedLayout.Proofs.Engine.Completeness
import NestedLayout.Proofs.Picture.Nested

/-!
# What a completed run means

Whatever a sizer proposes, a completed run ends with tight boxes: `completed_nests`. Every container
with contents has the smallest box around them and the padding, and of two siblings that meet one
contains the other. A picture in unit space shows just these boxes, unless a connector has the id of
an area or an element and takes its place.

* `completed_nestTightly`: the drawing of a completed run nests tightly.
* `completed_picture_iff`: so does its picture, when no connector has taken a place in it.
* `sharedArea_loses_box`: an area in whose place the picture has a connector.
-/

set_option autoImplicit false

namespace NestedLayout.Engine

variable {settings : Settings ℝ} {sizer : Sizer ℝ} {diagram : Diagram} {h : Hierarchy}
  {connectors : List Connector}

/-- What sizing leaves has the padding of the settings, at a scale of at least a pixel. -/
theorem sized_padding_nonneg {d : Drawing ℝ} {step : Step (Drawing ℝ)}
    (hsize : d.size sizer = some step) (hpad : 0 ≤ d.settings.spacing.padding)
    (hsizer : ∀ request plan, sizer.plan request = some (.ok plan) → plan.scale.Proper) :
    0 ≤ step.state.unitPadding.1 ∧ 0 ≤ step.state.unitPadding.2 := by
  obtain ⟨hsub, p, hp, hscale⟩ := Drawing.size_subject hsize
  have hproper : step.state.scale.Proper := hscale ▸ Drawing.propose_scale_proper hp hsizer
  rw [← hsub.settings] at hpad
  exact ⟨div_nonneg hpad hproper.width_pos.le, div_nonneg hpad hproper.height_pos.le⟩

/-- A completed run has furnished a sized drawing of the diagram, with all elements standing, and
compacted it. -/
structure Compacts (diagram : Diagram) (settings : Settings ℝ) (h : Hierarchy)
    (sized final : Drawing ℝ) : Prop where
  hierarchy : sized.hierarchy = h
  tree : sized.hierarchy.IsTree
  extents : sized.extents = diagram.elements.map fun _ e => Extent.of e settings.layout.measure
  settings : sized.settings = settings.layout
  proper : sized.scale.Proper
  padding : 0 ≤ sized.furnished.unitPadding.1 ∧ 0 ≤ sized.furnished.unitPadding.2
  placed : sized.furnished.AllPlaced
  standing : sized.furnished.Standing
  succeeds : sized.furnished.compact.failure = none
  final : final = sized.furnished.compact.state

theorem completed_compacts {run : Run (Drawing ℝ)} (hh : Hierarchy.extract diagram = .ok h)
    (hpad : 0 ≤ settings.layout.spacing.padding)
    (hsizer : ∀ request plan, sizer.plan request = some (.ok plan) → plan.scale.Proper)
    (hrun : execute settings sizer diagram h connectors = some run)
    (hdone : run.status = .completed) :
    ∃ sized, Compacts diagram settings h sized run.state := by
  obtain ⟨sized, notes, hsize, hf, hstate⟩ := execute_completed_iff.1 ⟨run, hrun, hdone, rfl⟩
  obtain ⟨hsub, p, hp, hscale⟩ := Drawing.size_subject hsize
  have hsh : sized.hierarchy = h := hsub.hierarchy
  have t := Hierarchy.extract_treeOf hh
  have ts : sized.hierarchy.IsTree := hsh ▸ t.toIsTree
  have hg := sized.furnished_ground
  exact ⟨sized,
    { hierarchy := hsh
      settings := hsub.settings
      tree := ts
      extents := hsub.extents
      proper := (show sized.scale = p.plan.scale from hscale) ▸
        Drawing.propose_scale_proper hp hsizer
      padding := by
        rw [Drawing.unitPadding, hg.settings, hg.scale]
        exact sized_padding_nonneg hsize hpad hsizer
      placed := Drawing.furnished_allPlaced ts fun {c e} ho => by
        rw [hsub.extents]
        exact Drawing.prepared_measured _ _ t (hsh ▸ ho)
      standing := Drawing.furnished_standing ts
      succeeds := hf
      final := hstate }⟩

section
variable {sized final : Drawing ℝ} (hs : Compacts diagram settings h sized final)
include hs

theorem Compacts.furnished_hierarchy : sized.furnished.hierarchy = h :=
  sized.furnished_ground.hierarchy.trans hs.hierarchy

theorem Compacts.furnished_tree : sized.furnished.hierarchy.IsTree :=
  sized.furnished_ground.hierarchy.symm ▸ hs.tree

/-- What it ends with is tight all over, in valid boxes. -/
theorem Compacts.tight :
    Drawing.Tight sized.furnished sized.furnished.hierarchy.postOrder final ∧
      Containment.Valid sized.furnished.hierarchy sized.furnished.unitPadding final.boxes := by
  rw [hs.final]
  exact Drawing.compact_tight hs.furnished_tree hs.padding hs.placed hs.standing hs.succeeds

end

/-- A completed run ends with a drawing that is tight all over, in valid boxes. -/
theorem completed_tight {run : Run (Drawing ℝ)} (hh : Hierarchy.extract diagram = .ok h)
    (hpad : 0 ≤ settings.layout.spacing.padding)
    (hsizer : ∀ request plan, sizer.plan request = some (.ok plan) → plan.scale.Proper)
    (hrun : execute settings sizer diagram h connectors = some run)
    (hdone : run.status = .completed) :
    ∃ d, d.hierarchy = h ∧ Drawing.Tight d h.postOrder run.state ∧
      Containment.Valid h d.unitPadding run.state.boxes := by
  obtain ⟨sized, hs⟩ := completed_compacts hh hpad hsizer hrun hdone
  obtain ⟨htight, hvalid⟩ := hs.tight
  rw [hs.furnished_hierarchy] at htight hvalid
  exact ⟨sized.furnished, hs.furnished_hierarchy, htight, hvalid⟩

/-- The drawing of a completed run nests tightly. -/
theorem completed_nestTightly {run : Run (Drawing ℝ)} (hh : Hierarchy.extract diagram = .ok h)
    (hpad : 0 ≤ settings.layout.spacing.padding)
    (hsizer : ∀ request plan, sizer.plan request = some (.ok plan) → plan.scale.Proper)
    (hrun : execute settings sizer diagram h connectors = some run)
    (hdone : run.status = .completed) :
    run.state.regions.NestTightly h run.state.unitPadding := by
  obtain ⟨d, rfl, htight, hvalid⟩ := completed_tight hh hpad hsizer hrun hdone
  rw [htight.unitPadding]
  exact htight.nestTightly (Hierarchy.extract_treeOf hh).toIsTree hvalid

/-- **What a picture in unit space shows of a completed run.** It has the boxes and the footprints
of the drawing, and nests as tightly, exactly when no connector has the id of an area or an
element. -/
theorem completed_picture_iff {run : Run (Drawing ℝ)} (hh : Hierarchy.extract diagram = .ok h)
    (hc : Connector.derive diagram h = .ok connectors)
    (hpad : 0 ≤ settings.layout.spacing.padding)
    (hsizer : ∀ request plan, sizer.plan request = some (.ok plan) → plan.scale.Proper)
    (hrun : execute settings sizer diagram h connectors = some run)
    (hdone : run.status = .completed) (hspace : settings.render.space = .unit) :
    ((outcome settings run).picture.regions = run.state.regions ↔
      Connector.Apart diagram connectors) ∧
    ((outcome settings run).picture.regions.NestTightly h run.state.unitPadding ↔
      Connector.Apart diagram connectors) := by
  have hnests := completed_nestTightly hh hpad hsizer hrun hdone
  obtain ⟨d, hdh, htight, -⟩ := completed_tight hh hpad hsizer hrun hdone
  obtain ⟨hd, hhi, hcs, hcomplete⟩ := completed_complete hh hc hrun hdone
  have hidsApart := Hierarchy.ids_apart hh
  have t := Hierarchy.extract_treeOf hh
  have hdistinct := Connector.derive_spec hc
  have hupright : ∀ {id box}, h.containers.contains id = true →
      run.state.boxes.get? id = some box → box.Upright := fun {id box} hid hb => by
    subst hdh
    obtain ⟨box', hb', hup⟩ := htight.boxed_of_known t.toIsTree hid
    cases hb.symm.trans hb'
    exact hup
  subst hd hhi hcs
  exact ⟨Picture.ofDrawing_regions_iff hspace t hcomplete hdistinct hidsApart hupright
      htight.standing,
    Picture.ofDrawing_nestTightly_iff hspace t hcomplete hdistinct hidsApart hupright
      htight.standing hnests⟩

/-- **A completed run nests tightly**, whatever the sizer: the box of a container with contents is
the hull of the boxes and footprints directly in it, grown by the padding, so that these lie in its
padded interior; and siblings are apart or one contains the other. A picture in unit space shows
just this exactly when no connector has the id of an area or an element. -/
theorem completed_nests {run : Run (Drawing ℝ)} (hh : Hierarchy.extract diagram = .ok h)
    (hc : Connector.derive diagram h = .ok connectors)
    (hpad : 0 ≤ settings.layout.spacing.padding)
    (hsizer : ∀ request plan, sizer.plan request = some (.ok plan) → plan.scale.Proper)
    (hrun : execute settings sizer diagram h connectors = some run)
    (hdone : run.status = .completed) :
    run.state.regions.NestTightly h run.state.unitPadding ∧
    (settings.render.space = .unit →
      ((outcome settings run).picture.regions = run.state.regions ↔
        Connector.Apart diagram connectors) ∧
      ((outcome settings run).picture.regions.NestTightly h run.state.unitPadding ↔
        Connector.Apart diagram connectors)) :=
  ⟨completed_nestTightly hh hpad hsizer hrun hdone,
    completed_picture_iff hh hc hpad hsizer hrun hdone⟩

/-- Standard settings for a picture in unit space. -/
noncomputable def unitSpace : Settings ℝ := { Settings.standard with render.space := .unit }

theorem unitSpace_inRange : unitSpace.InRange := by
  obtain ⟨hspacing, hmeasure, hsizing, hwidth, hheight⟩ := Settings.standard_inRange
  exact ⟨hspacing, hmeasure, hsizing, hwidth, hheight⟩

/-- Proportional sizing always has a scale of at least a pixel. -/
theorem proportional_proper (request : SizingRequest ℝ) (plan : SizingPlan ℝ)
    (h : Proportional.sizer.plan request = some (.ok plan)) : plan.scale.Proper := by
  obtain ⟨plan', hplan, he⟩ := Option.map_eq_some_iff.1 h
  cases he
  exact Proportional.plan_scale hplan ▸ Proportional.workingScale_proper _

/-- With proportional sizing the root is shown around the area and the vertex beside it. -/
theorem twoLevels_nests :
    ∃ (run : Run (Drawing ℝ)) (root area v : Rect ℝ),
      execute unitSpace Proportional.sizer twoLevels twoLevelsTree
        [⟨"v--w", ["v", "w"], "v", "root"⟩] = some run ∧ run.status = .completed ∧
      (outcome unitSpace run).picture.regions.box? "root" = some root ∧
      (outcome unitSpace run).picture.regions.box? "A" = some area ∧
      (outcome unitSpace run).picture.regions.footprint? "v" = some v ∧
      (∃ hull, Rect.IsHull [area, v] hull ∧
        root = hull.inflate run.state.unitPadding.1 run.state.unitPadding.2) ∧
      area.Within (root.deflate run.state.unitPadding.1 run.state.unitPadding.2) ∧
      v.Within (root.deflate run.state.unitPadding.1 run.state.unitPadding.2) := by
  have hs := unitSpace_inRange
  have hc : Connector.derive twoLevels twoLevelsTree =
      .ok [⟨"v--w", ["v", "w"], "v", "root"⟩] := rfl
  obtain ⟨run, -, hrun, hdone, -⟩ :=
    proportional_run [⟨"v--w", ["v", "w"], "v", "root"⟩] extract_twoLevels hs
  have hapart : Connector.Apart twoLevels [⟨"v--w", ["v", "w"], "v", "root"⟩] := by
    intro c hmem
    obtain rfl := List.mem_singleton.1 hmem
    exact ⟨rfl, rfl⟩
  obtain ⟨-, hpicture⟩ :=
    completed_nests extract_twoLevels hc hs.spacing.padding proportional_proper hrun hdone
  have hn := (hpicture rfl).2.2 hapart
  obtain ⟨root, area, hroot, harea, hin⟩ := hn.child (c := "root") (b := "A") (.head _)
  obtain ⟨root', v, hroot', hv, hin'⟩ := hn.element (c := "root") (e := "v") (.head _)
  cases hroot.symm.trans hroot'
  obtain ⟨hull, hhull, hroot'⟩ := hn.tight (c := "root") (.inl (List.cons_ne_nil _ _))
  cases hroot.symm.trans hroot'
  refine ⟨run, _, area, v, hrun, hdone, hroot, harea, hv, ⟨hull, ?_, rfl⟩, hin, hin'⟩
  have hcontents : (outcome unitSpace run).picture.regions.contents twoLevelsTree "root" =
      [area, v] := by
    have hareas : twoLevelsTree.children "root" = ["A"] := rfl
    have hvertices : twoLevelsTree.elements "root" = ["v"] := rfl
    simp only [Regions.contents, hareas, hvertices, List.filterMap_cons, harea, hv,
      List.filterMap_nil, List.cons_append, List.nil_append]
  exact hcontents ▸ hhull

/-! ## A connector in the place of an area -/

/-- A predicate in an area, a vertex beside it, and a connector between them with the id of the
area. -/
def sharedArea : Diagram where
  root := "sheet"
  areas := .ofList [("A", ⟨none, ["p"]⟩), ("sheet", ⟨none, ["A", "v"]⟩)]
  elements := .ofList [("p", ⟨.predicate, "P", []⟩), ("v", ⟨.vertex, "", []⟩)]
  connections := [⟨some "A", ["p", "v"]⟩]

/-- **The picture has no box of the area**, although the run completes. -/
theorem sharedArea_loses_box : ∃ (run : Run (Drawing ℝ)) (h : Hierarchy) (cs : List Connector),
    Hierarchy.extract sharedArea = .ok h ∧ Connector.derive sharedArea h = .ok cs ∧
      unitSpace.InRange ∧ unitSpace.render.space = .unit ∧
      execute unitSpace Proportional.sizer sharedArea h cs = some run ∧ run.status = .completed ∧
      h.elements "A" = ["p"] ∧ (outcome unitSpace run).picture.regions.box? "A" = none ∧
      ¬ (outcome unitSpace run).picture.regions.NestTightly h run.state.unitPadding := by
  obtain ⟨h, hh⟩ : ∃ h, Hierarchy.extract sharedArea = .ok h := ⟨_, rfl⟩
  have hc : Connector.derive sharedArea h = .ok [⟨"A", ["p", "v"], "p", "sheet"⟩] := by
    cases hh
    rfl
  have helements : h.elements "A" = ["p"] := by
    cases hh
    rfl
  have hs := unitSpace_inRange
  obtain ⟨run, -, hrun, hdone, -⟩ := proportional_run [⟨"A", ["p", "v"], "p", "sheet"⟩] hh hs
  obtain ⟨-, -, hcs, hcomplete⟩ := completed_complete hh hc hrun hdone
  obtain ⟨f, hf, hkind, -⟩ : ∃ f, (outcome unitSpace run).picture.figures.get? "A" = some f ∧
      f.kind = .connector ∧ f.footprint = none :=
    Picture.figures_get?_of_connector (c := ⟨"A", ["p", "v"], "p", "sheet"⟩) hcomplete
      (hcs ▸ (Connector.derive_spec hc).ids) (hcs ▸ .head _)
  have hnone : (outcome unitSpace run).picture.regions.box? "A" = none := by
    simp [Picture.regions, hf, hkind]
  refine ⟨run, h, _, hh, hc, hs, rfl, hrun, hdone, helements, hnone, fun hn => ?_⟩
  obtain ⟨box, -, hbox, -⟩ := hn.element (c := "A") (e := "p") (helements ▸ .head _)
  cases hnone.symm.trans hbox

end NestedLayout.Engine
