import NestedLayout.Proofs.Drawing.Compacted
import NestedLayout.Proofs.Engine.Phases

/-!
# Proportional sizing completes every run

With settings in range, every diagram without errors is laid out to the end when proportional
sizing gives the boxes.

* `proportional_run`: the run, with the ready drawing that sizing makes of the diagram and the
  compaction that shifts nothing.
* `run_completes_inside`: nothing is repaired or shifted, and every element lies in the padded
  interior that its container had after sizing.
* `run_completes_clear`: no element meets a child container of its own container, when half the gap
  up and down exceeds the tolerance in unit space.
-/

set_option autoImplicit false

namespace NestedLayout.Engine

open Scalar (epsilon)

section
variable {settings : Settings ℝ} {diagram : Diagram} {h : Hierarchy}
  {connectors : List Connector}

/-- A run is completed when its boxes have room for everything. -/
theorem completes_of_ready {sizer : Sizer ℝ} {sized : Drawing ℝ} {notes : List Note}
    (hsize : (Drawing.prepared diagram settings.layout settings.canvas h connectors).size sizer =
      some ⟨sized, notes, none⟩) (hr : sized.Ready) :
    ∃ run, execute settings sizer diagram h connectors = some run ∧ run.status = .completed ∧
      Drawing.Compacted sized.furnished run.state := by
  obtain ⟨hf, hcompacted⟩ := Drawing.compact_ready (hr.of_ground sized.furnished_ground)
    (Drawing.furnished_allPlaced hr.tree hr.measured) (Drawing.furnished_inside hr)
    (Drawing.furnished_standing hr.tree)
  obtain ⟨run, hrun, hdone, hstate⟩ := execute_completed_iff.2 ⟨sized, notes, hsize, hf, rfl⟩
  exact ⟨run, hrun, hdone, hstate ▸ hcompacted⟩

variable (connectors) in
/-- The run of a diagram without errors, from the drawing that is ready after sizing. -/
theorem proportional_run (hh : Hierarchy.extract diagram = .ok h) (hs : settings.InRange) :
    let start := Drawing.prepared diagram settings.layout settings.canvas h connectors
    ∃ run sized, execute settings Proportional.sizer diagram h connectors = some run ∧
      run.status = .completed ∧ start.size Proportional.sizer = some ⟨sized, [], none⟩ ∧
      sized.Ready ∧ sized.hierarchy = h ∧ sized.settings = settings.layout ∧
      sized.scale = start.sizingRequest.workingScale ∧
      sized.metrics.containmentCorrections = 0 ∧
      Drawing.Compacted sized.furnished run.state := by
  intro start
  have t := Hierarchy.extract_treeOf hh
  have hq : start.sizingRequest.Proper := Drawing.prepared_proper _ _ t hs.spacing hs.measure
  obtain ⟨sized, hsize, hr, hsh, hset, hscale, hcorr⟩ := Drawing.size_ready hq rfl
  obtain ⟨run, hrun, hdone, hcompacted⟩ := completes_of_ready hsize hr
  exact ⟨run, sized, hrun, hdone, hsize, hr, hsh, hset, hscale, hcorr, hcompacted⟩

end

/-! ## A diagram of two levels -/

/-- An area and a vertex beside it, connected to a vertex in the area. -/
def twoLevels : Diagram :=
  .build "root" [.area "A" "root", .vertex "A" "w" none, .vertex "root" "v" none, .connect "v" "w"]

def twoLevelsTree : Hierarchy where
  root := "root"
  containers := .ofList [("A", ⟨"A", some "root", [], ["w"], 1⟩),
    ("root", ⟨"root", none, ["A"], ["v"], 0⟩)]
  owners := .ofList [("v", "root"), ("w", "A")]

theorem extract_twoLevels : Hierarchy.extract twoLevels = .ok twoLevelsTree := rfl

theorem derive_twoLevels : ∃ cs, Connector.derive twoLevels twoLevelsTree = .ok cs := ⟨_, rfl⟩

/-- The standard canvas is higher than what this diagram needs. -/
theorem twoLevels_height {request : SizingRequest ℝ} (hq : request.Proper)
    (hh : request.hierarchy = twoLevelsTree) (hcanvas : request.canvas = (1200.0, 800.0))
    (hs : request.ledger.spacing = LayoutSettings.standard.spacing)
    (hv : request.extents.get? "v" = some ⟨10.0, 10.0, 0.0, 0.0⟩)
    (hw : request.extents.get? "w" = some ⟨10.0, 10.0, 0.0, 0.0⟩) :
    request.workingScale.height = 800 := by
  have hx : (⟨10.0, 10.0, 0.0, 0.0⟩ : Extent ℝ).Proper := by
    constructor <;> norm_num [Extent.totalWidth, Extent.totalHeight]
  have hA : request.ledger.requirements.get? "A" =
      some (request.ledger.requirementOf request.hierarchy request.extents "A") :=
    hq.required.required (by rw [hh]; rfl)
  have hroot : request.ledger.requirements.get? "root" =
      some (request.ledger.requirementOf request.hierarchy request.extents "root") :=
    hq.required.required (by rw [hh]; rfl)
  rw [SpaceLedger.requirementOf, Requirement.compute, hh, hs] at hA hroot
  rw [show twoLevelsTree.elements "A" = ["w"] from rfl,
    show twoLevelsTree.children "A" = [] from rfl, Requirement.elementFootprint_one hw hx] at hA
  norm_num [Requirement.contentSize, Extent.totalWidth, Extent.totalHeight,
    LayoutSettings.standard, Requirement.ofMinimum, Requirement.childrenFootprint,
    gridShape_zero] at hA
  rw [show twoLevelsTree.elements "root" = ["v"] from rfl,
    show twoLevelsTree.children "root" = ["A"] from rfl, Requirement.elementFootprint_one hv hx,
    Requirement.childrenFootprint_one hA (by norm_num) (by norm_num)] at hroot
  norm_num [Requirement.contentSize, Extent.totalWidth, Extent.totalHeight,
    LayoutSettings.standard, Requirement.ofMinimum] at hroot
  rw [SizingRequest.workingScale, hh, show twoLevelsTree.root = "root" from rfl, hroot, hcanvas]
  norm_num [WorldScale.of]

/-! ## Completion -/

section
variable {settings : Settings ℝ} {diagram : Diagram} {h : Hierarchy}
  {connectors : List Connector}

/-- **Every run with proportional sizing completes** without a repair and without a shift, and
every element lies in the padded interior that its container had after sizing. -/
theorem run_completes_inside (hh : Hierarchy.extract diagram = .ok h)
    (hc : Connector.derive diagram h = .ok connectors) (hs : settings.InRange) :
    ∃ (run : Run (Drawing ℝ)) (sized : Drawing ℝ),
      Engine.run settings Proportional.sizer diagram = .ok (some (outcome settings run)) ∧
      run.status = .completed ∧
      run.state.metrics.containmentCorrections = 0 ∧ run.state.metrics.compactionShifts = 0 ∧
      (Drawing.prepared diagram settings.layout settings.canvas h connectors).size
        Proportional.sizer = some ⟨sized, [], none⟩ ∧
      ∀ e, diagram.elements.contains e = true →
        ∃ c p box, h.owners.get? e = some c ∧ run.state.placements.get? e = some p ∧
          sized.boxes.get? c = some box ∧ p.footprint.Within (sized.inner box) := by
  obtain ⟨run, sized, hrun, hdone, hsize, hr, hsh, -, -, hcorr, hcompacted⟩ :=
    proportional_run connectors hh hs
  have hg := sized.furnished_ground
  have hin : Drawing.Inside sized.furnished := Drawing.furnished_inside hr
  refine ⟨run, sized, ?_, hdone, ?_, hcompacted.shifts, hsize, fun e he => ?_⟩
  · rw [run_eq hh hc, hrun, Option.map_some]
  · rw [hcompacted.corrections, hg.corrections, hcorr]
  · have t := Hierarchy.extract_treeOf hh
    obtain ⟨c, ho⟩ := Table.contains_iff.1 ((t.owned e).trans he)
    have hos : sized.hierarchy.owners.get? e = some c := hsh ▸ ho
    have hof : sized.furnished.hierarchy.owners.get? e = some c := hg.hierarchy ▸ hos
    obtain ⟨p, hp⟩ := Drawing.furnished_allPlaced hr.tree hr.measured hof
    obtain ⟨box, hb⟩ := hr.boxed (hr.tree.known_of_owner hos)
    refine ⟨c, p, box, ho, hcompacted.placements ▸ hp, hb, ?_⟩
    rw [← Drawing.inner_congr hg.settings hg.scale]
    exact hin hof hp (hg.boxes ▸ hb)

/-- The vertex in the area lies in its interior. -/
theorem twoLevels_completes_inside :
    ∃ (run : Run (Drawing ℝ)) (sized : Drawing ℝ) (p : Placement ℝ) (box : Rect ℝ),
      Engine.run Settings.standard Proportional.sizer twoLevels =
        .ok (some (outcome Settings.standard run)) ∧ run.status = .completed ∧
      run.state.metrics.containmentCorrections = 0 ∧ run.state.metrics.compactionShifts = 0 ∧
      run.state.placements.get? "w" = some p ∧ sized.boxes.get? "A" = some box ∧
      p.footprint.Within (sized.inner box) := by
  obtain ⟨cs, hcs⟩ := derive_twoLevels
  obtain ⟨run, sized, hrun, hdone, hcorr, hshifts, -, hall⟩ :=
    run_completes_inside extract_twoLevels hcs Settings.standard_inRange
  obtain ⟨c, p, box, ho, hp, hb, hw⟩ := hall "w" rfl
  obtain rfl : "A" = c := Option.some.inj ho
  exact ⟨run, sized, p, box, hrun, hdone, hcorr, hshifts, hp, hb, hw⟩

/-- **No element meets a child container** of its container in the result. Only the gap up and down
counts: there is always a clear row below the children. -/
theorem run_completes_clear (hh : Hierarchy.extract diagram = .ok h)
    (hc : Connector.derive diagram h = .ok connectors) (hs : settings.InRange)
    (hgap : epsilon ≤
      (Drawing.prepared diagram settings.layout settings.canvas h
        connectors).sizingRequest.workingScale.toUnitY settings.layout.spacing.gap / 2) :
    ∃ run : Run (Drawing ℝ),
      Engine.run settings Proportional.sizer diagram = .ok (some (outcome settings run)) ∧
      run.status = .completed ∧
      run.state.scale = (Drawing.prepared diagram settings.layout settings.canvas h
        connectors).sizingRequest.workingScale ∧
      ∀ {c e b}, h.owners.get? e = some c → h.parent? b = some c →
        ∃ p box, run.state.placements.get? e = some p ∧ run.state.boxes.get? b = some box ∧
          box.intersects p.footprint = false := by
  obtain ⟨run, sized, hrun, hdone, -, hr, hsh, hset, hscale, -, hcompacted⟩ :=
    proportional_run connectors hh hs
  have hg := sized.furnished_ground
  have hgap' : epsilon ≤ sized.unitGap.2 / 2 := by
    rw [Drawing.unitGap, hset, hscale]
    exact hgap
  have hclear : Drawing.Clear run.state := hcompacted.clear (Drawing.furnished_clear hr hgap')
  have hfinal : run.state.hierarchy = h := hcompacted.hierarchy.trans (hg.hierarchy.trans hsh)
  refine ⟨run, ?_, hdone, ?_, fun {c e b} ho hp => ?_⟩
  · rw [run_eq hh hc, hrun, Option.map_some]
  · rw [hcompacted.scale, hg.scale, hscale]
  · have hof : sized.furnished.hierarchy.owners.get? e = some c := by rw [hg.hierarchy, hsh, ho]
    obtain ⟨p, hpl⟩ := Drawing.furnished_allPlaced hr.tree hr.measured hof
    have hknown := Hierarchy.known_of_parent hp
    rw [← hsh, ← hg.hierarchy] at hknown
    obtain ⟨box, hb⟩ := hcompacted.boxed hknown
    rw [← hcompacted.placements] at hpl
    exact ⟨p, box, hpl, hb, hclear (hfinal.symm ▸ ho) (hfinal.symm ▸ hp) hpl hb⟩

end

/-- The vertex beside the area does not meet its box. -/
theorem twoLevels_completes_clear :
    ∃ (run : Run (Drawing ℝ)) (p : Placement ℝ) (box : Rect ℝ),
      Engine.run Settings.standard Proportional.sizer twoLevels =
        .ok (some (outcome Settings.standard run)) ∧ run.status = .completed ∧
      run.state.scale.height = 800 ∧ run.state.placements.get? "v" = some p ∧
      run.state.boxes.get? "A" = some box ∧ box.intersects p.footprint = false := by
  obtain ⟨cs, hcs⟩ := derive_twoLevels
  have hs := Settings.standard_inRange
  have hq := Drawing.prepared_proper (Settings.standard : Settings ℝ).canvas cs
    (Hierarchy.extract_treeOf extract_twoLevels) hs.spacing hs.measure
  have hheight := twoLevels_height hq rfl rfl hq.spacing.symm rfl rfl
  obtain ⟨run, hrun, hdone, hscale, hall⟩ := run_completes_clear extract_twoLevels hcs hs (by
    rw [WorldScale.toUnitY, hheight]
    norm_num [Scalar.epsilon, Settings.standard, LayoutSettings.standard])
  obtain ⟨p, box, hp, hb, hapart⟩ := hall (c := "root") (e := "v") (b := "A") rfl rfl
  exact ⟨run, p, box, hrun, hdone, hscale ▸ hheight, hp, hb, hapart⟩

end NestedLayout.Engine
