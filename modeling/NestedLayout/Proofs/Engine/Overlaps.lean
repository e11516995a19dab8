import NestedLayout.Proofs.Engine.Completeness
import NestedLayout.Proofs.Picture.Overlaps

/-!
# The overlaps of a run

The metrics of a run count the elements that still overlap after separation, and every two of them
get a diagnostic. Nothing after separation changes these overlaps, and the picture has them all,
except for elements in whose place it shows a connector.

* `Engine.completed_collisions`: the collisions that a completed run reports are those that
  separation has noted.
* `Engine.overlaps_counted`: the count, the diagnostics and the overlaps in the picture.
* `Engine.oneSeat_overlap_counted`, `Engine.oneSeat_overlap_hidden`: two vertices in a sheet with
  room for one. A connector with the id of one of them hides that they overlap.
-/

set_option autoImplicit false

namespace NestedLayout

/-- The diagnostics about collisions. -/
def Outcome.collisions {α : Type} (o : Outcome α) : List Diagnostic :=
  o.diagnostics.filter fun d => d.topic = .collision

namespace Engine

section
variable {α : Type} [Scalar α] {settings : Settings α} {sizer : Sizer α} {diagram : Diagram}
  {h : Hierarchy} {connectors : List Connector}

variable (sizer) in
/-- Only separation reports collisions. -/
theorem noCollision_of_reportedBy {phases' : List (Phase (Drawing α))} {reports : List PhaseReport}
    (hsub : ∀ p ∈ phases', p ∈ phases sizer ∧ p.name ≠ "collisions")
    (hreports : ∀ r ∈ reports, Pipeline.ReportedBy phases' r) :
    reports.flatMap (fun r => r.diagnostics.filter fun d => d.topic = .collision) = [] := by
  refine List.flatMap_eq_nil_iff.2 fun r hr => ?_
  obtain ⟨p, hp, d, step, hstep, rfl⟩ := hreports r hr
  obtain ⟨hp, hname⟩ := hsub p hp
  have hnotes : Note.NoCollision step.notes := by
    cases phases_stepsTo p hp d step hstep with
    | sized h => exact Drawing.size_noCollision h
    | placed => exact Drawing.place_noCollision d
    | separated => exact absurd rfl hname
    | compacted => exact Drawing.compact_noCollision d
    | quiet => exact .nil
  refine List.filter_eq_nil_iff.2 fun d hd => ?_
  obtain ⟨n, hn, rfl⟩ := List.mem_map.1 hd
  rw [decide_eq_true_eq]
  exact hnotes n hn

/-- **The collisions of a completed run** are what separation has noted. -/
theorem completed_collisions {run : Run (Drawing α)}
    (hrun : execute settings sizer diagram h connectors = some run)
    (hdone : run.status = .completed) :
    ∃ sized notes, (Drawing.prepared diagram settings.layout settings.canvas h connectors).size
        sizer = some ⟨sized, notes, none⟩ ∧ sized.furnished.compact.failure = none ∧
      run.state = sized.furnished.compact.state ∧
      (outcome settings run).collisions =
        (sized.place.state.separate.notes.map (Note.at "collisions")).filter
          fun d => d.topic = .collision := by
  obtain ⟨sized, notes, hsize, hf, hstate⟩ := execute_completed_iff.1 ⟨run, hrun, hdone, rfl⟩
  refine ⟨sized, notes, hsize, hf, hstate, ?_⟩
  have hsplit : phases sizer = [measurePhase, requirementsPhase, sizingPhase sizer,
      positioningPhase] ++ collisionsPhase :: [hooksPhase, routingPhase, compactionPhase] := rfl
  rw [execute, Pipeline.run, Pipeline.arrange_of_inOrder (phases_inOrder sizer), hsplit] at hrun
  obtain ⟨mid, step, earlier, later, hmid, hstep, hreports, hearlier, hlater⟩ :=
    Pipeline.execute_completed_split hrun hdone
  obtain rfl : mid = sized.place.state := by
    rw [measurePhase, Pipeline.completes_sure_iff rfl, requirementsPhase,
      Pipeline.completes_sure_iff rfl, sizingPhase, Pipeline.completes_cons_iff] at hmid
    obtain ⟨first, hfirst, -, hmid⟩ := hmid
    cases hfirst.symm.trans hsize
    rw [positioningPhase, Pipeline.completes_last_iff] at hmid
    exact hmid.2
  cases hstep
  have hbefore := noCollision_of_reportedBy sizer (by
    simp [phases, measurePhase, requirementsPhase, sizingPhase, positioningPhase]) hearlier
  have hafter := noCollision_of_reportedBy sizer (by
    simp [phases, hooksPhase, routingPhase, compactionPhase]) hlater
  show (run.reports.flatMap (·.diagnostics)).filter _ = _
  rw [List.filter_flatMap, hreports, List.flatMap_append, List.flatMap_cons, hbefore, hafter,
    List.nil_append, List.append_nil]
  rfl

end

/-! ## Overlaps -/

section
variable {settings : Settings ℝ} {sizer : Sizer ℝ} {diagram : Diagram} {h : Hierarchy}
  {connectors : List Connector}

/-- What a completed run has to say about overlaps comes from the overlaps in its drawing. -/
theorem completed_overlaps {r : Run (Drawing ℝ)} (hh : Hierarchy.extract diagram = .ok h)
    (hc : Connector.derive diagram h = .ok connectors)
    (hwidth : 0 < settings.render.width) (hheight : 0 < settings.render.height)
    (hsizer : ∀ request plan, sizer.plan request = some (.ok plan) → plan.scale.Proper)
    (hr : execute settings sizer diagram h connectors = some r) (hdone : r.status = .completed) :
    (outcome settings r).collisions =
        r.state.overlaps.map (fun pair => (Drawing.overlapNote pair).at "collisions") ∧
      r.state.metrics.remainingOverlaps = r.state.overlaps.length ∧
      (outcome settings r).picture.overlaps.length = r.state.overlaps.countP fun pair =>
        !Connector.named connectors pair.1 && !Connector.named connectors pair.2 := by
  obtain ⟨sized, notes, hsize, hf, hstate, hcollisions⟩ := completed_collisions hr hdone
  obtain ⟨-, hhi, hcs, hcomplete⟩ := completed_complete hh hc hr hdone
  have t := Hierarchy.extract_treeOf hh
  obtain ⟨hsub, p, hp, hscale⟩ := Drawing.size_subject hsize
  have ts : sized.hierarchy.IsTree := (show sized.hierarchy = h from hsub.hierarchy) ▸ t.toIsTree
  have hg := sized.furnished_ground
  -- separation has noted what overlaps in the end
  obtain ⟨hnotes, hcount⟩ := Drawing.furnished_overlaps ts
    (fun {c e} ho => by
      rw [hsub.extents]
      exact Drawing.prepared_measured _ _ t (hsub.hierarchy ▸ ho))
    fun c hc => Drawing.size_allotted hsize (hsub.hierarchy ▸ hc)
  obtain ⟨hoverlaps, hmetrics⟩ := Drawing.compact_overlaps (hg.hierarchy ▸ ts) hf
  obtain ⟨hstand, hfinal⟩ := Drawing.compact_standing hf (Drawing.furnished_standing ts)
  rw [← hstate] at hoverlaps hmetrics hstand hfinal
  have hproper : r.state.scale.Proper := by
    rw [hfinal, hg.scale, show sized.scale = p.plan.scale from hscale]
    exact Drawing.propose_scale_proper hp hsizer
  refine ⟨?_, ?_, ?_⟩
  · rw [hcollisions, hnotes, hoverlaps, List.map_map]
    refine List.filter_eq_self.2 fun d hd => ?_
    obtain ⟨pair, -, rfl⟩ := List.mem_map.1 hd
    rfl
  · rw [hmetrics, hcount, hoverlaps]
  · rw [← hcs]
    exact Picture.length_overlaps (hhi ▸ t.toIsTree) hcomplete
      (hcs ▸ (Connector.derive_spec hc).ids) hstand hproper hwidth hheight

/-- **A run is honest about overlaps.** Whatever the sizer and the settings, the metrics of a
completed run count the diagnostics about collisions, and the pairs of elements that overlap in the
picture are as many as those of these diagnostics that do not name a connector. These are all of
them when no connector has the id of an element. -/
theorem overlaps_counted {o : Outcome ℝ} (hh : Hierarchy.extract diagram = .ok h)
    (hc : Connector.derive diagram h = .ok connectors)
    (hwidth : 0 < settings.render.width) (hheight : 0 < settings.render.height)
    (hsizer : ∀ request plan, sizer.plan request = some (.ok plan) → plan.scale.Proper)
    (ho : run settings sizer diagram = .ok (some o)) (hdone : o.status = .completed) :
    o.metrics.remainingOverlaps = o.collisions.length ∧
      o.picture.overlaps.length =
        o.collisions.countP (fun d => d.ids.all fun id => !Connector.named connectors id) ∧
      (Connector.Apart diagram connectors →
        o.picture.overlaps.length = o.metrics.remainingOverlaps) := by
  rw [run_eq hh hc] at ho
  obtain ⟨r, hr, rfl⟩ := Option.map_eq_some_iff.1 (Except.ok.inj ho)
  obtain ⟨hcollided, hcounted, hshown⟩ :=
    completed_overlaps hh hc hwidth hheight hsizer hr hdone
  refine ⟨?_, ?_, fun hapart => ?_⟩
  · rw [hcollided, List.length_map]
    exact hcounted
  · rw [hshown, hcollided, List.countP_map]
    exact List.countP_congr fun p _ => by
      simp [Note.at, Drawing.overlapNote, Note.warning]
  · obtain ⟨-, hhi, -, -⟩ := completed_complete hh hc hr hdone
    have t := Hierarchy.extract_treeOf hh
    have hfree : ∀ {e c}, r.state.hierarchy.owners.get? e = some c →
        Connector.named connectors e = false := by
      intro e c ho
      have helement := (t.owned e).symm.trans (Table.contains_of_get? (hhi ▸ ho))
      rw [← Bool.not_eq_true, Connector.named_iff]
      rintro ⟨c, hmem, rfl⟩
      rw [(hapart c hmem).2] at helement
      cases helement
    rw [hshown]
    refine (List.countP_eq_length.2 fun pair hpair => ?_).trans hcounted.symm
    obtain ⟨-, c, p, q, ha, hb, -⟩ :=
      (Drawing.mem_overlaps (hhi ▸ t.toIsTree)).1 (mem_unordered_iff.2 (.inl hpair))
    rw [hfree ha, hfree hb]
    rfl

end

end Engine

/-! ## Sheets without space to spare -/

namespace Drawing

/-- Every container takes all of the sheet, without padding. There is at most one in another, and
then no element beside it. -/
structure Stacked (d : Drawing ℝ) : Prop where
  boxed : ∀ {c}, d.hierarchy.containers.contains c = true → d.boxes.get? c = some .unit
  full : ∀ {c box}, d.boxes.get? c = some box → box = .unit
  padding : d.unitPadding = (0, 0)
  single : ∀ {p a b}, d.hierarchy.parent? a = some p → d.hierarchy.parent? b = some p → a = b
  leaf : ∀ {c b e}, d.hierarchy.parent? b = some c → d.hierarchy.owners.get? e ≠ some c
  fits : ∀ {e x}, d.extents.get? e = some x →
    (x.unitSize d.scale).1 ≤ 1 ∧ (x.unitSize d.scale).2 ≤ 1

theorem Stacked.unpadded {d : Drawing ℝ} (hs : Stacked d) : Unpadded d where
  padding := hs.padding
  boxed := fun hc => ⟨.unit, hs.boxed hc⟩
  upright := fun hb => by
    rw [hs.full hb, Rect.unit_eq]
    exact ⟨zero_le_one, zero_le_one⟩
  nested := fun _ hp hc => by
    rw [hs.full hp, hs.full hc]
    exact .refl _
  apart := fun ha hb hne => absurd (hs.single ha hb) hne
  fits := fun _ hx hb => by
    rw [hs.full hb]
    norm_num [Rect.width_eq, Rect.height_eq]
    exact hs.fits hx
  band := fun hp ho => absurd ho (hs.leaf hp)

end Drawing

namespace Engine

/-! ## A seat for one -/

/-- Two vertices in an area, and a connector between them. -/
def oneSeat (id : String) : Diagram where
  root := "sheet"
  areas := .ofList [("A", ⟨none, ["p", "v"]⟩), ("sheet", ⟨none, ["A"]⟩)]
  elements := .ofList [("p", ⟨.vertex, "", []⟩), ("v", ⟨.vertex, "", []⟩)]
  connections := [⟨some id, ["p", "v"]⟩]

def oneSeatTree : Hierarchy where
  root := "sheet"
  containers := .ofList [("A", ⟨"A", some "sheet", [], ["p", "v"], 1⟩),
    ("sheet", ⟨"sheet", none, ["A"], [], 0⟩)]
  owners := .ofList [("p", "A"), ("v", "A")]

theorem extract_oneSeat (id : String) : Hierarchy.extract (oneSeat id) = .ok oneSeatTree := by cbv

theorem oneSeatTree_parent {c p : String} (hp : oneSeatTree.parent? c = some p) :
    c = "A" ∧ p = "sheet" := by
  obtain ⟨container, hc, hp⟩ := Option.bind_eq_some_iff.1 hp
  have hmem := Table.mem_of_get?_ofList hc
  simp only [List.mem_cons, Prod.mk.injEq, List.not_mem_nil, or_false] at hmem
  rcases hmem with ⟨rfl, rfl⟩ | ⟨-, rfl⟩
  · exact ⟨rfl, (Option.some.inj hp).symm⟩
  · cases hp

theorem oneSeatTree_owner {e c : String} (ho : oneSeatTree.owners.get? e = some c) : c = "A" := by
  have hall : ∀ entry ∈ [("p", "A"), ("v", "A")], entry.2 = "A" := by decide
  exact hall (e, c) (Table.mem_of_get?_ofList ho)

/-- Settings without any space around and between elements. -/
noncomputable def snug : Settings ℝ :=
  { Settings.standard with layout.spacing.padding := 0, layout.spacing.gap := 0 }

theorem snug_inRange : snug.InRange := by
  obtain ⟨hspacing, hmeasure, hsizing, hwidth, hheight⟩ := Settings.standard_inRange
  exact ⟨⟨le_rfl, le_rfl, hspacing.minWidth, hspacing.minHeight, hspacing.growthWidth,
    hspacing.growthHeight⟩, hmeasure, hsizing, hwidth, hheight⟩

/-- The area takes all of the sheet, which is just as large as a vertex. -/
noncomputable def seatPlan : SizingPlan ℝ :=
  ⟨.ofList [("A", .unit), ("sheet", .unit)], ⟨10.0, 10.0⟩, .empty, .direct, 0⟩

noncomputable def seatSizer : Sizer ℝ := ⟨"given", fun _ => some (.ok seatPlan)⟩

theorem seatPlan_proper : seatPlan.scale.Proper := by
  constructor <;> norm_num [seatPlan]

theorem seatPlan_boxes {id : String} {box : Rect ℝ} (hb : seatPlan.boxes.get? id = some box) :
    oneSeatTree.containers.contains id = true ∧ box = .unit := by
  have hmem := Table.mem_of_get?_ofList hb
  simp only [List.mem_cons, Prod.mk.injEq, List.not_mem_nil, or_false] at hmem
  rcases hmem with ⟨rfl, rfl⟩ | ⟨rfl, rfl⟩
  · exact ⟨rfl, rfl⟩
  · exact ⟨rfl, rfl⟩

theorem seatPlan_boxed {id : String} (hid : oneSeatTree.containers.contains id = true) :
    seatPlan.boxes.get? id = some .unit := by
  have hmem := Table.contains_ofList_iff.1 hid
  simp only [List.map_cons, List.map_nil, List.mem_cons, List.not_mem_nil, or_false] at hmem
  rcases hmem with rfl | rfl
  · rfl
  · rfl

section
variable (id : String) (cs : List Connector)

/-- The drawing in the boxes of the plan. -/
noncomputable def seated : Drawing ℝ :=
  (Drawing.prepared (oneSeat id) snug.layout snug.canvas oneSeatTree cs).adopt ⟨seatPlan, none⟩

theorem seated_boxes {c : String} : (seated id cs).boxes.get? c = seatPlan.boxes.get? c :=
  Drawing.adopt_boxes rfl (fun hb => (seatPlan_boxes hb).1) c

theorem seated_extent {e : String} {x : Extent ℝ} (hx : (seated id cs).extents.get? e = some x) :
    x.unitSize (seated id cs).scale = (1, 1) := by
  obtain ⟨element, he, rfl⟩ := Option.map_eq_some_iff.1 ((Table.get?_map _ _ _).symm.trans hx)
  have hmem := Table.mem_of_get?_ofList he
  simp only [List.mem_cons, Prod.mk.injEq, List.not_mem_nil, or_false] at hmem
  obtain rfl : element = ⟨.vertex, "", []⟩ := hmem.elim And.right And.right
  have hsize : (Extent.of ⟨.vertex, "", []⟩ snug.layout.measure : Extent ℝ) =
    ⟨10.0, 10.0, 0.0, 0.0⟩ := rfl
  show (Extent.of ⟨.vertex, "", []⟩ snug.layout.measure).unitSize ⟨10.0, 10.0⟩ = _
  rw [hsize]
  norm_num [Extent.unitSize, WorldScale.toUnit, WorldScale.toUnitX, WorldScale.toUnitY,
    Extent.totalWidth, Extent.totalHeight]

theorem seated_stacked : (seated id cs).Stacked where
  boxed := fun hc => (seated_boxes id cs).trans (seatPlan_boxed hc)
  full := fun hb => (seatPlan_boxes ((seated_boxes id cs).symm.trans hb)).2
  padding := by
    show ((0 : ℝ) / 10.0, (0 : ℝ) / 10.0) = (0, 0)
    norm_num
  single := fun ha hb => (oneSeatTree_parent ha).1.trans (oneSeatTree_parent hb).1.symm
  leaf := fun hp ho => absurd ((oneSeatTree_parent hp).2.symm.trans (oneSeatTree_owner ho))
    (by decide)
  fits := fun hx => by
    rw [seated_extent id cs hx]
    exact ⟨le_rfl, le_rfl⟩

/-- Sizing accepts the plan, and the seat is just large enough for a vertex. -/
theorem oneSeat_sized : ∃ sized,
    (Drawing.prepared (oneSeat id) snug.layout snug.canvas oneSeatTree cs).size seatSizer =
      some ⟨sized, [], none⟩ ∧ sized.Ready ∧ sized.hierarchy = oneSeatTree ∧
      sized.boxes.get? "A" = some .unit ∧ sized.inner .unit = .unit ∧
      sized.scale = seatPlan.scale ∧
      ∀ {e x}, sized.extents.get? e = some x → x.unitSize sized.scale = (1, 1) := by
  have t := Hierarchy.extract_treeOf (extract_oneSeat id)
  have hs := seated_stacked id cs
  have hu := hs.unpadded
  have hq : (seated id cs).sizingRequest.Proper := by
    rw [seated, (Drawing.adopt_request _ _).1]
    exact Drawing.prepared_proper _ _ t snug_inRange.spacing snug_inRange.measure
  have hbox : (seated id cs).boxes.get? "A" = some .unit := hs.boxed rfl
  exact ⟨_, congrArg some (Drawing.settleBoxes_of_valid hq.tree hu.valid []),
    hu.ready hq seatPlan_proper rfl, rfl, hbox, hu.inner_eq (hu.upright hbox),
    rfl, seated_extent id cs⟩

/-- **Both vertices get the one seat.** -/
theorem oneSeat_completes : ∃ r, execute snug seatSizer (oneSeat id) oneSeatTree cs = some r ∧
    r.status = .completed ∧ r.state.overlaps = [("p", "v")] := by
  obtain ⟨sized, hsize, hr, hh, hbox, hinner, -, hunit⟩ := oneSeat_sized id cs
  obtain ⟨r, hrun, hdone, hcompacted⟩ := completes_of_ready hsize hr
  refine ⟨r, hrun, hdone, ?_⟩
  have hseat : ∀ e, oneSeatTree.owners.get? e = some "A" →
      ∃ p, r.state.placements.get? e = some p ∧ p.footprint = ⟨0, 0, 1, 1⟩ := by
    intro e ho
    rw [← hh] at ho
    obtain ⟨p, hp⟩ := Drawing.furnished_allPlaced hr.tree hr.measured
      (sized.furnished_ground.hierarchy.symm ▸ ho)
    obtain ⟨x, hx⟩ := hr.measured ho
    refine ⟨p, hcompacted.placements ▸ hp, ?_⟩
    rw [Drawing.furnished_fills hr ho hp hx hbox, hinner, Rect.unit_eq]
    · rw [hinner, hunit hx]
      norm_num [Rect.width_eq]
    · rw [hinner, hunit hx]
      norm_num [Rect.height_eq]
  obtain ⟨p, hp, hpfoot⟩ := hseat "p" rfl
  obtain ⟨q, hq, hqfoot⟩ := hseat "v" rfl
  have hpair : r.state.overlappingPairs ["p", "v"] = [("p", "v")] := by
    simp [Drawing.overlappingPairs_eq, Drawing.footprintsOf, hp, hq, hpfoot, hqfoot,
      relatedPairs, pairsOf, Rect.intersects]
  have hnone : r.state.overlappingPairs [] = [] := Drawing.overlappingPairs_of_few (by decide)
  rw [Drawing.overlaps, hcompacted.hierarchy, sized.furnished_ground.hierarchy, hh,
    show oneSeatTree.preOrder = ["sheet", "A"] from rfl]
  simp [show oneSeatTree.elements "sheet" = [] from rfl,
    show oneSeatTree.elements "A" = ["p", "v"] from rfl, hpair, hnone]

theorem derive_oneSeat : Connector.derive (oneSeat id) oneSeatTree =
    .ok [⟨id, ["p", "v"], "p", "A"⟩] := by
  cbv

end

theorem seatSizer_proper (request : SizingRequest ℝ) (plan : SizingPlan ℝ)
    (h : seatSizer.plan request = some (.ok plan)) : plan.scale.Proper := by
  obtain rfl : seatPlan = plan := Except.ok.inj (Option.some.inj h)
  exact seatPlan_proper

theorem snug_canvas : 0 < snug.render.width ∧ 0 < snug.render.height :=
  ⟨zero_lt_one.trans_le snug_inRange.width, zero_lt_one.trans_le snug_inRange.height⟩

/-- With an id of its own for the connector the overlap is in the picture. -/
theorem oneSeat_overlap_counted : ∃ o, run snug seatSizer (oneSeat "c") = .ok (some o) ∧
    o.status = .completed ∧ o.metrics.remainingOverlaps = 1 ∧ o.collisions.length = 1 ∧
    o.picture.overlaps.length = 1 := by
  obtain ⟨r, hrun, hdone, hoverlaps⟩ := oneSeat_completes "c" [⟨"c", ["p", "v"], "p", "A"⟩]
  have ho : run snug seatSizer (oneSeat "c") = .ok (some (outcome snug r)) := by
    rw [run_eq (extract_oneSeat _) (derive_oneSeat _), hrun]
    rfl
  obtain ⟨-, hcount, -⟩ := completed_overlaps (extract_oneSeat _) (derive_oneSeat _)
    snug_canvas.1 snug_canvas.2 seatSizer_proper hrun hdone
  have hone : r.state.metrics.remainingOverlaps = 1 := by rw [hcount, hoverlaps]; rfl
  obtain ⟨hcollisions, -, hshown⟩ := overlaps_counted (extract_oneSeat _) (derive_oneSeat _)
    snug_canvas.1 snug_canvas.2 seatSizer_proper ho hdone
  refine ⟨_, ho, hdone, hone, hcollisions.symm.trans hone, (hshown fun c hc => ?_).trans hone⟩
  obtain rfl := List.mem_singleton.1 hc
  exact ⟨rfl, rfl⟩

/-- A connector with the id of a vertex hides the overlap. -/
theorem oneSeat_overlap_hidden : ∃ o, run snug seatSizer (oneSeat "v") = .ok (some o) ∧
    o.status = .completed ∧ o.metrics.remainingOverlaps = 1 ∧ o.picture.overlaps = [] := by
  obtain ⟨r, hrun, hdone, hoverlaps⟩ := oneSeat_completes "v" [⟨"v", ["p", "v"], "p", "A"⟩]
  obtain ⟨-, hcount, hshown⟩ := completed_overlaps (extract_oneSeat _) (derive_oneSeat _)
    snug_canvas.1 snug_canvas.2 seatSizer_proper hrun hdone
  rw [hoverlaps] at hcount hshown
  refine ⟨outcome snug r, ?_, hdone, hcount, List.length_eq_zero_iff.1 hshown⟩
  rw [run_eq (extract_oneSeat _) (derive_oneSeat _), hrun]
  rfl

end Engine

end NestedLayout
