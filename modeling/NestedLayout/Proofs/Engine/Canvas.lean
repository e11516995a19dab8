import NestedLayout.Proofs.Engine.Nesting
import NestedLayout.Proofs.Engine.Overlaps
import NestedLayout.Proofs.Picture.Canvas

/-!
# Runs on a canvas

Whatever the sizer, everything in a completed run lies in the box of the root. In absolute space
this box has its corner at the origin and is scaled down evenly, so everything lies on the canvas:
`completed_fits`. The one exception is a root without extent on one axis.

* `completed_enclosed`: everything lies in the box of the root.
* `oneSeat_fits`: a sheet on the canvas.
* `flat_sticks_out`: a sheet without height that is not scaled down.
-/

set_option autoImplicit false

namespace NestedLayout

/-- The clearances around the elements of a diagram are not negative. -/
def Diagram.Spacious (d : Diagram) (settings : MeasureSettings ℝ) : Prop :=
  ∀ {id e}, d.elements.get? id = some e →
    0 ≤ (Extent.of e settings).clearanceWidth ∧ 0 ≤ (Extent.of e settings).clearanceHeight

theorem Diagram.spacious_of_inRange (d : Diagram) {m : MeasureSettings ℝ} (hm : m.InRange) :
    d.Spacious m := fun {_ e} _ => Extent.of_clearance e hm

namespace Engine

variable {settings : Settings ℝ} {sizer : Sizer ℝ} {diagram : Diagram} {h : Hierarchy}
  {connectors : List Connector}

section
variable {r : Run (Drawing ℝ)}

theorem Compacts.embodied {sized : Drawing ℝ} (hs : Compacts diagram settings h sized r.state) :
    Drawing.Embodied sized r.state :=
  hs.final ▸ fun hp => Drawing.compact_embodied hs.succeeds (Drawing.furnished_embodied hs.tree) hp

theorem Compacts.scale {sized : Drawing ℝ} (hs : Compacts diagram settings h sized r.state) :
    r.state.scale = sized.scale := hs.tight.1.scale.trans sized.furnished_ground.scale

/-- What a sized drawing knows of the extents of the elements. -/
theorem Compacts.extent {sized final : Drawing ℝ} (hs : Compacts diagram settings h sized final)
    {e : String} {x : Extent ℝ} (hx : sized.extents.get? e = some x) :
    ∃ element, diagram.elements.get? e = some element ∧
      x = Extent.of element settings.layout.measure := by
  rw [hs.extents] at hx
  obtain ⟨element, he, rfl⟩ := Option.map_eq_some_iff.1 ((Table.get?_map _ _ _).symm.trans hx)
  exact ⟨element, he, rfl⟩

variable (hh : Hierarchy.extract diagram = .ok h) (hpad : 0 ≤ settings.layout.spacing.padding)
  (hsizer : ∀ request plan, sizer.plan request = some (.ok plan) → plan.scale.Proper)
  (hrun : execute settings sizer diagram h connectors = some r) (hdone : r.status = .completed)
include hh hpad hsizer hrun hdone

/-- Bodies are solid when the elements are large enough at the scale of the run. -/
theorem completed_solid (hlarge : ∀ {id e}, diagram.elements.get? id = some e →
      Scalar.epsilon < (Extent.of e settings.layout.measure).width / r.state.scale.width ∧
        Scalar.epsilon < (Extent.of e settings.layout.measure).height / r.state.scale.height) :
    r.state.Solid := by
  obtain ⟨sized, hs⟩ := completed_compacts hh hpad hsizer hrun hdone
  refine Drawing.Embodied.solid hs.embodied fun {e x} hx => ?_
  obtain ⟨element, he, rfl⟩ := hs.extent hx
  rw [← hs.scale]
  exact hlarge he

variable (hc : Connector.derive diagram h = .ok connectors)
  (hclear : diagram.Spacious settings.layout.measure)
include hc hclear

/-- **Everything in a completed run lies in the box of its root**, when bodies are solid. -/
theorem completed_enclosed : ∃ root, r.state.boxes.get? r.state.hierarchy.root = some root ∧
    root.Upright ∧ r.state.scale.Proper ∧ (r.state.Solid → r.state.Enclosed root) := by
  obtain ⟨-, hhi, hcs, hcomplete⟩ := completed_complete hh hc hrun hdone
  obtain ⟨sized, hs⟩ := completed_compacts hh hpad hsizer hrun hdone
  have t := Hierarchy.extract_treeOf hh
  have hfh := hs.furnished_hierarchy
  have tf := hs.furnished_tree
  obtain ⟨htight, -⟩ := hs.tight
  obtain ⟨root, hroot, hup⟩ := htight.boxed_of_known tf tf.rootKnown
  obtain ⟨hhooked, hrouted⟩ :=
    Drawing.compact_hooked hs.succeeds (Drawing.furnished_hooked sized)
  rw [← hs.final] at hhooked hrouted
  refine ⟨root, ?_, hup, hs.scale ▸ hs.proper, fun hsolid => ?_⟩
  · rw [hhi, ← hfh]
    exact hroot
  refine htight.enclosed tf hs.padding hs.proper (fun {e x} hx => ?_) hs.embodied hhooked hrouted
    (fun {e q} hq => ?_) (fun {k hook} hk => ?_) hroot hsolid
  · obtain ⟨element, he, rfl⟩ := hs.extent hx
    exact hclear he
  · rw [hfh, ← hhi, ← Table.contains_iff, ← hcomplete.placed]
    exact Table.contains_of_get? hq
  · obtain ⟨c, hmem, -, hend⟩ := (hcomplete.hooked k).1 (Table.contains_of_get? hk)
    rw [← Table.contains_iff, hcomplete.placed, hhi, t.owned]
    exact ((Connector.derive_spec hc).joining c (hcs ▸ hmem)).known _ hend

omit hclear hpad hsizer in
/-- The root is shown where its box is, unless a connector takes its place. -/
theorem completed_root_shown (hfree : Connector.named connectors h.root = false) {root : Rect ℝ}
    (hroot : r.state.boxes.get? h.root = some root) :
    ∃ f, (outcome settings r).picture.figures.get? h.root = some f ∧ f.kind = .container ∧
      f.bounds = (Picture.projection r.state settings.render).map.applyRect root := by
  obtain ⟨hd, hhi, hcs, hcomplete⟩ := completed_complete hh hc hrun hdone
  have hidsApart := Hierarchy.ids_apart hh
  have t := Hierarchy.extract_treeOf hh
  subst hd hhi hcs
  obtain ⟨c, hcon⟩ := Table.contains_iff.1 t.rootKnown
  refine ⟨_, Picture.figures_get?_of_container t hcomplete hcon hroot ?_ hfree, rfl, rfl⟩
  rw [hcomplete.placed, t.owned]
  exact hidsApart _ ((t.known _).symm.trans t.rootKnown)

/-- **A completed run fits the canvas** in absolute space, whatever the sizer. Pixels are scaled by
one factor, and not up, the corner of the root is at the origin, and when bodies are solid
everything lies on the canvas, unless the root has no extent on one axis and is too long on the
other. Then it sticks out. With an element in it, it always has an extent. -/
theorem completed_fits (hspace : settings.render.space = .absolute)
    (hwidth : 1 ≤ settings.render.width) (hheight : 1 ≤ settings.render.height) :
    ∃ root fit, r.state.boxes.get? h.root = some root ∧ 0 < fit ∧ fit ≤ 1 ∧
      (Picture.projection r.state settings.render).ScalesBy r.state.scale root fit ∧
      (Connector.named connectors h.root = false →
        ∃ f, (outcome settings r).picture.figures.get? h.root = some f ∧ f.kind = .container ∧
          f.bounds.left = 0 ∧ f.bounds.top = 0) ∧
      (r.state.Solid → (∃ e, diagram.elements.contains e = true) ∨
          Picture.FitsScaled (settings.render.width, settings.render.height)
            (r.state.scale.rectToWorld root) →
        (outcome settings r).picture.LiesIn
          ⟨0, 0, settings.render.width, settings.render.height⟩) ∧
      (Connector.named connectors h.root = false →
        (outcome settings r).picture.LiesIn
          ⟨0, 0, settings.render.width, settings.render.height⟩ →
        Picture.FitsScaled (settings.render.width, settings.render.height)
          (r.state.scale.rectToWorld root)) := by
  obtain ⟨root, hroot, hup, hscale, henclosed⟩ :=
    completed_enclosed hh hpad hsizer hrun hdone hc hclear
  obtain ⟨-, hhi, -, hcomplete⟩ := completed_complete hh hc hrun hdone
  have t := Hierarchy.extract_treeOf hh
  have hw : 0 < settings.render.width := zero_lt_one.trans_le hwidth
  have hht : 0 < settings.render.height := zero_lt_one.trans_le hheight
  obtain ⟨hsx, hsy⟩ := Picture.projection_pos (d := r.state) hscale hw hht
  have hsheet := Picture.projection_root hspace hroot hscale hup hw hht
  have hfits := Picture.projection_root_within_iff hspace hroot hscale hup hw hht
  have hscales := Picture.projection_scalesBy hspace hroot
  rw [hhi] at hroot
  have hshown := fun hfree => completed_root_shown hh hrun hdone hc hfree hroot
  refine ⟨root, _, hroot, Picture.fitFactor_pos hw hht _, Picture.fitFactor_le_one _ _, hscales,
    fun hfree => ?_, fun hsolid hcan => ?_, fun hfree hin => ?_⟩
  · obtain ⟨f, hf, hkind, hbounds⟩ := hshown hfree
    rw [hsheet] at hbounds
    exact ⟨f, hf, hkind, by rw [hbounds], by rw [hbounds]⟩
  · -- with an element in it the root has an extent
    refine (Picture.ofDrawing_liesIn hsx hsy hup (henclosed hsolid)).mono (hfits.2 ?_)
    rcases hcan with ⟨e, he⟩ | hcan
    · rw [← t.owned, ← hhi, ← hcomplete.placed] at he
      exact Picture.fitsScaled_of_body hscale hsolid (henclosed hsolid) he _
    · exact hcan
  · obtain ⟨f, hf, -, hbounds⟩ := hshown hfree
    exact hfits.1 (hbounds ▸ (hin.figures hf).bounds)

end

/-- The two vertices lie on the canvas, with the sheet in its corner. -/
theorem oneSeat_fits : ∃ r, execute snug seatSizer (oneSeat "c") oneSeatTree
      [⟨"c", ["p", "v"], "p", "A"⟩] = some r ∧ r.status = .completed ∧ r.state.Solid ∧
    (outcome snug r).picture.LiesIn ⟨0, 0, snug.render.width, snug.render.height⟩ ∧
    ∃ f, (outcome snug r).picture.figures.get? "sheet" = some f ∧ f.bounds.left = 0 ∧
      f.bounds.top = 0 := by
  obtain ⟨sized, hsize, hr, -, -, -, hscale, -⟩ :=
    oneSeat_sized "c" [⟨"c", ["p", "v"], "p", "A"⟩]
  obtain ⟨r, hrun, hdone, hcompacted⟩ := completes_of_ready hsize hr
  have hs : r.state.scale = ⟨10.0, 10.0⟩ :=
    hcompacted.scale.trans (sized.furnished_ground.scale.trans hscale)
  have hpad := snug_inRange.spacing.padding
  have hsolid : r.state.Solid := by
    refine completed_solid (extract_oneSeat _) hpad seatSizer_proper hrun hdone fun {e x} hx => ?_
    have hmem := Table.mem_of_get?_ofList hx
    simp only [List.mem_cons, Prod.mk.injEq, List.not_mem_nil, or_false] at hmem
    obtain rfl : x = ⟨.vertex, "", []⟩ := hmem.elim And.right And.right
    have hsize : (Extent.of ⟨.vertex, "", []⟩ snug.layout.measure : Extent ℝ) =
      ⟨10.0, 10.0, 0.0, 0.0⟩ := rfl
    rw [hsize, hs]
    norm_num [Scalar.epsilon]
  obtain ⟨root, fit, -, -, -, -, hshown, hfits, -⟩ := completed_fits (extract_oneSeat "c") hpad
    seatSizer_proper hrun hdone (derive_oneSeat "c")
    (Diagram.spacious_of_inRange _ snug_inRange.measure) rfl snug_inRange.width snug_inRange.height
  obtain ⟨f, hf, -, hcorner⟩ := hshown rfl
  exact ⟨r, hrun, hdone, hsolid, hfits hsolid (.inl ⟨"p", rfl⟩), f, hf, hcorner⟩

/-! ## A sheet without height -/

/-- Two areas on a sheet. -/
def flat : Diagram := .build "sheet" [.area "A" "sheet", .area "B" "sheet"]

def flatTree : Hierarchy where
  root := "sheet"
  containers := .ofList [("A", ⟨"A", some "sheet", [], [], 1⟩),
    ("B", ⟨"B", some "sheet", [], [], 1⟩), ("sheet", ⟨"sheet", none, ["A", "B"], [], 0⟩)]
  owners := .empty

theorem extract_flat : Hierarchy.extract flat = .ok flatTree := rfl

/-- The areas are points on a level, far apart. -/
noncomputable def flatPlan : SizingPlan ℝ :=
  ⟨.ofList [("A", ⟨0.0, 0.5, 0.0, 0.5⟩), ("B", ⟨1.0, 0.5, 1.0, 0.5⟩), ("sheet", .unit)],
    ⟨10000.0, 1.0⟩, .empty, .direct, 0⟩

noncomputable def flatSizer : Sizer ℝ := ⟨"given", fun _ => some (.ok flatPlan)⟩

theorem flatPlan_proper : flatPlan.scale.Proper := by
  constructor <;> norm_num [flatPlan]

theorem flatSizer_proper (request : SizingRequest ℝ) (plan : SizingPlan ℝ)
    (h : flatSizer.plan request = some (.ok plan)) : plan.scale.Proper := by
  obtain rfl : flatPlan = plan := Except.ok.inj (Option.some.inj h)
  exact flatPlan_proper

theorem flatTree_parent {c p : String} (hp : flatTree.parent? c = some p) :
    p = "sheet" ∧ (c = "A" ∨ c = "B") := by
  obtain ⟨container, hc, hp⟩ := Option.bind_eq_some_iff.1 hp
  have hmem := Table.mem_of_get?_ofList hc
  simp only [List.mem_cons, Prod.mk.injEq, List.not_mem_nil, or_false] at hmem
  rcases hmem with ⟨rfl, rfl⟩ | ⟨rfl, rfl⟩ | ⟨-, rfl⟩
  · exact ⟨(Option.some.inj hp).symm, .inl rfl⟩
  · exact ⟨(Option.some.inj hp).symm, .inr rfl⟩
  · cases hp

theorem flatPlan_boxes {id : String} {box : Rect ℝ} (hb : flatPlan.boxes.get? id = some box) :
    id = "A" ∧ box = ⟨0.0, 0.5, 0.0, 0.5⟩ ∨ id = "B" ∧ box = ⟨1.0, 0.5, 1.0, 0.5⟩ ∨
      id = "sheet" ∧ box = .unit := by
  have hmem := Table.mem_of_get?_ofList hb
  simpa only [List.mem_cons, Prod.mk.injEq, List.not_mem_nil, or_false] using hmem

/-- The drawing in the boxes of the plan. -/
noncomputable def flattened : Drawing ℝ :=
  (Drawing.prepared flat snug.layout snug.canvas flatTree []).adopt ⟨flatPlan, none⟩

theorem flattened_boxes (c : String) : flattened.boxes.get? c = flatPlan.boxes.get? c := by
  refine Drawing.adopt_boxes rfl (fun hb => ?_) c
  rcases flatPlan_boxes hb with ⟨rfl, -⟩ | ⟨rfl, -⟩ | ⟨rfl, -⟩
  · rfl
  · rfl
  · rfl

theorem flattened_unpadded : flattened.Unpadded where
  padding := by
    show ((0 : ℝ) / 10000.0, (0 : ℝ) / 1.0) = (0, 0)
    norm_num
  boxed {c} hc := by
    rw [flattened_boxes]
    have hmem := Table.contains_ofList_iff.1 hc
    simp only [List.map_cons, List.map_nil, List.mem_cons, List.not_mem_nil, or_false] at hmem
    rcases hmem with rfl | rfl | rfl
    · exact ⟨_, rfl⟩
    · exact ⟨_, rfl⟩
    · exact ⟨_, rfl⟩
  upright {c box} hb := by
    rw [flattened_boxes] at hb
    rcases flatPlan_boxes hb with ⟨-, rfl⟩ | ⟨-, rfl⟩ | ⟨-, rfl⟩
    · exact ⟨le_rfl, le_rfl⟩
    · exact ⟨le_rfl, le_rfl⟩
    · rw [Rect.unit_eq]
      exact ⟨zero_le_one, zero_le_one⟩
  nested {p c pbox box} hp hpb hb := by
    rw [flattened_boxes] at hpb hb
    obtain ⟨rfl, hc⟩ := flatTree_parent hp
    obtain rfl : Rect.unit = pbox := Option.some.inj hpb
    rw [Rect.unit_eq]
    rcases hc with rfl | rfl
    · obtain rfl := Option.some.inj hb
      constructor <;> norm_num
    · obtain rfl := Option.some.inj hb
      constructor <;> norm_num
  apart {p a b abox bbox} ha hb hne hab hbb := by
    rw [flattened_boxes] at hab hbb
    obtain ⟨-, hca⟩ := flatTree_parent ha
    obtain ⟨-, hcb⟩ := flatTree_parent hb
    rw [← Bool.not_eq_true, Rect.intersects_iff]
    rcases hca with rfl | rfl <;> rcases hcb with rfl | rfl
    · exact absurd rfl hne
    · obtain rfl := Option.some.inj hab
      obtain rfl := Option.some.inj hbb
      norm_num
    · obtain rfl := Option.some.inj hab
      obtain rfl := Option.some.inj hbb
      norm_num
    · exact absurd rfl hne
  fits {c e x box} ho := by cases (Table.get?_empty e).symm.trans ho
  band {c b e x box bbox} _ ho := by cases (Table.get?_empty e).symm.trans ho

/-- Sizing accepts the plan. -/
theorem flat_sized : ∃ sized,
    (Drawing.prepared flat snug.layout snug.canvas flatTree []).size flatSizer =
      some ⟨sized, [], none⟩ ∧ sized.Ready ∧ sized.scale = ⟨10000.0, 1.0⟩ ∧
      ∀ c, sized.boxes.get? c = flatPlan.boxes.get? c := by
  have t := Hierarchy.extract_treeOf extract_flat
  have hu := flattened_unpadded
  have hq : flattened.sizingRequest.Proper := by
    rw [flattened, (Drawing.adopt_request _ _).1]
    exact Drawing.prepared_proper _ _ t snug_inRange.spacing snug_inRange.measure
  exact ⟨_, congrArg some (Drawing.settleBoxes_of_valid hq.tree hu.valid []),
    hu.ready hq flatPlan_proper rfl, rfl, flattened_boxes⟩

/-- Compaction leaves a box that is a point where it is. -/
theorem get?_of_point {d d' : Drawing ℝ} (hc : Drawing.Compacted d d') {c : String} {x y : ℝ}
    {box : Rect ℝ} (hknown : d.hierarchy.containers.contains c = true)
    (hd : d.boxes.get? c = some ⟨x, y, x, y⟩) (hd' : d'.boxes.get? c = some box)
    (hup : box.Upright) : d'.boxes.get? c = some ⟨x, y, x, y⟩ := by
  obtain ⟨old, hold, hwithin⟩ := hc.shrunk hknown hd'
  cases hold.symm.trans hd
  rw [hd', hwithin.eq_of_le]
  · rw [Rect.width_eq, sub_self]
    exact hup.width_nonneg
  · rw [Rect.height_eq, sub_self]
    exact hup.height_nonneg

/-- **Compaction leaves the sheet** no more than the line between the areas. -/
theorem flat_completes : ∃ r, execute snug flatSizer flat flatTree [] = some r ∧
    r.status = .completed ∧ r.state.scale = ⟨10000.0, 1.0⟩ ∧
    r.state.boxes.get? "sheet" = some ⟨0.0, 0.5, 1.0, 0.5⟩ := by
  obtain ⟨start, hsize, hr, hstart, hboxes⟩ := flat_sized
  obtain ⟨r, hrun, hdone, hcompacted⟩ := completes_of_ready hsize hr
  obtain ⟨sized, hs⟩ := completed_compacts extract_flat snug_inRange.spacing.padding
    flatSizer_proper hrun hdone
  have hfh := hs.furnished_hierarchy
  have tf := hs.furnished_tree
  obtain ⟨htight, -⟩ := hs.tight
  have hscale : r.state.scale = ⟨10000.0, 1.0⟩ :=
    hcompacted.scale.trans (start.furnished_ground.scale.trans hstart)
  have hpadding : sized.furnished.unitPadding = (0, 0) := by
    have hg := sized.furnished_ground
    rw [Drawing.unitPadding, hg.settings, hg.scale, hs.settings, ← hs.scale, hscale]
    show ((0 : ℝ) / 10000.0, (0 : ℝ) / 1.0) = (0, 0)
    norm_num
  have hpoint : ∀ {c x y}, flatTree.containers.contains c = true →
      flatPlan.boxes.get? c = some ⟨x, y, x, y⟩ → r.state.boxes.get? c = some ⟨x, y, x, y⟩ := by
    intro c x y hc hplan
    obtain ⟨box, hbox, hup⟩ := htight.boxed_of_known tf (hfh ▸ hc)
    refine get?_of_point hcompacted ?_ ?_ hbox hup
    · rw [← hcompacted.hierarchy, htight.hierarchy, hfh, hc]
    · rw [start.furnished_ground.boxes, hboxes, hplan]
  have hA := hpoint (c := "A") rfl rfl
  have hB := hpoint (c := "B") rfl rfl
  have hchildren : sized.furnished.hierarchy.children "sheet" ≠ [] := by
    rw [hfh]
    exact List.cons_ne_nil _ _
  obtain ⟨box, hull, hbox, hhull, he, -⟩ := htight.box_eq_inflate tf (.inl hchildren)
  have hcontents : r.state.contents "sheet" = [⟨0.0, 0.5, 0.0, 0.5⟩, ⟨1.0, 0.5, 1.0, 0.5⟩] := by
    have hareas : flatTree.children "sheet" = ["A", "B"] := rfl
    have hnone : flatTree.elements "sheet" = [] := rfl
    simp only [Drawing.contents, htight.hierarchy, hfh, hareas, hnone, List.filterMap_cons,
      List.filterMap_nil, hA, hB, List.append_nil]
  rw [hcontents] at hhull
  -- the smallest rectangle around two points on a level
  have hline : hull = ⟨0.0, 0.5, 1.0, 0.5⟩ := by
    have hl := hhull.holds _ (.head _)
    have hr := hhull.holds _ (.tail _ (.head _))
    refine (hhull.least _ ?_).antisymm ⟨hl.left, hl.top, hr.right, hr.bottom⟩
    simp only [List.forall_mem_cons, List.not_mem_nil, false_implies, implies_true, and_true]
    constructor <;> constructor <;> norm_num
  refine ⟨r, hrun, hdone, hscale, ?_⟩
  rw [hbox, he, hpadding, Rect.inflate_eq, hline]
  norm_num

/-- **A sheet without height is not scaled down**, and sticks out of the canvas. -/
theorem flat_sticks_out : Hierarchy.extract flat = .ok flatTree ∧
    Connector.derive flat flatTree = .ok [] ∧ snug.InRange ∧ snug.render.space = .absolute ∧
    flat.Spacious snug.layout.measure ∧
    (∀ request plan, flatSizer.plan request = some (.ok plan) → plan.scale.Proper) ∧
    ∃ r, execute snug flatSizer flat flatTree [] = some r ∧ r.status = .completed ∧
      r.state.Solid ∧ ∃ f, (outcome snug r).picture.figures.get? "sheet" = some f ∧
        f.kind = .container ∧ f.bounds = ⟨0, 0, 10000, 0⟩ ∧
        ¬ f.bounds.Within ⟨0, 0, snug.render.width, snug.render.height⟩ := by
  obtain ⟨r, hrun, hdone, hscale, hroot⟩ := flat_completes
  have hderive : Connector.derive flat flatTree = .ok [] := rfl
  have hpad := snug_inRange.spacing.padding
  obtain ⟨-, hhi, -⟩ := completed_complete extract_flat hderive hrun hdone
  obtain ⟨f, hf, hkind, hbounds⟩ := completed_root_shown extract_flat hrun hdone hderive rfl hroot
  have hsolid : r.state.Solid :=
    completed_solid extract_flat hpad flatSizer_proper hrun hdone fun {e x} hx => by
      cases (Table.get?_empty e).symm.trans hx
  have hsheet : f.bounds = ⟨0, 0, 10000, 0⟩ := by
    have hproper : r.state.scale.Proper := hscale ▸ flatPlan_proper
    have hup : (⟨0.0, 0.5, 1.0, 0.5⟩ : Rect ℝ).Upright := by constructor <;> norm_num
    rw [hbounds, Picture.projection_root rfl (hhi.symm ▸ hroot) hproper hup snug_canvas.1
      snug_canvas.2, hscale]
    norm_num [WorldScale.rectToWorld, Picture.fitFactor, Rect.width_eq, Rect.height_eq]
  refine ⟨extract_flat, hderive, snug_inRange, rfl,
    Diagram.spacious_of_inRange _ snug_inRange.measure, flatSizer_proper, r, hrun, hdone, hsolid,
    f, hf, hkind, hsheet, fun hin => ?_⟩
  have hright := hin.right
  rw [hsheet] at hright
  norm_num [snug, Settings.standard] at hright

end Engine

end NestedLayout
