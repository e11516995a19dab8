import NestedLayout.Proofs.Drawing.Enclosed
import NestedLayout.Proofs.Picture.Overlaps

/-!
# Pictures on a canvas

In absolute space the root is projected to the origin of the canvas, and scaled down evenly to fit.

* `ofDrawing_liesIn`: what is enclosed in the drawing is enclosed in the picture.
* `projection_scalesBy`: in absolute space, pixels are scaled by one factor on both axes.
* `fitFactor_fits_iff`: the root fits the canvas when it is scaled down by the factor, except for a
  root without extent on one axis that is too long on the other: it is not scaled at all.
* `projection_root_within_iff`: so the root is on the canvas with this one exception.
-/

set_option autoImplicit false

namespace NestedLayout

/-- Everything of a figure lies in a rectangle. -/
structure Figure.LiesIn (f : Figure ℝ) (r : Rect ℝ) : Prop where
  bounds : f.bounds.Within r
  footprint : ∀ {b}, f.footprint = some b → b.Within r
  path : ∀ q ∈ f.path, r.Holds q

theorem Figure.LiesIn.mono {f : Figure ℝ} {r s : Rect ℝ} (h : f.LiesIn r) (hw : r.Within s) :
    f.LiesIn s where
  bounds := h.bounds.trans hw
  footprint hb := (h.footprint hb).trans hw
  path q hq := (h.path q hq).mono hw

namespace WorldScale

theorem rectToWorld_width (s : WorldScale ℝ) (r : Rect ℝ) :
    (s.rectToWorld r).width = r.width * s.width := (sub_mul _ _ _).symm

theorem rectToWorld_height (s : WorldScale ℝ) (r : Rect ℝ) :
    (s.rectToWorld r).height = r.height * s.height := (sub_mul _ _ _).symm

end WorldScale

namespace Picture

/-! ## Pictures in a rectangle -/

/-- Everything in a picture lies in a rectangle. -/
structure LiesIn (p : Picture ℝ) (r : Rect ℝ) : Prop where
  figures : ∀ {id f}, p.figures.get? id = some f → f.LiesIn r
  hooks : ∀ {k hook}, p.hooks.get? k = some hook → r.Holds hook.point

theorem LiesIn.mono {p : Picture ℝ} {r s : Rect ℝ} (h : p.LiesIn r) (hw : r.Within s) :
    p.LiesIn s where
  figures hf := (h.figures hf).mono hw
  hooks hk := (h.hooks hk).mono hw

/-- A figure of a connector is as large as its path. -/
theorem connectorFigure?_bounds {α : Type} [Scalar α] {d : Drawing α} {map : AxisMap α}
    {c : Connector} {path : List (Point α)} {f : Figure α}
    (h : connectorFigure? d map c path = some f) : Rect.ofPoints? f.path = some f.bounds := by
  unfold connectorFigure? at h
  split at h
  · cases h
  · obtain ⟨bounds, hb, rfl⟩ := Option.map_eq_some_iff.1 h
    exact hb

section
variable {d : Drawing ℝ} {map : AxisMap ℝ} (hx : 0 < map.sx) (hy : 0 < map.sy) {root : Rect ℝ}
  (hroot : root.Upright) (h : d.Enclosed root)
include hx hy hroot h

/-- The figures of a drawing lie in the image of the rectangle that encloses it. -/
theorem figuresOf_liesIn {f : Figure ℝ} (hf : f ∈ figuresOf d map) :
    f.LiesIn (map.applyRect root) := by
  have hrect : ∀ {r : Rect ℝ}, r.Upright ∧ r.Within root →
      (map.applyRect r).Within (map.applyRect root) := fun hr =>
    (AxisMap.applyRect_within_iff hx hy hr.1 hroot).2 hr.2
  rcases mem_figuresOf hf with ⟨id, c, box, hc, hb, rfl⟩ | ⟨e, p, hp, rfl⟩ |
    ⟨c, -, path, hroute, hcon⟩
  case inl =>
    refine ⟨hrect (h.boxes (Table.contains_of_get? hc) hb), fun hfoot => ?_, fun q hq => ?_⟩
    · cases hfoot
    · cases hq
  case inr.inl =>
    refine ⟨hrect (h.bodies hp), fun hfoot => ?_, fun q hq => ?_⟩
    · cases hfoot
      exact hrect (h.footprints hp)
    · cases hq
  case inr.inr =>
    obtain ⟨-, -, hnone, hpath⟩ := connectorFigure?_spec hcon
    have hholds : ∀ q ∈ f.path, (map.applyRect root).Holds q := fun q hq => by
      rw [hpath] at hq
      obtain ⟨p, hp, rfl⟩ := List.mem_map.1 hq
      exact AxisMap.applyRect_holds hx hy hroot (h.paths hroute p hp)
    refine ⟨Rect.ofPoints?_within (connectorFigure?_bounds hcon) hholds, fun hfoot => ?_, hholds⟩
    rw [hnone] at hfoot
    cases hfoot

end

/-- **What is enclosed in the drawing** is enclosed in the picture. -/
theorem ofDrawing_liesIn {d : Drawing ℝ} {render : RenderSettings ℝ}
    (hx : 0 < (projection d render).map.sx) (hy : 0 < (projection d render).map.sy)
    {root : Rect ℝ} (hroot : root.Upright) (h : d.Enclosed root) :
    (ofDrawing d render).LiesIn ((projection d render).map.applyRect root) where
  figures hf := by
    obtain ⟨f, hmem, he⟩ := List.mem_map.1 (Table.mem_of_get?_ofList hf)
    cases he
    exact figuresOf_liesIn hx hy hroot h hmem
  hooks hk := by
    obtain ⟨hook, hk', rfl⟩ := Option.map_eq_some_iff.1 ((Table.get?_map _ _ _).symm.trans hk)
    exact AxisMap.applyRect_holds hx hy hroot (h.hooks hk')

/-! ## The canvas -/

/-- A projection shows pixels scaled by one factor, with the corner of the root at the origin. -/
def Projection.ScalesBy (p : Projection ℝ) (scale : WorldScale ℝ) (root : Rect ℝ) (fit : ℝ) :
    Prop :=
  ∀ q, p.map.apply q = ⟨((scale.toWorld q).x - (scale.rectToWorld root).left) * fit,
    ((scale.toWorld q).y - (scale.rectToWorld root).top) * fit⟩

theorem fitFactor_le_one (canvas : ℝ × ℝ) (box : Rect ℝ) : fitFactor canvas box ≤ 1 := by
  unfold fitFactor
  split
  · rw [Scalar.atMost_real, Scalar.one_real]
    exact min_le_right _ _
  · rw [Scalar.one_real]

/-- A box can be scaled down to a canvas, or fits as it is. -/
def FitsScaled (canvas : ℝ × ℝ) (box : Rect ℝ) : Prop :=
  (0 < box.width ∧ 0 < box.height) ∨ (box.width ≤ canvas.1 ∧ box.height ≤ canvas.2)

/-- **A box fits the canvas when it is scaled by its factor** if it has an extent on both axes. If
it has not, it is not scaled, and fits if it did before. -/
theorem fitFactor_fits_iff {canvas : ℝ × ℝ} {box : Rect ℝ} :
    box.width * fitFactor canvas box ≤ canvas.1 ∧ box.height * fitFactor canvas box ≤ canvas.2 ↔
      FitsScaled canvas box := by
  unfold fitFactor FitsScaled
  rw [Scalar.zero_real, Scalar.one_real]
  split
  · rename_i hbox
    refine iff_of_true ?_ (.inl hbox)
    rw [Scalar.atMost_real, Scalar.min_real]
    refine ⟨?_, ?_⟩
    · rw [mul_comm, ← le_div_iff₀ hbox.1]
      exact (min_le_left _ _).trans (min_le_left _ _)
    · rw [mul_comm, ← le_div_iff₀ hbox.2]
      exact (min_le_left _ _).trans (min_le_right _ _)
  · rename_i hbox
    rw [mul_one, mul_one, or_iff_right hbox]

/-- A root that is scaled has its corner at the origin. -/
theorem Projection.ScalesBy.root {p : Projection ℝ} {scale : WorldScale ℝ} {root : Rect ℝ} {fit : ℝ}
    (h : p.ScalesBy scale root fit) (hs : scale.Proper) (hroot : root.Upright) (hfit : 0 ≤ fit) :
    p.map.applyRect root =
      ⟨0, 0, (scale.rectToWorld root).width * fit, (scale.rectToWorld root).height * fit⟩ := by
  have hw : 0 ≤ (scale.rectToWorld root).width * fit := by
    rw [WorldScale.rectToWorld_width]
    exact mul_nonneg (mul_nonneg (sub_nonneg.2 hroot.across) hs.width_pos.le) hfit
  have hh : 0 ≤ (scale.rectToWorld root).height * fit := by
    rw [WorldScale.rectToWorld_height]
    exact mul_nonneg (mul_nonneg (sub_nonneg.2 hroot.down) hs.height_pos.le) hfit
  have hcorner : p.map.apply ⟨root.left, root.top⟩ = ⟨0, 0⟩ := by
    rw [h, WorldScale.toWorld, WorldScale.rectToWorld, sub_self, sub_self, zero_mul]
  have hopposite : p.map.apply ⟨root.right, root.bottom⟩ =
      ⟨(scale.rectToWorld root).width * fit, (scale.rectToWorld root).height * fit⟩ := h _
  rw [AxisMap.applyRect, hcorner, hopposite]
  simp only [Scalar.min_real, Scalar.max_real, min_eq_left hw, min_eq_left hh, max_eq_right hw,
    max_eq_right hh]

section
variable {d : Drawing ℝ} {render : RenderSettings ℝ} {root : Rect ℝ}
  (hspace : render.space = .absolute) (hroot : d.boxes.get? d.hierarchy.root = some root)
include hspace hroot

/-- **In absolute space pixels are scaled evenly.** -/
theorem projection_scalesBy : (projection d render).ScalesBy d.scale root
    (fitFactor (render.width, render.height) (d.scale.rectToWorld root)) := by
  intro q
  simp only [projection, hspace, hroot, Option.getD_some, AxisMap.apply, WorldScale.toWorld,
    WorldScale.rectToWorld, Point.mk.injEq]
  exact ⟨by ring, by ring⟩

variable (hs : d.scale.Proper) (hup : root.Upright) (hw : 0 < render.width)
  (hh : 0 < render.height)
include hs hup hw hh

theorem projection_root : (projection d render).map.applyRect root =
    ⟨0, 0, (d.scale.rectToWorld root).width *
        fitFactor (render.width, render.height) (d.scale.rectToWorld root),
      (d.scale.rectToWorld root).height *
        fitFactor (render.width, render.height) (d.scale.rectToWorld root)⟩ :=
  (projection_scalesBy hspace hroot).root hs hup (fitFactor_pos hw hh _).le

/-- **The root is on the canvas** when it can be scaled down to it, or fits as it is. -/
theorem projection_root_within_iff :
    ((projection d render).map.applyRect root).Within ⟨0, 0, render.width, render.height⟩ ↔
      FitsScaled (render.width, render.height) (d.scale.rectToWorld root) := by
  rw [projection_root hspace hroot hs hup hw hh, ← fitFactor_fits_iff]
  exact ⟨fun hin => ⟨hin.right, hin.bottom⟩, fun ⟨hx, hy⟩ => ⟨le_rfl, le_rfl, hx, hy⟩⟩

end

/-- A root with a solid body in it can be scaled to any canvas. -/
theorem fitsScaled_of_body {d : Drawing ℝ} {root : Rect ℝ} (hs : d.scale.Proper)
    (hsolid : d.Solid) (h : d.Enclosed root) {e : String} (he : d.placements.contains e = true)
    (canvas : ℝ × ℝ) : FitsScaled canvas (d.scale.rectToWorld root) := by
  obtain ⟨p, hp⟩ := Table.contains_iff.1 he
  obtain ⟨hacross, hdown⟩ := hsolid hp
  obtain ⟨-, hbody⟩ := h.bodies hp
  refine .inl ⟨?_, ?_⟩
  · rw [WorldScale.rectToWorld_width]
    exact mul_pos ((Scalar.epsilon_pos.trans hacross).trans_le hbody.width_le) hs.width_pos
  · rw [WorldScale.rectToWorld_height]
    exact mul_pos ((Scalar.epsilon_pos.trans hdown).trans_le hbody.height_le) hs.height_pos

end Picture

end NestedLayout
