import NestedLayout.Proofs.Exact.Rect

/-!
# Exact maps of the plane

What `AxisMap.applyRect` does to rectangles with real coordinates.

* `applyRect_of_upright`: a map with positive factors keeps the sides of an upright rectangle in
  order, so it neither makes nor undoes a containment (`applyRect_within_iff`) or an overlap
  (`applyRect_intersects`). On other rectangles it acts as on `Rect.ordered`
  (`applyRect_ordered`).
* `applyRect_between`: the map from one rectangle onto another one reaches it exactly, when the
  first is not too thin; it always stays inside (`applyRect_between_within`).
* `axis_factor_pos`, `axis_of_short`: the factor of such a map is positive on an axis that is long
  enough, and zero on one that is too short, where everything goes to the middle of the target.
-/

set_option autoImplicit false

namespace NestedLayout

/-! ## Corners in order -/

namespace Rect

/-- The upright rectangle with the corners of another one. -/
noncomputable def ordered (r : Rect ℝ) : Rect ℝ :=
  ⟨min r.left r.right, min r.top r.bottom, max r.left r.right, max r.top r.bottom⟩

theorem ordered_upright (r : Rect ℝ) : r.ordered.Upright := ⟨min_le_max, min_le_max⟩

theorem ordered_of_upright {r : Rect ℝ} (h : r.Upright) : r.ordered = r := by
  rw [ordered, min_eq_left h.across, min_eq_left h.down, max_eq_right h.across,
    max_eq_right h.down]

/-- Two rectangles lie to each other as two other ones do: the one in the other, or their interiors
meeting. -/
structure SameRelations (r s r' s' : Rect ℝ) : Prop where
  within : r'.Within s' ↔ r.Within s
  intersects : r'.intersects s' = r.intersects s

end Rect

namespace AxisMap

/-! ## Images of rectangles -/

theorem applyRect_upright (m : AxisMap ℝ) (r : Rect ℝ) : (m.applyRect r).Upright := by
  simp only [applyRect, Scalar.min_real, Scalar.max_real]
  exact ⟨min_le_max, min_le_max⟩

theorem applyRect_identity {r : Rect ℝ} (h : r.Upright) : identity.applyRect r = r := by
  obtain ⟨hx, hy⟩ := h
  simp [applyRect, apply, identity, Scalar.one_real, Scalar.zero_real, hx, hy]

/-- A map does not see in which order the sides come. -/
theorem applyRect_ordered (m : AxisMap ℝ) (r : Rect ℝ) : m.applyRect r.ordered = m.applyRect r := by
  simp only [applyRect, apply, Rect.ordered, Scalar.min_real, Scalar.max_real, Rect.mk.injEq]
  rcases le_total r.left r.right with hx | hx <;> rcases le_total r.top r.bottom with hy | hy <;>
    simp only [hx, hy, min_eq_left, min_eq_right, max_eq_left, max_eq_right, min_comm, max_comm,
      and_self]

section
variable {m : AxisMap ℝ} (hx : 0 < m.sx) (hy : 0 < m.sy) {r s : Rect ℝ}
include hx hy

theorem applyRect_of_upright (hr : r.Upright) : m.applyRect r =
    ⟨r.left * m.sx + m.tx, r.top * m.sy + m.ty, r.right * m.sx + m.tx, r.bottom * m.sy + m.ty⟩ := by
  have hacross : r.left * m.sx + m.tx ≤ r.right * m.sx + m.tx := by
    have := mul_le_mul_of_nonneg_right hr.across hx.le
    linarith
  have hdown : r.top * m.sy + m.ty ≤ r.bottom * m.sy + m.ty := by
    have := mul_le_mul_of_nonneg_right hr.down hy.le
    linarith
  simp only [applyRect, apply, Scalar.min_real, Scalar.max_real, min_eq_left hacross,
    min_eq_left hdown, max_eq_right hacross, max_eq_right hdown]

/-- **Scaling up or down keeps overlaps.** -/
theorem applyRect_intersects (hr : r.Upright) (hs : s.Upright) :
    (m.applyRect r).intersects (m.applyRect s) = r.intersects s := by
  rw [applyRect_of_upright hx hy hr, applyRect_of_upright hx hy hs, Bool.eq_iff_iff,
    Rect.intersects_iff, Rect.intersects_iff]
  simp only [add_lt_add_iff_right, mul_lt_mul_iff_left₀ hx, mul_lt_mul_iff_left₀ hy]

/-- **Scaling up or down keeps containments.** -/
theorem applyRect_within_iff (hr : r.Upright) (hs : s.Upright) :
    (m.applyRect r).Within (m.applyRect s) ↔ r.Within s := by
  rw [applyRect_of_upright hx hy hr, applyRect_of_upright hx hy hs]
  refine ⟨?_, ?_⟩
  · rintro ⟨hl, ht, hr, hb⟩
    simp only [add_le_add_iff_right, mul_le_mul_iff_left₀ hx, mul_le_mul_iff_left₀ hy]
      at hl ht hr hb
    exact ⟨hl, ht, hr, hb⟩
  · rintro ⟨hl, ht, hr, hb⟩
    constructor <;>
      simpa only [add_le_add_iff_right, mul_le_mul_iff_left₀ hx, mul_le_mul_iff_left₀ hy]

theorem applyRect_holds {p : Point ℝ} (hr : r.Upright) (h : r.Holds p) :
    (m.applyRect r).Holds (m.apply p) := by
  rw [applyRect_of_upright hx hy hr]
  exact ⟨add_le_add_left (mul_le_mul_of_nonneg_right h.left hx.le) _,
    add_le_add_left (mul_le_mul_of_nonneg_right h.top hy.le) _,
    add_le_add_left (mul_le_mul_of_nonneg_right h.right hx.le) _,
    add_le_add_left (mul_le_mul_of_nonneg_right h.bottom hy.le) _⟩

/-- **Two images lie to each other as the rectangles do**, put in order. -/
theorem applyRect_relations (r s : Rect ℝ) :
    Rect.SameRelations r.ordered s.ordered (m.applyRect r) (m.applyRect s) := by
  rw [← m.applyRect_ordered r, ← m.applyRect_ordered s]
  exact ⟨applyRect_within_iff hx hy r.ordered_upright s.ordered_upright,
    applyRect_intersects hx hy r.ordered_upright s.ordered_upright⟩

end

/-! ## Carrying a rectangle onto another one -/

section
variable {fromLo fromHi : ℝ} (toLo toHi : ℝ)

/-- A span that is too short is sent to the center of the target. -/
theorem axis_of_short (h : |fromHi - fromLo| ≤ Scalar.epsilon) :
    axis fromLo fromHi toLo toHi = (0, (toLo + toHi) / 2) := by
  simp only [axis, Scalar.abs_real, if_pos h]
  norm_num

/-- The ends of a span are carried onto those of the target, unless it is too short. -/
theorem axis_ends (h : Scalar.epsilon < |fromHi - fromLo|) :
    let m := axis fromLo fromHi toLo toHi
    fromLo * m.1 + m.2 = toLo ∧ fromHi * m.1 + m.2 = toHi := by
  have hne : fromHi - fromLo ≠ 0 := abs_pos.1 (Scalar.epsilon_pos.trans h)
  unfold axis
  simp only [Scalar.abs_real, if_neg h.not_ge]
  refine ⟨by ring, ?_⟩
  field_simp
  ring

end

theorem axis_factor_pos {fromLo fromHi toLo toHi : ℝ} (hfrom : Scalar.epsilon < fromHi - fromLo)
    (hto : toLo < toHi) : 0 < (axis fromLo fromHi toLo toHi).1 := by
  have hspan : ¬ |fromHi - fromLo| ≤ Scalar.epsilon := (hfrom.trans_le (le_abs_self _)).not_ge
  simp only [axis, Scalar.abs_real, if_neg hspan]
  exact div_pos (sub_pos.2 hto) (Scalar.epsilon_pos.trans hfrom)

/-- Both ends of a span are carried into the target. -/
theorem axis_within (fromLo fromHi : ℝ) {toLo toHi : ℝ} (hto : toLo ≤ toHi) :
    let m := axis fromLo fromHi toLo toHi
    (toLo ≤ fromLo * m.1 + m.2 ∧ fromLo * m.1 + m.2 ≤ toHi) ∧
      toLo ≤ fromHi * m.1 + m.2 ∧ fromHi * m.1 + m.2 ≤ toHi := by
  intro m
  by_cases hspan : Scalar.epsilon < |fromHi - fromLo|
  · obtain ⟨hlo, hhi⟩ := axis_ends toLo toHi hspan
    exact ⟨⟨hlo.ge, hlo.trans_le hto⟩, hto.trans_eq hhi.symm, hhi.le⟩
  · have hm : m = (0, (toLo + toHi) / 2) := axis_of_short toLo toHi (not_lt.1 hspan)
    rw [hm]
    refine ⟨⟨?_, ?_⟩, ?_, ?_⟩ <;> linarith

/-- **A rectangle is carried into the target.** -/
theorem applyRect_between_within (old : Rect ℝ) {new : Rect ℝ} (hnew : new.Upright) :
    ((between old new).applyRect old).Within new := by
  obtain ⟨⟨hl, hl'⟩, hr, hr'⟩ := axis_within old.left old.right hnew.across
  obtain ⟨⟨ht, ht'⟩, hb, hb'⟩ := axis_within old.top old.bottom hnew.down
  simp only [applyRect, apply, between, Scalar.min_real, Scalar.max_real]
  exact ⟨le_min hl hr, le_min ht hb, max_le hl' hr', max_le ht' hb'⟩

/-- A rectangle that is not too thin is carried onto the target. -/
theorem applyRect_between {old new : Rect ℝ} (hw : Scalar.epsilon < old.width)
    (hh : Scalar.epsilon < old.height) (hnew : new.Upright) :
    (between old new).applyRect old = new := by
  obtain ⟨hl, hr⟩ := axis_ends new.left new.right (hw.trans_le (le_abs_self _))
  obtain ⟨ht, hb⟩ := axis_ends new.top new.bottom (hh.trans_le (le_abs_self _))
  simp only [applyRect, apply, between, hl, hr, ht, hb, Scalar.min_real, Scalar.max_real,
    min_eq_left hnew.across, min_eq_left hnew.down, max_eq_right hnew.across,
    max_eq_right hnew.down]

/-- Across a rectangle without extent everything goes to the middle of the target. -/
theorem applyRect_of_narrow {old : Rect ℝ} (h : |old.width| ≤ Scalar.epsilon) (new r : Rect ℝ) :
    ((between old new).applyRect r).left = new.center.x ∧
      ((between old new).applyRect r).right = new.center.x := by
  simp only [applyRect, apply, between, axis_of_short new.left new.right h, Scalar.min_real,
    Scalar.max_real, mul_zero, zero_add, min_self, max_self, Rect.center_x, and_self]

theorem applyRect_of_low {old : Rect ℝ} (h : |old.height| ≤ Scalar.epsilon) (new r : Rect ℝ) :
    ((between old new).applyRect r).top = new.center.y ∧
      ((between old new).applyRect r).bottom = new.center.y := by
  simp only [applyRect, apply, between, axis_of_short new.top new.bottom h, Scalar.min_real,
    Scalar.max_real, mul_zero, zero_add, min_self, max_self, Rect.center_y, and_self]

end AxisMap

end NestedLayout
