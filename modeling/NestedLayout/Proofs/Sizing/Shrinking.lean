import NestedLayout.Proofs.Exact.Rect
import NestedLayout.Proofs.Settings
import NestedLayout.Sizing.Proportional

/-!
# Shrinking to the contents

How far a box shrinks about its center, at any scale, in exact arithmetic.

* `ShrunkSide`: what each of the two sides satisfies on its own, where the factor may also be above
  one (`shrunkSide_clamp`).
* `shrinkToContent_shrunk`: shrinking returns a box, and `Shrunk` bounds its sides and its area from
  both ends.
-/

set_option autoImplicit false

namespace NestedLayout.Proportional

/-- The area of a box in pixels. -/
noncomputable def pixelArea (scale : WorldScale ℝ) (box : Rect ℝ) : ℝ :=
  box.width * scale.width * (box.height * scale.height)

/-! ## One side -/

/-- A side of length `old` shrinks to `new` by a factor. The lengths are in unit space, where a unit
has so many pixels; the least length is in pixels. -/
structure ShrunkSide (least factor unit old new : ℝ) : Prop where
  nonneg : 0 ≤ new
  le : new ≤ old
  keepsLeast : min least (old * unit) ≤ new * unit
  keepsShare : old * min factor 1 ≤ new
  reaches : least < new * unit → new * unit ≤ old * unit * factor

/-- A side of no pixels, or of fewer than none, stays as it is. -/
theorem shrunkSide_clamp {least factor unit old : ℝ} (hleast : 0 < least)
    (hunit : unit ≠ 0) (hold : 0 ≤ old)
    (h : Scalar.min least (old * unit) ≤ old * unit) :
    ShrunkSide least factor unit old (Scalar.clamp (Scalar.min least (old * unit)) (old * unit) h
      (old * unit * factor) / unit) := by
  rw [Scalar.clamp_real, Scalar.min_real]
  rcases hunit.lt_or_gt with hneg | hpos
  · have hpx : old * unit ≤ 0 := mul_nonpos_of_nonneg_of_nonpos hold hneg.le
    rw [min_eq_right (hpx.trans hleast.le), max_eq_left (min_le_right _ _),
      mul_div_cancel_right₀ _ hunit]
    exact ⟨hold, le_rfl, min_le_right _ _, mul_le_of_le_one_right hold (min_le_right _ _),
      fun hlt => absurd (hlt.trans_le hpx) hleast.le.not_gt⟩
  · have hpx : 0 ≤ old * unit := mul_nonneg hold hpos.le
    generalize hnew : max (min least (old * unit)) (min (old * unit * factor) (old * unit)) = new
    have hmul : new / unit * unit = new := div_mul_cancel₀ _ hunit
    have hshare : old * unit * min factor 1 ≤ new := by
      rw [mul_min_of_nonneg _ _ hpx, mul_one]
      exact (le_max_right _ _).trans_eq hnew
    refine
      { nonneg := div_nonneg ?_ hpos.le
        le := (div_le_iff₀ hpos).2 ?_
        keepsLeast := ?_
        keepsShare := (le_div_iff₀ hpos).2 ?_
        reaches := fun hlt => ?_ }
    · exact (le_min hleast.le hpx).trans ((le_max_left _ _).trans_eq hnew)
    · exact hnew ▸ max_le (min_le_right _ _) (min_le_right _ _)
    · exact ((le_max_left _ _).trans_eq hnew).trans_eq hmul.symm
    · linarith
    · rw [hmul] at hlt ⊢
      rcases le_max_iff.1 hnew.ge with hle | hle
      · exact absurd ((hle.trans (min_le_left _ _)).trans_lt hlt) (lt_irrefl _)
      · exact hle.trans (min_le_left _ _)

/-! ## Both sides -/

/-- What shrinking makes of a box. -/
structure Shrunk (settings : SizingSettings ℝ) (scale : WorldScale ℝ) (r : Requirement ℝ)
    (box box' : Rect ℝ) : Prop where
  center : box'.center = box.center
  within : box'.Within box
  width : min r.minWidth (box.width * scale.width) ≤ box'.width * scale.width
  height : min r.minHeight (box.height * scale.height) ≤ box'.height * scale.height
  /-- The area keeps its least share. -/
  share : settings.minShrinkFactor * box.area ≤ box'.area
  /-- What is within the threshold stays. -/
  snug : pixelArea scale box ≤ r.minArea * settings.shrinkThreshold → box' = box
  /-- What is not comes down to the target or to the least share, as far as the sides can. -/
  target : r.minArea * settings.shrinkThreshold < pixelArea scale box →
    r.minWidth < box'.width * scale.width → r.minHeight < box'.height * scale.height →
    pixelArea scale box' ≤
      max (r.minArea * settings.shrinkTarget) (settings.minShrinkFactor * pixelArea scale box)

section
variable {settings : SizingSettings ℝ} {scale : WorldScale ℝ} {r : Requirement ℝ} {box : Rect ℝ}
  (hbox : box.Upright)
include hbox

theorem Shrunk.unchanged (hz : settings.InRange)
    (h : pixelArea scale box ≤ r.minArea * settings.shrinkThreshold) :
    Shrunk settings scale r box box where
  center := rfl
  within := .refl box
  width := min_le_right _ _
  height := min_le_right _ _
  share := by
    rw [hbox.area_eq]
    exact mul_le_of_le_one_left (mul_nonneg hbox.width_nonneg hbox.height_nonneg)
      hz.minShrinkFactor.2
  snug _ := rfl
  target hlt := absurd h hlt.not_ge

/-- Both factors together come to the larger of two shares: the one that the target is of the area,
and the least one. -/
theorem Shrunk.of_sides {factor width height : ℝ} (hz : settings.InRange)
    (hx : ShrunkSide r.minWidth factor scale.width box.width width)
    (hy : ShrunkSide r.minHeight factor scale.height box.height height)
    (hw : 0 < r.minWidth) (hh : 0 < r.minHeight) (hfactor : 0 ≤ factor)
    (hsquare : factor * factor =
      max (r.minArea * settings.shrinkTarget / pixelArea scale box) settings.minShrinkFactor)
    (hlarge : r.minArea * settings.shrinkThreshold < pixelArea scale box) :
    Shrunk settings scale r box (.fromCenter box.center width height) := by
  have hpos : 0 < pixelArea scale box :=
    (mul_pos (mul_pos hw hh) (zero_lt_one.trans_le hz.shrinkThreshold)).trans hlarge
  have hwidth := Rect.width_fromCenter box.center height hx.nonneg
  have hheight := Rect.height_fromCenter box.center width hy.nonneg
  refine
    { center := Rect.center_fromCenter _ _ _
      within := Rect.fromCenter_within hbox hx.le hy.le
      width := hwidth.symm ▸ hx.keepsLeast
      height := hheight.symm ▸ hy.keepsLeast
      share := ?_
      snug := fun h => absurd h hlarge.not_ge
      target := fun _ hwide hhigh => ?_ }
  · rw [hbox.area_eq, (Rect.fromCenter_upright _ _ _).area_eq, hwidth, hheight]
    have hleast : settings.minShrinkFactor ≤ min factor 1 * min factor 1 := by
      rcases le_total factor 1 with hle | hle
      · rw [min_eq_left hle, hsquare]
        exact le_max_right _ _
      · rw [min_eq_right hle, mul_one]
        exact hz.minShrinkFactor.2
    calc settings.minShrinkFactor * (box.width * box.height)
        ≤ min factor 1 * min factor 1 * (box.width * box.height) :=
          mul_le_mul_of_nonneg_right hleast (mul_nonneg hbox.width_nonneg hbox.height_nonneg)
      _ = box.width * min factor 1 * (box.height * min factor 1) := by ring
      _ ≤ width * height := mul_le_mul hx.keepsShare hy.keepsShare
          (mul_nonneg hbox.height_nonneg (le_min hfactor zero_le_one)) hx.nonneg
  · rw [hwidth] at hwide
    rw [hheight] at hhigh
    rw [pixelArea, hwidth, hheight]
    calc width * scale.width * (height * scale.height)
        ≤ box.width * scale.width * factor * (box.height * scale.height * factor) :=
          mul_le_mul (hx.reaches hwide) (hy.reaches hhigh) (hh.trans hhigh).le
            ((hw.trans hwide).le.trans (hx.reaches hwide))
      _ = factor * factor * pixelArea scale box := by rw [pixelArea]; ring
      _ = max (r.minArea * settings.shrinkTarget)
            (settings.minShrinkFactor * pixelArea scale box) := by
          rw [hsquare, max_mul_of_nonneg _ _ hpos.le, div_mul_cancel₀ _ hpos.ne']

/-- **Shrinking never fails, and is bounded from both ends**: no side comes below the least size or
what it was, the area keeps its least share, and above the threshold it comes down to the target
unless a side is at its least. -/
theorem shrinkToContent_shrunk (hw : 0 < r.minWidth) (hh : 0 < r.minHeight)
    (hz : settings.InRange) (scale : WorldScale ℝ) :
    ∃ box', shrinkToContent box r scale settings = some box' ∧
      Shrunk settings scale r box box' := by
  have hrequired : 0 < r.minArea := mul_pos hw hh
  by_cases hsnug : pixelArea scale box ≤ r.minArea * settings.shrinkThreshold
  · exact ⟨box, if_pos (.inr hsnug), .unchanged hbox hz hsnug⟩
  have hlarge := not_le.1 hsnug
  have hpos : 0 < pixelArea scale box :=
    (mul_pos hrequired (zero_lt_one.trans_le hz.shrinkThreshold)).trans hlarge
  have hunit : scale.width ≠ 0 ∧ scale.height ≠ 0 := by
    constructor <;>
    · intro hzero
      simp [pixelArea, hzero] at hpos
  have hlo : Scalar.min r.minWidth (box.width * scale.width) ≤ box.width * scale.width :=
    (Scalar.min_real _ _).trans_le (min_le_right _ _)
  have hlo' : Scalar.min r.minHeight (box.height * scale.height) ≤ box.height * scale.height :=
    (Scalar.min_real _ _).trans_le (min_le_right _ _)
  have hkeep : ¬ (r.minArea ≤ 0.0 ∨
      pixelArea scale box ≤ r.minArea * settings.shrinkThreshold) := by
    rw [Scalar.zero_real, not_or]
    exact ⟨hrequired.not_ge, hsnug⟩
  simp only [pixelArea] at hkeep
  simp only [shrinkToContent, if_neg hkeep, clamp?, dif_pos hlo, dif_pos hlo', Scalar.max_real]
  have hfactor : 0 ≤ max (r.minArea * settings.shrinkTarget / pixelArea scale box)
      settings.minShrinkFactor :=
    le_max_of_le_right ((by norm_num : (0 : ℝ) ≤ 0.01).trans hz.minShrinkFactor.1)
  exact ⟨_, rfl, .of_sides hbox hz
    (shrunkSide_clamp hw hunit.1 hbox.width_nonneg hlo)
    (shrunkSide_clamp hh hunit.2 hbox.height_nonneg hlo') hw hh
    (Real.sqrt_nonneg _) (Real.mul_self_sqrt hfactor) hlarge⟩

end

/-- A sheet of a hundred pixels each way about contents that need a quarter of it. -/
theorem unit_shrunk :
    let settings := (Settings.standard : Settings ℝ).layout.sizing
    let r : Requirement ℝ := ⟨50, 50, 60, 55, [], []⟩
    (Rect.unit : Rect ℝ).Upright ∧ 0 < r.minWidth ∧ 0 < r.minHeight ∧ settings.InRange ∧
      ∃ box', shrinkToContent .unit r ⟨100, 100⟩ settings = some box' ∧
        Shrunk settings ⟨100, 100⟩ r .unit box' := by
  intro settings r
  have hbox : (Rect.unit : Rect ℝ).Upright := by constructor <;> norm_num
  have hw : 0 < r.minWidth := by norm_num [r]
  have hh : 0 < r.minHeight := by norm_num [r]
  have hz : settings.InRange := Settings.standard_inRange.sizing
  exact ⟨hbox, hw, hh, hz, shrinkToContent_shrunk hbox hw hh hz _⟩

end NestedLayout.Proportional
