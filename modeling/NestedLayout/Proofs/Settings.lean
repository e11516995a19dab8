import NestedLayout.Proofs.Exact.Scalar
import NestedLayout.Settings.Basic

/-!
# Settings in range

The ranges in which a settings file may place the exact settings: `Settings.InRange`. The measures
of elements need no more than what keeps every element wider than nothing.

* `Settings.standard_inRange`: the standard settings are in range.
-/

set_option autoImplicit false

namespace NestedLayout

/-- Room and least sizes in range. -/
structure Spacing.InRange (s : Spacing ℝ) : Prop where
  padding : 0 ≤ s.padding
  gap : 0 ≤ s.gap
  minWidth : 1 ≤ s.minWidth
  minHeight : 1 ≤ s.minHeight
  growthWidth : 0 ≤ s.growthWidth
  growthHeight : 0 ≤ s.growthHeight

/-- Measures that give every element a width. -/
structure MeasureSettings.InRange (m : MeasureSettings ℝ) : Prop where
  fontSize : 0 < m.fontSize
  lineHeight : 0 < m.lineHeight
  vertexDiameter : 0 < m.vertexDiameter
  vertexLabelGap : 0 ≤ m.vertexLabelGap
  predicatePaddingX : 0 ≤ m.predicatePaddingX
  predicatePaddingY : 0 ≤ m.predicatePaddingY
  hookClearance : 0 ≤ m.hookClearance

structure SizingSettings.InRange (z : SizingSettings ℝ) : Prop where
  rootElementReserve : 0 ≤ z.rootElementReserve ∧ z.rootElementReserve ≤ 0.5
  shrinkThreshold : 1 ≤ z.shrinkThreshold
  shrinkTarget : 1 ≤ z.shrinkTarget
  minShrinkFactor : 0.01 ≤ z.minShrinkFactor ∧ z.minShrinkFactor ≤ 1

/-- The values that a settings file can set; retry budget and number of attempts are free. -/
structure Settings.InRange (s : Settings ℝ) : Prop where
  spacing : s.layout.spacing.InRange
  measure : s.layout.measure.InRange
  sizing : s.layout.sizing.InRange
  width : 1 ≤ s.render.width
  height : 1 ≤ s.render.height

theorem Settings.standard_inRange : (Settings.standard : Settings ℝ).InRange where
  spacing := by constructor <;> norm_num [Settings.standard, LayoutSettings.standard]
  measure := by constructor <;> norm_num [Settings.standard, LayoutSettings.standard]
  sizing := by constructor <;> norm_num [Settings.standard, LayoutSettings.standard]
  width := by norm_num [Settings.standard]
  height := by norm_num [Settings.standard]

end NestedLayout
