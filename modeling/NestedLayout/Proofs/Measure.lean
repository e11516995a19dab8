import NestedLayout.Measure.Extent
import NestedLayout.Proofs.Sizing.Tracks
import NestedLayout.Proofs.Settings

/-!
# Extents in exact arithmetic

With measures in range every element has a width and is not lower than nothing
(`Extent.of_proper`): a label has a line that is not empty, and every character has a width.
-/

set_option autoImplicit false

namespace NestedLayout

namespace Text

theorem thousandths_real (n : Nat) : (OfScientific.ofScientific n true 3 : ℝ) = n / 1000 := by
  rw [← Rat.cast_ofScientific]
  show ((Rat.ofScientific n true 3 : ℚ) : ℝ) = _
  rw [Rat.ofScientific_true_def, Rat.mkRat_eq_div]
  norm_num

theorem advance_pos (c : Char) : (0 : ℝ) < advance c := by
  have hall : ∀ e ∈ advances, 0 < e.2 := by decide
  have hn : 0 < (advances.lookup c).getD 568 := by
    cases hl : advances.lookup c with
    | none => exact Nat.succ_pos _
    | some n =>
      obtain ⟨before, after, he, -⟩ := List.lookup_eq_some_iff.1 hl
      exact hall (c, n) (he ▸ List.mem_append_right _ (.head _))
  have hr : (0 : ℝ) < ((advances.lookup c).getD 568 : Nat) / 1000 := by positivity
  exact hr.trans_eq (thousandths_real _).symm

theorem lineWidth_pos {line : List Char} {fontSize : ℝ} (hl : line ≠ []) (hf : 0 < fontSize) :
    0 < lineWidth line fontSize := by
  rw [lineWidth, Scalar.sum_real]
  refine mul_pos (List.sum_pos _ (fun a ha => ?_) (by simpa using hl)) hf
  obtain ⟨c, -, rfl⟩ := List.mem_map.1 ha
  exact advance_pos c

theorem ne_nil_of_mem_lines {text : String} {line : List Char} (h : line ∈ lines text) :
    line ≠ [] := by
  have := (List.mem_filter.1 h).2
  simpa using this

/-- A label with lines has a width; none has a negative height. -/
theorem block_proper (text : String) {m : MeasureSettings ℝ} (hm : m.InRange) :
    ((block text m).lines ≠ [] → 0 < (block text m).width) ∧ 0 ≤ (block text m).height := by
  unfold block
  dsimp only
  split
  · exact ⟨fun h => absurd rfl h, by norm_num⟩
  · rename_i hne
    refine ⟨fun hl => ?_, ?_⟩
    · obtain ⟨line, hline⟩ := List.exists_mem_of_ne_nil _ hl
      have hpos := lineWidth_pos (ne_nil_of_mem_lines hline) hm.fontSize
      exact hpos.trans_le
        (le_largest (List.mem_map_of_mem (f := fun line => lineWidth line m.fontSize) hline) _)
    · have := hm.fontSize
      have := hm.lineHeight
      show (0 : ℝ) ≤ ((lines text).length : ℝ) * (m.fontSize * m.lineHeight)
      positivity

end Text

namespace Extent

/-- An extent with a width and no negative height. -/
structure Proper (e : Extent ℝ) : Prop where
  width : 0 < e.totalWidth
  height : 0 ≤ e.totalHeight

theorem ofVertex_proper (name : String) {m : MeasureSettings ℝ} (hm : m.InRange) :
    (ofVertex name m).Proper := by
  have hd := hm.vertexDiameter
  have hg := hm.vertexLabelGap
  have hh := (Text.block_proper name hm).2
  unfold ofVertex
  dsimp only
  split
  · constructor <;> simp only [totalWidth, totalHeight] <;> norm_num <;> linarith
  · have hw := le_max_right ((Text.block name m).width - m.vertexDiameter) 0
    rw [Scalar.atLeast_real, Scalar.zero_real]
    refine ⟨?_, ?_⟩
    · show 0 < m.vertexDiameter + max _ 0
      linarith
    · show 0 ≤ m.vertexDiameter + (m.vertexLabelGap + (Text.block name m).height)
      linarith

theorem ofPredicate_proper (text : String) {m : MeasureSettings ℝ} (hm : m.InRange) :
    (ofPredicate text m).Proper := by
  have hf := hm.fontSize
  have hl := hm.lineHeight
  have hx := hm.predicatePaddingX
  have hy := hm.predicatePaddingY
  have hc := hm.hookClearance
  obtain ⟨hw, hh⟩ := Text.block_proper text hm
  unfold ofPredicate
  dsimp only
  split
  · have hn : (0 : ℝ) < (Nat.max m.emptyTextChars 1 : Nat) :=
      Nat.cast_pos.2 (Nat.lt_of_lt_of_le Nat.one_pos (Nat.le_max_right _ _))
    have hchars : 0 < m.fontSize * 0.56 * (Nat.max m.emptyTextChars 1 : Nat) := by positivity
    have hline : 0 < m.fontSize * m.lineHeight := by positivity
    rw [Scalar.ofNat_real, Scalar.two_real, Scalar.zero_real]
    constructor <;> simp only [totalWidth, totalHeight] <;> linarith
  · rename_i hne
    have hw := hw (by simpa using hne)
    constructor <;> simp only [totalWidth, totalHeight] <;> norm_num <;> linarith

/-- **Every element has a width**, when the measures are in range. -/
theorem of_proper (e : Diagram.Element) {m : MeasureSettings ℝ} (hm : m.InRange) :
    (of e m).Proper := by
  unfold of
  split
  · exact ofVertex_proper _ hm
  · exact ofPredicate_proper _ hm

/-- The clearance around an element is not negative. -/
theorem of_clearance (e : Diagram.Element) {m : MeasureSettings ℝ} (hm : m.InRange) :
    0 ≤ (of e m).clearanceWidth ∧ 0 ≤ (of e m).clearanceHeight := by
  unfold of
  split
  · unfold ofVertex
    dsimp only
    split
    · rw [Scalar.zero_real]
      exact ⟨le_rfl, le_rfl⟩
    · rw [Scalar.atLeast_real, Scalar.zero_real]
      exact ⟨le_max_right _ _, add_nonneg hm.vertexLabelGap (Text.block_proper e.text hm).2⟩
  · unfold ofPredicate
    dsimp only
    rw [Scalar.two_real, Scalar.zero_real]
    exact ⟨mul_nonneg hm.hookClearance zero_le_two, le_rfl⟩

end Extent

end NestedLayout
