import NestedLayout.Proofs.Drawing.Overlaps
import NestedLayout.Proofs.Exact.AxisMap
import NestedLayout.Proofs.Picture.Shown

/-!
# Overlaps in a picture

The overlaps in a picture are read off its figures: two elements of one area whose footprints meet.

* `length_overlaps`: the picture has the overlaps of its drawing between elements that are shown;
  the projection of a drawing neither makes nor undoes one (`AxisMap.applyRect_intersects`).
-/

set_option autoImplicit false

namespace NestedLayout

/-! ## Figures that meet -/

section
variable {α : Type} [Scalar α]

/-- Whether two figures of one area have footprints that meet. -/
def Figure.meets (f g : Figure α) : Bool :=
  match f.footprint, g.footprint with
  | some r, some s => f.area == g.area && r.intersects s
  | _, _ => false

/-- The pairs of elements of one area whose footprints meet. -/
def Picture.overlaps (p : Picture α) : List (String × String) :=
  relatedPairs Figure.meets p.figures.entries

theorem Figure.meets_iff {f g : Figure α} : f.meets g = true ↔
    f.area = g.area ∧ ∃ r s, f.footprint = some r ∧ g.footprint = some s ∧
      r.intersects s = true := by
  unfold Figure.meets
  split
  · rename_i r s hr hs
    simp [hr, hs]
  · rename_i hnone
    refine iff_of_false Bool.false_ne_true ?_
    rintro ⟨-, r, s, hr, hs, -⟩
    exact hnone r s hr hs

end

theorem Figure.meets_comm (f g : Figure ℝ) : f.meets g = g.meets f := by
  rw [Bool.eq_iff_iff, Figure.meets_iff, Figure.meets_iff]
  refine ⟨?_, ?_⟩ <;>
  · rintro ⟨harea, r, s, hr, hs, h⟩
    exact ⟨harea.symm, s, r, hs, hr, Rect.intersects_comm s r ▸ h⟩

namespace Picture

/-! ## Overlaps -/

theorem fitFactor_pos {canvas : ℝ × ℝ} (hw : 0 < canvas.1) (hh : 0 < canvas.2) (box : Rect ℝ) :
    0 < fitFactor canvas box := by
  unfold fitFactor
  split
  · rename_i hbox
    norm_num at hbox
    rw [Scalar.atMost_real, Scalar.min_real]
    norm_num
    exact ⟨div_pos hw hbox.1, div_pos hh hbox.2⟩
  · norm_num

/-- On a canvas with both sides positive a projection scales both axes by positive factors. -/
theorem projection_pos {d : Drawing ℝ} {render : RenderSettings ℝ} (hscale : d.scale.Proper)
    (hw : 0 < render.width) (hh : 0 < render.height) :
    0 < (projection d render).map.sx ∧ 0 < (projection d render).map.sy := by
  unfold projection
  split
  · simp only [AxisMap.identity]
    norm_num
  · have hfit : 0 < fitFactor (render.width, render.height)
        (d.scale.rectToWorld ((d.boxes.get? d.hierarchy.root).getD .unit)) :=
      fitFactor_pos hw hh _
    exact ⟨mul_pos hscale.width_pos hfit, mul_pos hscale.height_pos hfit⟩

section
variable {d : Drawing ℝ} {render : RenderSettings ℝ} (t : d.hierarchy.IsTree) (hc : d.Complete)
  (hids : (d.connectors.map (·.id)).Nodup) (hstand : d.Standing) (hscale : d.scale.Proper)
  (hw : 0 < render.width) (hh : 0 < render.height)
include t hc hids hstand hscale hw hh

/-- **What overlaps in the picture** is what overlaps in the drawing and is shown. -/
theorem mem_overlaps {a b : String} : s(a, b) ∈ unordered (ofDrawing d render).overlaps ↔
    s(a, b) ∈ unordered d.overlaps ∧ Connector.named d.connectors a = false ∧
      Connector.named d.connectors b = false := by
  obtain ⟨hsx, hsy⟩ := projection_pos hscale hw hh
  have hmeet : ∀ {p q : Placement ℝ}, d.placements.get? a = some p →
      d.placements.get? b = some q →
      ((projection d render).map.applyRect p.footprint).intersects
        ((projection d render).map.applyRect q.footprint) = p.footprint.intersects q.footprint :=
    fun hp hq => AxisMap.applyRect_intersects hsx hsy (hstand hp) (hstand hq)
  rw [overlaps, mem_unordered_relatedPairs (Table.nodup_keys _) Figure.meets_comm,
    Drawing.mem_overlaps t]
  refine ⟨?_, ?_⟩
  · rintro ⟨hne, f, g, hf, hg, hfg⟩
    obtain ⟨harea, r, s, hr, hs, hrs⟩ := Figure.meets_iff.1 hfg
    obtain ⟨hfreea, p, hp, rfl, rfl⟩ :=
      (figures_get?_footprint hc hids).1 ⟨Table.mem_entries_iff.1 hf, hr⟩
    obtain ⟨hfreeb, q, hq, rfl, rfl⟩ :=
      (figures_get?_footprint hc hids).1 ⟨Table.mem_entries_iff.1 hg, hs⟩
    obtain ⟨c, ho⟩ : ∃ c, d.hierarchy.owners.get? a = some c := by
      rw [← Table.contains_iff, ← hc.placed]
      exact Table.contains_of_get? hp
    rw [hmeet hp hq] at hrs
    have harea : d.hierarchy.owners.get? a = d.hierarchy.owners.get? b := harea
    exact ⟨⟨hne, c, p, q, ho, harea ▸ ho, hp, hq, hrs⟩, hfreea, hfreeb⟩
  · rintro ⟨⟨hne, c, p, q, ha, hb, hp, hq, hpq⟩, hfreea, hfreeb⟩
    refine ⟨hne, _, _, Table.mem_entries_iff.2 (figures_get?_of_element hp hfreea),
      Table.mem_entries_iff.2 (figures_get?_of_element hq hfreeb), Figure.meets_iff.2
        ⟨ha.trans hb.symm, _, _, rfl, rfl, ?_⟩⟩
    rw [hmeet hp hq]
    exact hpq

/-- **The picture has the overlaps of the drawing** between elements that are shown. -/
theorem length_overlaps : (ofDrawing d render).overlaps.length =
    d.overlaps.countP fun p =>
      !Connector.named d.connectors p.1 && !Connector.named d.connectors p.2 := by
  have hsub : ∀ pairs : List (String × String), pairs.length = (unordered pairs).length :=
    fun pairs => (List.length_map _).symm
  rw [List.countP_eq_length_filter, hsub, hsub]
  refine List.Perm.length_eq ((List.perm_ext_iff_of_nodup ?_ ?_).2 fun z => ?_)
  · exact nodup_unordered_relatedPairs (Table.nodup_keys _)
  · exact (Drawing.nodup_overlaps t).sublist (List.filter_sublist.map _)
  · induction z using Sym2.ind with
    | h a b =>
      rw [mem_overlaps t hc hids hstand hscale hw hh, mem_unordered_iff, mem_unordered_iff,
        List.mem_filter, List.mem_filter]
      simp only [Bool.and_eq_true, Bool.not_eq_true']
      tauto

end

end Picture

end NestedLayout
