import NestedLayout.Proofs.Drawing.Separated

/-!
# Furnished drawings

Between sizing and compaction a drawing is furnished: its elements are placed and separated, its
connectors get their hooks and routes. The boxes stay as sizing left them.

* `furnished_allPlaced`, `furnished_standing`: every element stands somewhere, whatever the boxes.
* `furnished_toScale`: it has its size at the scale.
* `furnished_inside`, `furnished_clear`: in a drawing with room, inside its container and clear of
  the child containers. So it fills its container when it is as large (`furnished_fills`).
-/

set_option autoImplicit false

namespace NestedLayout.Drawing

open Scalar (epsilon)

/-- A sized drawing with its elements placed and separated and its connectors routed. -/
def furnished {α : Type} [Scalar α] (sized : Drawing α) : Drawing α :=
  sized.place.state.separate.state.attachHooks.route

theorem furnished_ground {α : Type} [Scalar α] (d : Drawing α) : SameGround d d.furnished :=
  (place_ground d).trans <| (separate_ground _).trans <|
    (attachHooks_ground _).trans (route_ground _)

theorem attachHooks_view (d : Drawing ℝ) : SameView d d.attachHooks := ⟨rfl, rfl, rfl, rfl, rfl⟩

theorem route_view (d : Drawing ℝ) : SameView d d.route := ⟨rfl, rfl, rfl, rfl, rfl⟩

theorem furnished_view (d : Drawing ℝ) : SameView d.place.state.separate.state d.furnished :=
  (attachHooks_view _).trans (route_view _)

section
variable {d : Drawing ℝ}

theorem furnished_allPlaced (t : d.hierarchy.IsTree)
    (hm : ∀ {c e}, d.hierarchy.owners.get? e = some c → ∃ x, d.extents.get? e = some x) :
    AllPlaced d.furnished :=
  AllPlaced.congr (furnished_view d)
    (separate_allPlaced ((place_ground d).hierarchy ▸ t) (place_allPlaced t hm))

theorem furnished_standing (t : d.hierarchy.IsTree) : Standing d.furnished :=
  Standing.congr (furnished_view d)
    (separate_standing ((place_ground d).hierarchy ▸ t) (place_standing d))

theorem furnished_toScale (t : d.hierarchy.IsTree) (hs : d.scale.Proper) : ToScale d d.furnished :=
  ToScale.congr (furnished_view d)
    (separate_toScale ((place_ground d).hierarchy ▸ t) (place_toScale hs))

variable (hr : Ready d)
include hr

theorem furnished_inside : Inside d.furnished :=
  Inside.congr (furnished_view d)
    (separate_inside (hr.of_ground (place_ground d)) (place_inside hr))

/-- **An element as large as the interior of its container** fills it. -/
theorem furnished_fills {c e : String} {p : Placement ℝ} {x : Extent ℝ} {box : Rect ℝ}
    (ho : d.hierarchy.owners.get? e = some c) (hp : d.furnished.placements.get? e = some p)
    (hx : d.extents.get? e = some x) (hb : d.boxes.get? c = some box)
    (hw : (d.inner box).width ≤ (x.unitSize d.scale).1)
    (hh : (d.inner box).height ≤ (x.unitSize d.scale).2) : p.footprint = d.inner box := by
  have hg := d.furnished_ground
  have hin := furnished_inside hr (hg.hierarchy.symm ▸ ho) hp (hg.boxes.symm ▸ hb)
  rw [inner_congr hg.settings hg.scale] at hin
  obtain ⟨hwidth, hheight⟩ := furnished_toScale hr.tree hr.proper hp hx (hr.positive hx)
  exact hin.eq_of_le (hw.trans_eq hwidth.symm) (hh.trans_eq hheight.symm)

theorem furnished_clear (hgap : epsilon ≤ d.unitGap.2 / 2) : Clear d.furnished :=
  Clear.congr (furnished_view d)
    (separate_clear ((place_ground d).hierarchy ▸ hr.tree) (place_clear hr hgap))

end

end NestedLayout.Drawing
