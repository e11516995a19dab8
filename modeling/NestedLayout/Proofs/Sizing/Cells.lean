import NestedLayout.Proofs.Sizing.Shrinking
import NestedLayout.Proofs.Space.Requirement

/-!
# Cells with enough room

One step of proportional sizing, in exact arithmetic: a box with room for the least size of its
container (`HasRoom`) keeps that room when it shrinks, and the cells that its children get have room
for them in turn.

* `shrinkToContent_spec`: shrinking succeeds, stays inside the box and keeps the least size.
* `childrenRegion_spec`: above the band for the elements there is room for the grid of children, and
  the band is as high as the elements and a gap (`ChildrenRoom`).
* `childCells_spec`: the cells lie in the region, have room, and are apart.
-/

set_option autoImplicit false

namespace NestedLayout

/-- A scale that is no smaller than a pixel. -/
structure WorldScale.Proper (scale : WorldScale ℝ) : Prop where
  width : 1 ≤ scale.width
  height : 1 ≤ scale.height

theorem WorldScale.of_proper (w h : ℝ) : (WorldScale.of w h).Proper := by
  simp only [of, Scalar.atLeast_real, Scalar.one_real]
  exact ⟨le_max_right _ _, le_max_right _ _⟩

theorem WorldScale.Proper.width_pos {scale : WorldScale ℝ} (hs : scale.Proper) : 0 < scale.width :=
  zero_lt_one.trans_le hs.width

theorem WorldScale.Proper.height_pos {scale : WorldScale ℝ} (hs : scale.Proper) :
    0 < scale.height := zero_lt_one.trans_le hs.height

namespace Proportional

open Requirement Hierarchy

/-- A box that measures at least the least size of a requirement. -/
structure HasRoom (scale : WorldScale ℝ) (r : Requirement ℝ) (box : Rect ℝ) : Prop where
  width : r.minWidth ≤ box.width * scale.width
  height : r.minHeight ≤ box.height * scale.height

section
variable {scale : WorldScale ℝ} (hs : scale.Proper) {r : Requirement ℝ} {box : Rect ℝ}
  (hw : 1 ≤ r.minWidth) (hh : 1 ≤ r.minHeight) (hroom : HasRoom scale r box)
include hs hw hh hroom

theorem HasRoom.upright : box.Upright := by
  have h₁ : 0 < box.width :=
    (mul_pos_iff_of_pos_right hs.width_pos).1 (by linarith [hroom.width])
  have h₂ : 0 < box.height :=
    (mul_pos_iff_of_pos_right hs.height_pos).1 (by linarith [hroom.height])
  exact ⟨sub_nonneg.1 h₁.le, sub_nonneg.1 h₂.le⟩

theorem HasRoom.of_sides {factor width height : ℝ}
    (hx : ShrunkSide r.minWidth factor scale.width box.width width)
    (hy : ShrunkSide r.minHeight factor scale.height box.height height) :
    (Rect.fromCenter box.center width height).Within box ∧
      HasRoom scale r (.fromCenter box.center width height) := by
  refine ⟨Rect.fromCenter_within (hroom.upright hs hw hh) hx.le hy.le, ?_, ?_⟩
  · rw [Rect.width_fromCenter _ _ hx.nonneg]
    exact (le_min le_rfl hroom.width).trans hx.keepsLeast
  · rw [Rect.height_fromCenter _ _ hy.nonneg]
    exact (le_min le_rfl hroom.height).trans hy.keepsLeast

/-- **Shrinking keeps the least size** and stays inside the box, whatever the factor. -/
theorem shrinkToContent_spec (settings : SizingSettings ℝ) :
    ∃ box', shrinkToContent box r scale settings = some box' ∧ box'.Within box ∧
      HasRoom scale r box' := by
  unfold shrinkToContent
  dsimp only
  split
  · exact ⟨box, rfl, .refl _, hroom⟩
  · have hup := hroom.upright hs hw hh
    have hlo : Scalar.min r.minWidth (box.width * scale.width) ≤ box.width * scale.width :=
      (Scalar.min_real _ _).trans_le (min_le_right _ _)
    have hlo' : Scalar.min r.minHeight (box.height * scale.height) ≤ box.height * scale.height :=
      (Scalar.min_real _ _).trans_le (min_le_right _ _)
    simp only [clamp?, dif_pos hlo, dif_pos hlo']
    exact ⟨_, rfl, hroom.of_sides hs hw hh
      (shrunkSide_clamp (zero_lt_one.trans_le hw) hs.width_pos.ne' hup.width_nonneg hlo)
      (shrunkSide_clamp (zero_lt_one.trans_le hh) hs.height_pos.ne' hup.height_nonneg hlo')⟩

end

end Proportional

/-! ## Requests -/

/-- A request about a tree whose requirements have been computed. -/
structure SizingRequest.Proper (r : SizingRequest ℝ) : Prop where
  tree : r.hierarchy.IsTree
  required : Required r.hierarchy r.extents r.ledger
  spacing : r.settings.spacing = r.ledger.spacing

/-- What a container requires. -/
noncomputable def SizingRequest.requirement (r : SizingRequest ℝ) (id : String) : Requirement ℝ :=
  r.ledger.requirementOf r.hierarchy r.extents id

/-- A box without the padding. -/
noncomputable def SizingRequest.interior (r : SizingRequest ℝ) (scale : WorldScale ℝ)
    (box : Rect ℝ) : Rect ℝ :=
  box.deflate (scale.toUnitX r.ledger.spacing.padding) (scale.toUnitY r.ledger.spacing.padding)

/-- The size of the grid of the elements of a container. -/
noncomputable def SizingRequest.elementsSize (r : SizingRequest ℝ) (id : String) : ℝ × ℝ :=
  Requirement.elementFootprint r.ledger.spacing.gap r.extents (r.hierarchy.elements id)

/-- The size of the grid of the children of a container. -/
noncomputable def SizingRequest.childrenSize (r : SizingRequest ℝ) (id : String) : ℝ × ℝ :=
  Requirement.childrenFootprint r.ledger.spacing.gap r.ledger.requirements (r.hierarchy.children id)

namespace Proportional

open Requirement Hierarchy

section
variable {request : SizingRequest ℝ} (hq : request.Proper) {scale : WorldScale ℝ}
  (hs : scale.Proper) {id : String} {own : Rect ℝ}
  (hroom : HasRoom scale (request.requirement id) own)
include hq hs hroom

/-- The interior of a box with room is not collapsed. -/
theorem interior_room :
    2 * scale.toUnitX request.ledger.spacing.padding ≤ own.width ∧
      2 * scale.toUnitY request.ledger.spacing.padding ≤ own.height := by
  obtain ⟨size, hc, hw, hh⟩ := hq.required.room id
  have h₁ := hroom.width
  have h₂ := hroom.height
  rw [WorldScale.toUnitX, WorldScale.toUnitY, ← mul_div_assoc, ← mul_div_assoc,
    div_le_iff₀ hs.width_pos, div_le_iff₀ hs.height_pos]
  refine ⟨?_, ?_⟩
  · linarith [hc.width, show _ ≤ (request.requirement id).minWidth from hw]
  · linarith [hc.height, show _ ≤ (request.requirement id).minHeight from hh]

theorem interior_eq :
    request.interior scale own =
      ⟨own.left + scale.toUnitX request.ledger.spacing.padding,
        own.top + scale.toUnitY request.ledger.spacing.padding,
        own.right - scale.toUnitX request.ledger.spacing.padding,
        own.bottom - scale.toUnitY request.ledger.spacing.padding⟩ :=
  Rect.deflate_of_room (interior_room hq hs hroom).1 (interior_room hq hs hroom).2

omit hq hs hroom in
/-- What the padding at both ends leaves of a span, in pixels. -/
theorem padded_span (lo hi padding : ℝ) {unit : ℝ} (hu : 0 < unit) :
    (hi - padding / unit - (lo + padding / unit)) * unit = (hi - lo) * unit - padding * 2 := by
  have := hu.ne'
  field_simp
  ring

/-- The interior of a box with room has room for the contents. -/
theorem interior_content :
    ∃ size : ℝ × ℝ, ContentRoom request.ledger.spacing.gap (request.elementsSize id)
        (request.childrenSize id) size ∧
      size.1 ≤ (request.interior scale own).width * scale.width ∧
      size.2 ≤ (request.interior scale own).height * scale.height := by
  obtain ⟨size, hc, hw, hh⟩ := hq.required.room id
  have h₁ := hroom.width.trans' hw
  have h₂ := hroom.height.trans' hh
  refine ⟨size, hc, ?_⟩
  rw [Rect.width_eq] at h₁
  rw [Rect.height_eq] at h₂
  rw [interior_eq hq hs hroom, Rect.width_eq, Rect.height_eq, WorldScale.toUnitX,
    WorldScale.toUnitY]
  rw [padded_span _ _ _ hs.width_pos, padded_span _ _ _ hs.height_pos]
  exact ⟨by linarith, by linarith⟩

/-- A region for the children of a container, with the band for its elements below. -/
structure ChildrenRoom (request : SizingRequest ℝ) (scale : WorldScale ℝ) (id : String)
    (own region : Rect ℝ) : Prop where
  within : region.Within (request.interior scale own)
  width : (request.childrenSize id).1 ≤ region.width * scale.width
  height : (request.childrenSize id).2 ≤ region.height * scale.height
  band : request.hierarchy.elements id ≠ [] →
    region.bottom + scale.toUnitY ((request.elementsSize id).2 + request.ledger.spacing.gap) ≤
      (request.interior scale own).bottom

omit hq hs hroom in
/-- The share of a height that belongs to a band leaves both the band and the rest enough room. -/
theorem share_spec (total : ℝ) {band rest unit : ℝ} (hb : 0 ≤ band) (hr : 0 < rest) (hu : 0 < unit)
    (ht : band + rest ≤ total * unit) :
    band / unit ≤ total * band / (band + rest) ∧
      total * band / (band + rest) ≤ total - rest / unit := by
  have hsum : 0 < band + rest := by linarith
  refine ⟨?_, ?_⟩
  · rw [div_le_div_iff₀ hu hsum]
    nlinarith
  · have hrest : rest / unit ≤ total * rest / (band + rest) := by
      rw [div_le_div_iff₀ hu hsum]
      nlinarith
    have hsplit : total * band / (band + rest) + total * rest / (band + rest) = total := by
      field_simp
    linarith

omit hq hroom in
/-- What is left above a cut that is high enough for the band, and not too high. -/
theorem childrenRoom_of_cut {cut : ℝ}
    (hwidth : (request.childrenSize id).1 ≤ (request.interior scale own).width * scale.width)
    (hband : 0 ≤ (request.elementsSize id).2 + request.ledger.spacing.gap)
    (hlow : ((request.elementsSize id).2 + request.ledger.spacing.gap) / scale.height ≤ cut)
    (hhigh : cut ≤ (request.interior scale own).height -
      (request.childrenSize id).2 / scale.height) :
    ChildrenRoom request scale id own
      { request.interior scale own with bottom := (request.interior scale own).bottom - cut } := by
  have hcut : 0 ≤ cut := (div_nonneg hband hs.height_pos.le).trans hlow
  refine ⟨⟨le_rfl, le_rfl, le_rfl, sub_le_self _ hcut⟩, hwidth, ?_, fun _ => ?_⟩
  · rw [← div_le_iff₀ hs.height_pos]
    rw [Rect.height_eq] at hhigh ⊢
    show _ ≤ (request.interior scale own).bottom - cut - (request.interior scale own).top
    linarith
  · show (request.interior scale own).bottom - cut + _ ≤ _
    rw [WorldScale.toUnitY]
    linarith

/-- **The children get room for their grid** above a band for the elements. -/
theorem childrenRegion_spec {c : Container} (hc : request.hierarchy.container? id = some c)
    (hne : request.hierarchy.children id ≠ []) :
    ChildrenRoom request scale id own (childrenRegion request c own scale) := by
  obtain ⟨size, hcontent, hw, hh⟩ := interior_content hq hs hroom
  have hH := hs.height_pos
  have hpos := hq.required.one_le_childrenFootprint hq.tree hne
  have hcpos : 0 < (request.childrenSize id).1 := zero_lt_one.trans_le hpos.1
  have hch := hcontent.childrenHeight hcpos
  have hwidth := hcontent.childrenWidth.trans hw
  have hinner : own.deflate (scale.toUnitX request.settings.spacing.padding)
      (scale.toUnitY request.settings.spacing.padding) = request.interior scale own := by
    rw [hq.spacing]
    rfl
  unfold childrenRegion
  dsimp only
  rw [hinner, ← container?_elements hc, ← container?_children hc]
  split
  · rename_i hel
    -- without elements the whole interior is for the children
    refine ⟨.refl _, hwidth, hch.trans hh, fun h => absurd (List.isEmpty_iff.1 hel) h⟩
  · rename_i hel
    have hel : request.hierarchy.elements id ≠ [] := by simpa using hel
    have hepos : 0 < (request.elementsSize id).1 := hq.required.elementFootprint_pos hel
    have hboth := (hcontent.both hepos hcpos).trans hh
    have he0 : 0 ≤ (request.elementsSize id).2 :=
      elementFootprint_height_nonneg hq.required.spacing.gap _ _
    have hg := hq.required.spacing.gap
    have hc0 : 0 < (request.childrenSize id).2 := zero_lt_one.trans_le hpos.2
    have hb0 : 0 ≤ (request.elementsSize id).2 + request.ledger.spacing.gap := by linarith
    obtain ⟨hshare, hrest⟩ := share_spec (request.interior scale own).height hb0 hc0
      hs.height_pos (by linarith)
    have hc1 : 0 ≤ (request.childrenSize id).2 / scale.height := div_nonneg hc0.le hs.height_pos.le
    -- the share of the height, which the reserve of the root may exceed
    set share := (request.interior scale own).height *
      ((request.elementsSize id).2 + request.ledger.spacing.gap) /
      ((request.elementsSize id).2 + request.ledger.spacing.gap + (request.childrenSize id).2)
    have hpos' : (0.0 : ℝ) < (request.elementsSize id).2 + request.ledger.spacing.gap +
        (request.childrenSize id).2 := by rw [Scalar.zero_real]; linarith
    have he : elementFootprint request.ledger.spacing.gap request.extents
        (request.hierarchy.elements id) = request.elementsSize id := rfl
    have hc : childrenFootprint request.ledger.spacing.gap request.ledger.requirements
        (request.hierarchy.children id) = request.childrenSize id := rfl
    simp only [he, hc, hq.spacing, if_pos hpos']
    generalize hcut : ite (c.parent.isNone = true) _ _ = cut
    have hbounds : share ≤ cut ∧ cut ≤ (request.interior scale own).height -
        (request.childrenSize id).2 / scale.height := by
      rw [← hcut]
      split
      · simp only [Scalar.max_real, Scalar.min_real, Scalar.atLeast_real, Scalar.zero_real,
          WorldScale.toUnitY]
        refine ⟨le_max_left _ _, max_le hrest ((min_le_right _ _).trans (max_le le_rfl ?_))⟩
        have := div_nonneg hb0 hs.height_pos.le
        linarith
      · exact ⟨le_rfl, hrest⟩
    rw [Scalar.min_real, min_eq_left (by linarith [hbounds.2])]
    exact childrenRoom_of_cut hs hwidth hb0 (hshare.trans hbounds.1) hbounds.2

end

/-! ## Cells in tracks -/

theorem TracksFill.apart_of_ne {sizes : List ℝ} {start span : ℝ} {tracks : List (Span ℝ)}
    (hf : TracksFill sizes start span tracks) {i j : Nat} (hi : i < tracks.length)
    (hj : j < tracks.length) (hne : i ≠ j) :
    tracks[i].high ≤ tracks[j].low ∨ tracks[j].high ≤ tracks[i].low := by
  have hp := List.pairwise_iff_getElem.1 hf.apart
  rcases Nat.lt_or_gt_of_ne hne with hlt | hgt
  · exact .inl (hp i j hi hj hlt)
  · exact .inr (hp j i hj hi hgt)

/-- The cell of the `i`-th child in the tracks of a grid. -/
noncomputable def cellAt (columns : Nat) (across down : List (Span ℝ)) (i : Nat) : Rect ℝ :=
  let x := across[i % columns]?.getD ⟨0, 0⟩
  let y := down[i / columns]?.getD ⟨0, 0⟩
  ⟨x.low, y.low, x.high, y.high⟩

section
variable {columns rows : Nat} {widths heights : List ℝ} {region : Rect ℝ}
  {across down : List (Span ℝ)}
  (hx : TracksFill widths region.left region.width across)
  (hy : TracksFill heights region.top region.height down)

theorem cellAt_eq {i : Nat} (hi : i % columns < across.length) (hj : i / columns < down.length) :
    cellAt columns across down i =
      ⟨across[i % columns].low, down[i / columns].low, across[i % columns].high,
        down[i / columns].high⟩ := by
  simp only [cellAt, List.getElem?_eq_getElem hi, List.getElem?_eq_getElem hj, Option.getD_some]

include hx hy

theorem cellAt_within {i : Nat} (hi : i % columns < across.length)
    (hj : i / columns < down.length) : (cellAt columns across down i).Within region := by
  have h₁ := hx.inside _ (List.getElem_mem hi)
  have h₂ := hy.inside _ (List.getElem_mem hj)
  rw [Rect.width_eq] at h₁
  rw [Rect.height_eq] at h₂
  rw [cellAt_eq hi hj]
  exact ⟨h₁.1, h₂.1, by linarith [h₁.2], by linarith [h₂.2]⟩

/-- **Different cells are apart**: they differ in their column or in their row. -/
theorem cellAt_apart {i j : Nat} (hne : i ≠ j) (hi : i % columns < across.length)
    (hi' : i / columns < down.length) (hj : j % columns < across.length)
    (hj' : j / columns < down.length) :
    (cellAt columns across down i).intersects (cellAt columns across down j) = false := by
  rw [cellAt_eq hi hi', cellAt_eq hj hj', Bool.eq_false_iff, ne_eq, Rect.intersects_iff]
  rintro ⟨h₁, h₂, h₃, h₄⟩
  simp only at h₁ h₂ h₃ h₄
  by_cases hcol : i % columns = j % columns
  · have hrow : i / columns ≠ j / columns := fun hrow => hne (by
      rw [← Nat.div_add_mod i columns, ← Nat.div_add_mod j columns, hcol, hrow])
    rcases hy.apart_of_ne hi' hj' hrow with h | h
    · exact absurd h₄ (not_lt.2 h)
    · exact absurd h₃ (not_lt.2 h)
  · rcases hx.apart_of_ne hi hj hcol with h | h
    · exact absurd h₂ (not_lt.2 h)
    · exact absurd h₁ (not_lt.2 h)

end

section
variable {request : SizingRequest ℝ} (hq : request.Proper) {scale : WorldScale ℝ}
  (hs : scale.Proper) {id : String} {region : Rect ℝ}

/-- Cells for the children of a container: each in the region, with room, and apart. -/
structure CellsFor (request : SizingRequest ℝ) (scale : WorldScale ℝ) (id : String)
    (region : Rect ℝ) (cells : List (String × Rect ℝ)) : Prop where
  ids : cells.map (·.1) = request.hierarchy.children id
  within : ∀ e ∈ cells, e.2.Within region
  room : ∀ e ∈ cells, HasRoom scale (request.requirement e.1) e.2
  apart : cells.Pairwise fun a b => a.2.intersects b.2 = false

/-- The widths of the columns in which the children of a container stand. -/
noncomputable def columnWidths (request : SizingRequest ℝ) (id : String) (columns : Nat) : List ℝ :=
  trackSizes columns (· % columns)
    ((request.hierarchy.children id).map fun c => (request.requirement c).preferredWidth)

/-- The heights of the rows in which the children of a container stand. -/
noncomputable def rowHeights (request : SizingRequest ℝ) (id : String) (columns rows : Nat) :
    List ℝ :=
  trackSizes rows (· / columns)
    ((request.hierarchy.children id).map fun c => (request.requirement c).preferredHeight)

include hq

theorem childCells_eq {columns rows : Nat} (hne : request.hierarchy.children id ≠ [])
    (hshape : gridShape ℝ (request.hierarchy.children id).length = (columns, rows))
    (hs : scale.Proper) {across down : List (Span ℝ)}
    (hx : distribute ((columnWidths request id columns).map (· / scale.width)) region.left
      region.width (request.ledger.spacing.gap / scale.width) = across)
    (hy : distribute ((rowHeights request id columns rows).map (· / scale.height)) region.top
      region.height (request.ledger.spacing.gap / scale.height) = down)
    (hxl : across.length = columns) (hyl : down.length = rows) :
    childCells request (request.hierarchy.children id) region scale =
      (request.hierarchy.children id).zipIdx.map fun e =>
        (e.1, cellAt columns across down e.2) := by
  have hsizes : ∀ c ∈ request.hierarchy.children id,
      request.ledger.requirements.get? c = some (request.requirement c) := fun c hc =>
    hq.required.required (known_of_parent (hq.tree.mem_children.1 hc))
  have hcol := (gridShape_eq (List.length_pos_of_ne_nil hne) hshape).1
  unfold childCells
  simp only [hshape, hq.spacing]
  generalize hsz : List.map _ (request.hierarchy.children id) = sizes
  have hsz : sizes = (request.hierarchy.children id).map fun c =>
      ((request.requirement c).preferredWidth, (request.requirement c).preferredHeight) := by
    rw [← hsz]
    exact List.map_congr_left fun c hc => by rw [hsizes c hc]
  have hwidths : trackSizes columns (· % columns) (sizes.map fun s => scale.toUnitX s.1) =
      (columnWidths request id columns).map (· / scale.width) := by
    rw [columnWidths, ← trackSizes_div hs.width_pos, hsz, List.map_map, List.map_map]
    rfl
  have hheights : trackSizes rows (· / columns) (sizes.map fun s => scale.toUnitY s.2) =
      (rowHeights request id columns rows).map (· / scale.height) := by
    rw [rowHeights, ← trackSizes_div hs.height_pos, hsz, List.map_map, List.map_map]
    rfl
  rw [hwidths, hheights, WorldScale.toUnitX, WorldScale.toUnitY, hx, hy, ← List.filterMap_eq_map]
  refine List.filterMap_congr fun e he => ?_
  have hi := (List.mem_zipIdx' he).1
  have hcol : e.2 % columns < across.length := (Nat.mod_lt _ hcol).trans_eq hxl.symm
  have hrow : e.2 / columns < down.length := (gridShape_row_lt hi hshape).trans_eq hyl.symm
  simp [cellAt_eq hcol hrow, List.getElem?_eq_getElem hcol, List.getElem?_eq_getElem hrow]

include hs

/-- A cell has room for the child that stands in it. -/
theorem cellAt_room {columns rows : Nat} {across down : List (Span ℝ)}
    (hx : TracksFill ((columnWidths request id columns).map (· / scale.width)) region.left
      region.width across)
    (hy : TracksFill ((rowHeights request id columns rows).map (· / scale.height)) region.top
      region.height down) {i : Nat} (hlt : i < (request.hierarchy.children id).length)
    (hi : i % columns < across.length) (hi' : i / columns < down.length) :
    HasRoom scale (request.requirement (request.hierarchy.children id)[i])
      (cellAt columns across down i) := by
  have hwl := hx.length
  have hhl := hy.length
  rw [List.length_map] at hwl hhl
  have hpref := hq.required.min_le_preferred (request.hierarchy.children id)[i]
  have hcolumn : (request.requirement (request.hierarchy.children id)[i]).preferredWidth ≤
      (columnWidths request id columns)[i % columns] := by
    have := le_trackSizes columns (· % columns)
      ((request.hierarchy.children id).map fun c => (request.requirement c).preferredWidth)
      (by rwa [List.length_map]) (hwl ▸ hi)
    rwa [List.getElem_map] at this
  have hrow : (request.requirement (request.hierarchy.children id)[i]).preferredHeight ≤
      (rowHeights request id columns rows)[i / columns] := by
    have := le_trackSizes rows (· / columns)
      ((request.hierarchy.children id).map fun c => (request.requirement c).preferredHeight)
      (by rwa [List.length_map]) (hhl ▸ hi')
    rwa [List.getElem_map] at this
  have hw := hx.long (i % columns) (by rwa [List.length_map, ← hwl]) hi
  have hh := hy.long (i / columns) (by rwa [List.length_map, ← hhl]) hi'
  rw [List.getElem_map, div_le_iff₀ hs.width_pos] at hw
  rw [List.getElem_map, div_le_iff₀ hs.height_pos] at hh
  rw [cellAt_eq hi hi']
  exact ⟨hpref.1.trans (hcolumn.trans hw), hpref.2.trans (hrow.trans hh)⟩

/-- **The children get cells with room** when the region has room for their grid. -/
theorem childCells_spec (hne : request.hierarchy.children id ≠ [])
    (hw : (request.childrenSize id).1 ≤ region.width * scale.width)
    (hh : (request.childrenSize id).2 ≤ region.height * scale.height) :
    CellsFor request scale id region
      (childCells request (request.hierarchy.children id) region scale) := by
  obtain ⟨columns, rows, hshape⟩ :
      ∃ c r, gridShape ℝ (request.hierarchy.children id).length = (c, r) := ⟨_, _, rfl⟩
  have hpos := List.length_pos_of_ne_nil hne
  have hcol := (gridShape_eq hpos hshape).1
  have hfoot : request.childrenSize id =
      ((columnWidths request id columns).sum + request.ledger.spacing.gap * (columns - 1 : Nat),
        (rowHeights request id columns rows).sum +
          request.ledger.spacing.gap * (rows - 1 : Nat)) :=
    hq.required.childrenFootprint_eq hq.tree hpos hshape
  obtain ⟨hwpos, hhpos⟩ := hq.required.one_le_tracks hpos hshape
  have hwl : (columnWidths request id columns).length = columns := length_trackSizes
  have hhl : (rowHeights request id columns rows).length = rows := length_trackSizes
  have hx := distribute_fills_div (columnWidths request id columns) region.left region.width
    hs.width_pos trackSizes_nonneg hq.required.spacing.gap
    (zero_lt_one.trans_le hwpos) (by rw [hwl]; rw [hfoot] at hw; exact hw)
  have hy := distribute_fills_div (rowHeights request id columns rows) region.top region.height
    hs.height_pos trackSizes_nonneg hq.required.spacing.gap
    (zero_lt_one.trans_le hhpos) (by rw [hhl]; rw [hfoot] at hh; exact hh)
  generalize hacross : distribute (α := ℝ) ((columnWidths request id columns).map _) _ _ _ =
    across at hx
  generalize hdown : distribute (α := ℝ) ((rowHeights request id columns rows).map _) _ _ _ =
    down at hy
  have hxl : across.length = columns := by rw [hx.length, List.length_map, hwl]
  have hyl : down.length = rows := by rw [hy.length, List.length_map, hhl]
  have hin : ∀ {i}, i < (request.hierarchy.children id).length →
      i % columns < across.length ∧ i / columns < down.length := fun hi =>
    ⟨(Nat.mod_lt _ hcol).trans_eq hxl.symm, (gridShape_row_lt hi hshape).trans_eq hyl.symm⟩
  rw [childCells_eq hq hne hshape hs hacross hdown hxl hyl]
  refine ⟨?keys, fun e he => ?within, fun e he => ?room, ?apart⟩
  case keys =>
    rw [List.map_map]
    exact List.zipIdx_map_fst 0 _
  case within =>
    obtain ⟨⟨c, i⟩, hm, rfl⟩ := List.mem_map.1 he
    obtain ⟨hi, hi'⟩ := hin (List.mem_zipIdx' hm).1
    exact cellAt_within hx hy hi hi'
  case room =>
    obtain ⟨⟨c, i⟩, hm, rfl⟩ := List.mem_map.1 he
    obtain ⟨hlt, hc⟩ := List.mem_zipIdx' hm
    obtain ⟨hi, hi'⟩ := hin hlt
    have hroom := cellAt_room hq hs hx hy hlt hi hi'
    rwa [← hc] at hroom
  case apart =>
    rw [List.pairwise_map, List.pairwise_iff_getElem]
    intro i j hi hj hlt
    rw [List.length_zipIdx] at hi hj
    simp only [List.getElem_zipIdx, Nat.zero_add]
    exact cellAt_apart hx hy hlt.ne (hin hi).1 (hin hi).2 (hin hj).1 (hin hj).2

end

end Proportional

end NestedLayout
