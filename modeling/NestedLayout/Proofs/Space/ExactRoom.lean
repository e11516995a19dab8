import NestedLayout.Proofs.Space.Seating
import NestedLayout.Proofs.Space.Requirement

/-!
# What a container of the required size admits

A container without children requires a near-square grid of cells as large as its largest element.

* `ExactRoom.exists_cells`: a container of exactly that size has the grid within its padding.
* `exactRoom_admits`: so it admits the first row of the grid and one more element, and with up to
  three elements that is all of them.
* `crossed_not_admitted`: a fourth element may find no place. A narrow and a low element take the
  corner, so that the third one comes to lie in the middle.
-/

set_option autoImplicit false

namespace NestedLayout

open Scalar (epsilon)

/-! ## A container of the required size -/

/-- A container without children that is given exactly the size that it requires. -/
structure ExactRoom (l : SpaceLedger ℝ) (h : Hierarchy) (extents : IdTable (Extent ℝ))
    (boxes : Boxes ℝ) (scale : WorldScale ℝ) (c : String) : Prop where
  tree : h.IsTree
  known : h.containers.contains c = true
  leaf : h.children c = []
  measured : ∀ e ∈ h.elements c, ∃ x, extents.get? e = some x ∧ x.Proper
  padding : 0 ≤ l.spacing.padding
  gap : 0 ≤ l.spacing.gap
  widthPos : 0 < scale.width
  heightPos : 0 < scale.height
  sized : ∃ r box, (l.calculate h extents).requirements.get? c = some r ∧
    boxes.get? c = some box ∧ box.width * scale.width = r.minWidth ∧
    box.height * scale.height = r.minHeight

/-- A grid with its padding that fits in pixels fits in unit space. -/
theorem cells_le_of_pixels {n cell gap padding size scale : ℝ} (hs : 0 < scale)
    (h : n * (cell + gap) - gap + padding * 2 ≤ size * scale) :
    n * (cell / scale + gap / scale) + 2 * (padding / scale) ≤ size + gap / scale := by
  have hsize := (div_le_iff₀ hs).2 h
  have hunit : (n * (cell + gap) - gap + padding * 2) / scale =
      n * (cell / scale + gap / scale) - gap / scale + 2 * (padding / scale) := by ring
  linarith

namespace ExactRoom

variable {l : SpaceLedger ℝ} {h : Hierarchy} {extents : IdTable (Extent ℝ)} {boxes : Boxes ℝ}
  {scale : WorldScale ℝ} {c : String} (q : ExactRoom l h extents boxes scale c)
include q

/-- The box of the container has room for the grid of elements and the padding. -/
theorem footprint_le (hne : h.elements c ≠ []) :
    ∃ box, boxes.get? c = some box ∧
      0 < (Requirement.elementFootprint l.spacing.gap extents (h.elements c)).1 ∧
      0 ≤ (Requirement.elementFootprint l.spacing.gap extents (h.elements c)).2 ∧
      (Requirement.elementFootprint l.spacing.gap extents (h.elements c)).1 +
          l.spacing.padding * 2 ≤ box.width * scale.width ∧
      (Requirement.elementFootprint l.spacing.gap extents (h.elements c)).2 +
          l.spacing.padding * 2 ≤ box.height * scale.height := by
  obtain ⟨e, he⟩ := List.exists_mem_of_ne_nil _ hne
  obtain ⟨x, hx, hp⟩ := q.measured e he
  obtain ⟨hw, hh⟩ := Requirement.extent_le_elementFootprint q.gap hp he hx
  have hpos := hp.width.trans_le hw
  have hnonneg := hp.height.trans hh
  obtain ⟨r, box, hr, hb, hbw, hbh⟩ := q.sized
  have hcalc := SpaceLedger.calculate_required q.tree l extents
  have hreq := hcalc.required c (q.tree.mem_postOrder.2 q.known)
  obtain rfl : r = _ := Option.some.inj (hr.symm.trans hreq)
  rw [SpaceLedger.requirementOf, hcalc.spacing, q.leaf] at hbw hbh
  obtain ⟨hminw, hminh⟩ := Requirement.le_min_of_leaf
    (l.calculate h extents).requirements q.gap hpos hnonneg
  exact ⟨box, hb, hpos, hnonneg, hminw.trans_eq hbw.symm, hminh.trans_eq hbh.symm⟩

/-- The room is a grid of cells for any of the elements, and nothing is in it yet. -/
theorem exists_cells {columns rows : Nat} (hne : h.elements c ≠ [])
    (hshape : gridShape ℝ (h.elements c).length = (columns, rows)) :
    ∃ (area : Rect ℝ) (cell : ℝ × ℝ),
      FirstRow c area cell (scale.toUnit (l.spacing.gap, l.spacing.gap)) 0
        ((l.calculate h extents).restart boxes scale) ∧
      (∀ e ∈ h.elements c, ∃ x, extents.get? e = some x ∧ FitsCell (x.unitSize scale) cell) ∧
      columns * (cell.1 + scale.toUnitX l.spacing.gap) ≤
        area.width + scale.toUnitX l.spacing.gap ∧
      rows * (cell.2 + scale.toUnitY l.spacing.gap) ≤
        area.height + scale.toUnitY l.spacing.gap := by
  have hsw := q.widthPos
  have hsh := q.heightPos
  obtain ⟨box, hb, hpos, hnonneg, hw, hh⟩ := q.footprint_le hne
  obtain ⟨cell, hcells, hfit⟩ := Requirement.exists_cell l.spacing.gap extents
    (List.length_pos_of_ne_nil hne) hshape
  have hdw : 2 * (l.spacing.padding / scale.width) ≤ box.width := by
    rw [← mul_div_assoc, div_le_iff₀ hsw]
    linarith
  have hdh : 2 * (l.spacing.padding / scale.height) ≤ box.height := by
    rw [← mul_div_assoc, div_le_iff₀ hsh]
    linarith
  rw [hcells] at hw hh
  have hcw := cells_le_of_pixels hsw hw
  have hch := cells_le_of_pixels hsh hh
  have hspacing := (SpaceLedger.calculate_required q.tree l extents).spacing
  refine ⟨box.deflate (l.spacing.padding / scale.width) (l.spacing.padding / scale.height),
    (cell.1 / scale.width, cell.2 / scale.height),
    ⟨?_, ⟨box, box.deflate (l.spacing.padding / scale.width) (l.spacing.padding / scale.height),
      [], []⟩, ?_, rfl, by simp⟩, fun e he => ?_, ?_, ?_⟩
  · simp only [SpaceLedger.halfGap, SpaceLedger.restart, hspacing, Scalar.two_real]
    rfl
  · simp only [SpaceLedger.restart, Table.get?_map, hb, Option.map_some,
      SpaceLedger.interior, hspacing]
    rfl
  · obtain ⟨x, hx, hp⟩ := q.measured e he
    obtain ⟨hxw, hxh⟩ := hfit e he x hx
    exact ⟨x, hx, ⟨div_nonneg hp.width.le hsw.le, div_le_div_of_nonneg_right hxw hsw.le⟩,
      ⟨div_nonneg hp.height hsh.le, div_le_div_of_nonneg_right hxh hsh.le⟩⟩
  · rw [Rect.deflate_of_room hdw hdh, Rect.width_eq]
    rw [Rect.width_eq] at hcw
    simp only [WorldScale.toUnitX]
    linarith
  · rw [Rect.deflate_of_room hdw hdh, Rect.height_eq]
    rw [Rect.height_eq] at hch
    simp only [WorldScale.toUnitY]
    linarith

/-- **The first row of the grid and one more element are admitted**, whatever the sizes. -/
theorem seat_row {columns rows limit : Nat} (hlimit : 0 < limit)
    (hshape : gridShape ℝ (h.elements c).length = (columns, rows))
    (hgapX : epsilon ≤ scale.toUnitX l.spacing.gap / 2)
    (hgapY : epsilon ≤ scale.toUnitY l.spacing.gap / 2) :
    ∃ l', ((l.calculate h extents).restart boxes scale).seat h extents boxes c limit
      ((h.elements c).take (columns + 1)) = some l' := by
  rcases eq_or_ne (h.elements c) [] with hnil | hne
  · rw [hnil]
    exact ⟨_, rfl⟩
  obtain ⟨area, cell, hrow, hcell, hwide, hhigh⟩ := q.exists_cells hne hshape
  have hpos := List.length_pos_of_ne_nil hne
  have heps := Scalar.epsilon_pos
  obtain ⟨e, he⟩ := List.exists_mem_of_ne_nil _ hne
  obtain ⟨x, -, hfit⟩ := hcell e he
  have hcellw : 0 ≤ cell.1 := hfit.width.1.trans hfit.width.2
  have hcellh : 0 ≤ cell.2 := hfit.height.1.trans hfit.height.2
  obtain ⟨hc, hr⟩ := gridShape_eq hpos hshape
  have hcolumns : (1 : ℝ) ≤ columns := Nat.one_le_cast.2 hc
  have hrows : (1 : ℝ) ≤ rows := Nat.one_le_cast.2 (gridShape_rows_pos hpos hshape)
  have hroom : cell.1 ≤ area.width ∧ cell.2 ≤ area.height := ⟨by nlinarith, by nlinarith⟩
  refine FirstRow.seat_one_more boxes q.leaf hlimit hrow hcell hgapX hgapY hcellw hwide hroom
    fun hmore => ?_
  -- with more elements than columns there is a second row
  have htwo : 2 ≤ rows := by
    rw [hr, Nat.le_div_iff_mul_le hc]
    omega
  have htwo : (2 : ℝ) ≤ rows := Nat.ofNat_le_cast.2 htwo
  show 2 * cell.2 + scale.toUnitY l.spacing.gap ≤ area.height
  nlinarith

end ExactRoom

/-- **What a container of exactly the required size admits**, whatever the sizes of its elements:
the first row of the grid and one more, and so all of them when they are no more than three. Half
the gap has to exceed the tolerance, or thinning may drop the slot next to an element. -/
theorem exactRoom_admits {l : SpaceLedger ℝ} {h : Hierarchy} {extents : IdTable (Extent ℝ)}
    {boxes : Boxes ℝ} {scale : WorldScale ℝ} {c : String} {limit : Nat}
    (q : ExactRoom l h extents boxes scale c) (hlimit : 0 < limit)
    (hgapX : epsilon ≤ scale.toUnitX l.spacing.gap / 2)
    (hgapY : epsilon ≤ scale.toUnitY l.spacing.gap / 2) :
    (∃ l', ((l.calculate h extents).restart boxes scale).seat h extents boxes c limit
      ((h.elements c).take ((gridShape ℝ (h.elements c).length).1 + 1)) = some l') ∧
    ((h.elements c).length ≤ 3 →
      ∃ l', ((l.calculate h extents).restart boxes scale).seat h extents boxes c limit
        (h.elements c) = some l') := by
  obtain ⟨columns, rows, hshape⟩ :
      ∃ k n, gridShape ℝ (h.elements c).length = (k, n) := ⟨_, _, rfl⟩
  have hrow := q.seat_row hlimit hshape hgapX hgapY
  refine ⟨by rwa [hshape], fun hfew => ?_⟩
  have hsq := gridShape_le_sq hshape
  have hall : (h.elements c).length ≤ columns + 1 := by
    rcases Nat.lt_or_ge columns 2 with hc | hc
    · nlinarith
    · omega
  rwa [List.take_of_length_le hall] at hrow

/-! ## Four elements that cross -/

/-- Four elements in one area. -/
def crossed : Diagram where
  root := "sheet"
  areas := .ofList [("sheet", ⟨none, ["a", "b", "c", "d"]⟩)]
  elements := .ofList [("a", ⟨.predicate, "", []⟩), ("b", ⟨.predicate, "", []⟩),
    ("c", ⟨.predicate, "", []⟩), ("d", ⟨.predicate, "", []⟩)]
  connections := []

def crossedTree : Hierarchy where
  root := "sheet"
  containers := .ofList [("sheet", ⟨"sheet", none, [], ["a", "b", "c", "d"], 0⟩)]
  owners := .ofList [("a", "sheet"), ("b", "sheet"), ("c", "sheet"), ("d", "sheet")]

theorem extract_crossed : Hierarchy.extract crossed = .ok crossedTree := rfl

/-- A narrow element, a low one, and two large ones. -/
noncomputable def crossedExtents : IdTable (Extent ℝ) :=
  .ofList [("a", ⟨4, 10, 0, 0⟩), ("b", ⟨10, 4, 0, 0⟩), ("c", ⟨10, 10, 0, 0⟩),
    ("d", ⟨10, 10, 0, 0⟩)]

/-- A gap of one pixel and no padding. -/
noncomputable def crossedLedger : SpaceLedger ℝ := .new ⟨0, 1, 1, 1, 0, 0⟩

/-- What the area requires: two columns and two rows of ten pixels. -/
noncomputable def crossedBoxes : Boxes ℝ := .ofList [("sheet", ⟨0, 0, 21, 21⟩)]

theorem gridShape_four : gridShape ℝ 4 = (2, 2) := by
  have hsqrt : √(4 : ℝ) = 2 := by
    rw [show (4 : ℝ) = 2 ^ 2 by norm_num, Real.sqrt_sq (by norm_num)]
  simp [gridShape, Scalar.ceilNat, Scalar.sqrt, hsqrt]

theorem crossed_footprint :
    Requirement.elementFootprint 1 crossedExtents ["a", "b", "c", "d"] = ((21, 21) : ℝ × ℝ) := by
  have hknown : ["a", "b", "c", "d"].filterMap crossedExtents.get? =
      [⟨4, 10, 0, 0⟩, ⟨10, 4, 0, 0⟩, ⟨10, 10, 0, 0⟩, ⟨10, 10, 0, 0⟩] := rfl
  have hshape : gridShape ℝ ["a", "b", "c", "d"].length = (2, 2) := gridShape_four
  simp only [Requirement.elementFootprint, hshape, hknown]
  norm_num [Extent.totalWidth, Extent.totalHeight]

theorem crossed_requirement :
    ∃ r, (crossedLedger.calculate crossedTree crossedExtents).requirements.get? "sheet" = some r ∧
      r.minWidth = 21 ∧ r.minHeight = 21 := by
  have hcalc := SpaceLedger.calculate_required
    (Hierarchy.extract_treeOf extract_crossed).toIsTree crossedLedger crossedExtents
  refine ⟨_, hcalc.required "sheet" (by decide), ?_, ?_⟩ <;>
  · rw [SpaceLedger.requirementOf, hcalc.spacing, Requirement.compute,
      show crossedTree.elements "sheet" = ["a", "b", "c", "d"] from rfl,
      show crossedTree.children "sheet" = [] from rfl,
      show crossedLedger.spacing = ⟨0, 1, 1, 1, 0, 0⟩ from rfl, crossed_footprint]
    norm_num [Requirement.ofMinimum, Requirement.contentSize, Requirement.childrenFootprint,
      gridShape_zero]

theorem crossed_exactRoom :
    ExactRoom crossedLedger crossedTree crossedExtents crossedBoxes ⟨1, 1⟩ "sheet" where
  tree := (Hierarchy.extract_treeOf extract_crossed).toIsTree
  known := rfl
  leaf := rfl
  measured := by
    rw [show crossedTree.elements "sheet" = ["a", "b", "c", "d"] from rfl]
    simp only [List.forall_mem_cons]
    refine ⟨⟨_, rfl, ?_⟩, ⟨_, rfl, ?_⟩, ⟨_, rfl, ?_⟩, ⟨_, rfl, ?_⟩, by simp⟩ <;>
      constructor <;> norm_num [Extent.totalWidth, Extent.totalHeight]
  padding := le_rfl
  gap := zero_le_one
  widthPos := zero_lt_one
  heightPos := zero_lt_one
  sized := by
    obtain ⟨r, hr, hw, hh⟩ := crossed_requirement
    exact ⟨r, _, hr, rfl, by rw [hw, Rect.width_eq]; norm_num, by rw [hh, Rect.height_eq]; norm_num⟩

theorem crossed_gap : epsilon ≤ (1 : ℝ) / 2 := by
  norm_num [Scalar.epsilon]

/-- The first three elements are admitted. -/
theorem crossed_admits_three :
    ∃ l', ((crossedLedger.calculate crossedTree crossedExtents).restart crossedBoxes ⟨1, 1⟩).seat
      crossedTree crossedExtents crossedBoxes "sheet" 64 ["a", "b", "c"] = some l' := by
  have hgap : epsilon ≤ (⟨1, 1⟩ : WorldScale ℝ).toUnitX crossedLedger.spacing.gap / 2 := by
    rw [WorldScale.toUnitX, show crossedLedger.spacing.gap = 1 from rfl, div_one]
    exact crossed_gap
  have hlimit : 0 < 64 := by decide
  obtain ⟨hrow, -⟩ := exactRoom_admits crossed_exactRoom hlimit hgap hgap
  rw [show (crossedTree.elements "sheet").length = 4 from rfl, gridShape_four] at hrow
  exact hrow

/-- A ledger at a pixel a unit with these regions in the area. -/
structure Crossing (rs : List (OccupiedRegion ℝ)) (l : SpaceLedger ℝ) : Prop where
  scale : l.scale = ⟨1, 1⟩
  halfGap : l.halfGap = (1 / 2, 1 / 2)
  allotted : l.allotments.get? "sheet" = some ⟨⟨0, 0, 21, 21⟩, ⟨0, 0, 21, 21⟩, rs, []⟩

namespace Crossing

theorem start :
    Crossing [] ((crossedLedger.calculate crossedTree crossedExtents).restart crossedBoxes
      ⟨1, 1⟩) := by
  have hspacing : (crossedLedger.calculate crossedTree crossedExtents).spacing =
      ⟨0, 1, 1, 1, 0, 0⟩ := (SpaceLedger.calculate_required
    (Hierarchy.extract_treeOf extract_crossed).toIsTree crossedLedger crossedExtents).spacing
  have hbox : crossedBoxes.get? "sheet" = some ⟨0, 0, 21, 21⟩ := rfl
  refine ⟨rfl, ?_, ?_⟩
  · simp only [SpaceLedger.halfGap, SpaceLedger.restart, hspacing, WorldScale.toUnitX,
      WorldScale.toUnitY, Scalar.two_real, div_one]
  · simp only [SpaceLedger.restart, Table.get?_map, hbox, Option.map_some, SpaceLedger.interior,
      hspacing, WorldScale.toUnitX, WorldScale.toUnitY]
    rw [Rect.deflate_of_room] <;> norm_num [Rect.width_eq, Rect.height_eq]

variable {rs : List (OccupiedRegion ℝ)} {l : SpaceLedger ℝ}

theorem unitSize_eq (q : Crossing rs l) (w h : ℝ) :
    (⟨w, h, 0, 0⟩ : Extent ℝ).unitSize l.scale = (w, h) := by
  simp only [q.scale, Extent.unitSize, Extent.totalWidth, Extent.totalHeight, WorldScale.toUnit,
    WorldScale.toUnitX, WorldScale.toUnitY, add_zero, div_one]

theorem seat_cons (q : Crossing rs l) {e : String} {w h : ℝ} {p : Point ℝ}
    (hx : crossedExtents.get? e = some ⟨w, h, 0, 0⟩)
    (hp : l.firstPosition? crossedTree crossedBoxes "sheet" (w, h) 64 = some p)
    (rest : List String) :
    l.seat crossedTree crossedExtents crossedBoxes "sheet" 64 (e :: rest) =
        (l.registerElement "sheet" e (.fromCenter p w h)).seat crossedTree crossedExtents
          crossedBoxes "sheet" 64 rest ∧
      Crossing (SpaceLedger.occupy e (.fromCenter p w h) rs)
        (l.registerElement "sheet" e (.fromCenter p w h)) := by
  rw [← q.unitSize_eq w h] at hp
  refine ⟨?_, q.scale, q.halfGap, SpaceLedger.allotment_registerElement q.allotted e _⟩
  rw [SpaceLedger.seat_cons hx hp, q.unitSize_eq]

theorem zones (q : Crossing rs l) :
    l.exclusionZones crossedTree crossedBoxes "sheet" = rs.map (·.bounds) :=
  SpaceLedger.exclusionZones_of_leaf q.allotted rfl _

section
variable (q : Crossing rs l) {w h : ℝ} {p : Point ℝ}
  (hfit : FitsInto (w, h) (⟨0, 0, 21, 21⟩ : Rect ℝ))
include q hfit

/-- A center is clear when it is beside every region by half a pixel. -/
theorem isClear_iff :
    isClear (w, h) l.halfGap (l.exclusionZones crossedTree crossedBoxes "sheet") p = true ↔
      ∀ r ∈ rs, r.bounds.right + 1 / 2 + w / 2 ≤ p.x ∨ p.x + w / 2 + 1 / 2 ≤ r.bounds.left ∨
        r.bounds.bottom + 1 / 2 + h / 2 ≤ p.y ∨ p.y + h / 2 + 1 / 2 ≤ r.bounds.top := by
  rw [isClear_iff_beside hfit, q.zones, q.halfGap]
  simp only [List.forall_mem_map]

/-- A position that was found is in the area. -/
theorem within (hp : l.firstPosition? crossedTree crossedBoxes "sheet" (w, h) 64 = some p) :
    (w / 2 ≤ p.x ∧ p.x ≤ 21 - w / 2) ∧ h / 2 ≤ p.y ∧ p.y ≤ 21 - h / 2 := by
  have hg : 0 ≤ l.halfGap.1 ∧ 0 ≤ l.halfGap.2 := by rw [q.halfGap]; norm_num
  obtain ⟨⟨hl, ht, hr, hb⟩, -⟩ := SpaceLedger.firstPosition?_spec q.allotted hfit hg hp
  rw [Rect.fromCenter_of_nonneg _ hfit.width.1 hfit.height.1] at hl ht hr hb
  simp only at hl ht hr hb
  exact ⟨⟨by linarith, by linarith⟩, by linarith, by linarith⟩

end

theorem fits {w h : ℝ} (hw : 0 ≤ w ∧ w ≤ 21) (hh : 0 ≤ h ∧ h ≤ 21) :
    FitsInto (w, h) (⟨0, 0, 21, 21⟩ : Rect ℝ) := by
  refine ⟨⟨hw.1, ?_⟩, hh.1, ?_⟩
  · rw [Rect.width_eq]
    linarith [hw.2]
  · rw [Rect.height_eq]
    linarith [hh.2]

/-- The narrow element goes into the corner. -/
theorem narrow (q : Crossing [] l) :
    l.firstPosition? crossedTree crossedBoxes "sheet" (4, 10) 64 = some ⟨2, 5⟩ := by
  have hfit := fits (w := 4) (h := 10) (by norm_num) (by norm_num)
  obtain ⟨p, hp, hy, hx⟩ := SpaceLedger.firstPosition?_inFirstRow (h := crossedTree) q.allotted hfit
    (by decide : 0 < 64) (q.halfGap ▸ crossed_gap) (le_refl 0) (by norm_num) (by
      rw [q.zones]
      simp)
  obtain ⟨⟨hx', -⟩, -⟩ := q.within hfit hp
  obtain rfl : p = ⟨2, 5⟩ := by
    obtain ⟨x, y⟩ := p
    simp only at hx hy hx'
    rw [Point.mk.injEq]
    constructor <;> linarith
  exact hp

/-- The low element goes beside it. -/
theorem low (q : Crossing [⟨"a", ⟨0, 0, 4, 10⟩⟩] l) :
    ∃ x, l.firstPosition? crossedTree crossedBoxes "sheet" (10, 4) 64 = some ⟨x, 2⟩ ∧
      19 / 2 ≤ x ∧ x ≤ 10 := by
  have hfit := fits (w := 10) (h := 4) (by norm_num) (by norm_num)
  obtain ⟨⟨x, y⟩, hp, hy, hx⟩ := SpaceLedger.firstPosition?_inFirstRow (h := crossedTree)
    q.allotted hfit (by decide : 0 < 64) (q.halfGap ▸ crossed_gap) (by norm_num : (0 : ℝ) ≤ 5)
    (by norm_num) (by
      rw [q.zones, q.halfGap]
      norm_num)
  obtain ⟨⟨hx', -⟩, -⟩ := q.within hfit hp
  have hclear := (q.isClear_iff hfit).1 (SpaceLedger.firstPosition?_isClear hp) _ (.head _)
  simp only at hx hy hx' hclear
  obtain rfl : y = 2 := by linarith
  refine ⟨x, hp, ?_, by linarith⟩
  rcases hclear with h | h | h | h <;> linarith

/-- The first large element comes to lie in the middle: right of the narrow one and below the low
one. -/
theorem middle {x : ℝ} (hx : 19 / 2 ≤ x ∧ x ≤ 10)
    (q : Crossing [⟨"a", ⟨0, 0, 4, 10⟩⟩, ⟨"b", ⟨x - 5, 0, x + 5, 4⟩⟩] l) :
    ∃ p, l.firstPosition? crossedTree crossedBoxes "sheet" (10, 10) 64 = some p ∧
      (19 / 2 ≤ p.x ∧ p.x ≤ 10) ∧ 19 / 2 ≤ p.y ∧ p.y ≤ 10 := by
  have hfit := fits (w := 10) (h := 10) (by norm_num) (by norm_num)
  obtain ⟨xs, ys, he, hxs, hys⟩ := SpaceLedger.firstPosition?_eq crossedTree crossedBoxes
    q.allotted hfit (by decide : 0 < 64)
  simp only [q.zones, q.halfGap, List.map_cons, List.map_nil] at hxs hys
  have heps := crossed_gap
  -- the slots right of the narrow element and below the low one are both at ten
  obtain ⟨x', hx', hnearX, hleX⟩ := hxs.flush (.after (.head _)) (by norm_num) (by norm_num)
  obtain ⟨y', hy', hnearY, hleY⟩ := hys.flush (.after (.tail _ (.head _))) (by norm_num)
    (by norm_num)
  simp only at hnearX hleX hnearY hleY
  have hclear : ∀ {y}, 19 / 2 ≤ y →
      isClear (10, 10) l.halfGap (l.exclusionZones crossedTree crossedBoxes "sheet") ⟨x', y⟩ =
        true := by
    intro y hy
    rw [q.isClear_iff hfit]
    simp only [List.forall_mem_cons, List.not_mem_nil, false_implies, implies_true, and_true]
    exact ⟨.inl (by linarith), .inr (.inr (.inl (by linarith)))⟩
  obtain ⟨p, hp, hfirst⟩ := exists_firstPoint hxs.increasing hys.increasing
    (mem_gridPoints.2 ⟨hx', hy'⟩) (hclear (by linarith))
  have hp := he.trans hp
  have hrow := hfirst.row_le hx' hy' (hclear (by linarith))
  obtain ⟨⟨hp₁, hp₂⟩, hp₃, hp₄⟩ := q.within hfit hp
  have hbeside := (q.isClear_iff hfit).1 hfirst.passes
  have ha := hbeside _ (.head _)
  have hb := hbeside _ (.tail _ (.head _))
  simp only at ha hb
  have hy : 19 / 2 ≤ p.y := by rcases hb with h | h | h | h <;> linarith
  have hcolumn := hfirst.column_le hx' (hclear hy)
  refine ⟨p, hp, ⟨?_, by linarith⟩, hy, by linarith⟩
  rcases ha with h | h | h | h <;> linarith

/-- Around it there is no room for another one. -/
theorem full {c : Rect ℝ} (q : Crossing rs l) (hc : ⟨"c", c⟩ ∈ rs)
    (hleft : c.left ≤ 5 ∧ 29 / 2 ≤ c.right) (htop : c.top ≤ 5 ∧ 29 / 2 ≤ c.bottom) :
    l.firstPosition? crossedTree crossedBoxes "sheet" (10, 10) 64 = none := by
  have hfit := fits (w := 10) (h := 10) (by norm_num) (by norm_num)
  refine SpaceLedger.firstPosition?_eq_none q.allotted hfit (by decide) fun p hp => ?_
  obtain ⟨hl, ht, hr, hb⟩ := hp
  rw [Rect.fromCenter_of_nonneg _ hfit.width.1 hfit.height.1] at hl ht hr hb
  rw [Bool.eq_false_iff, ne_eq, q.isClear_iff hfit]
  intro hclear
  simp only at hl ht hr hb
  rcases hclear _ hc with h | h | h | h <;> simp only at h <;>
    linarith [hleft.1, hleft.2, htop.1, htop.2]

end Crossing

/-- **A container of exactly the required size need not admit all of its elements.** -/
theorem crossed_not_admitted :
    ExactRoom crossedLedger crossedTree crossedExtents crossedBoxes ⟨1, 1⟩ "sheet" ∧
      ((crossedLedger.calculate crossedTree crossedExtents).restart crossedBoxes ⟨1, 1⟩).seat
        crossedTree crossedExtents crossedBoxes "sheet" 64 (crossedTree.elements "sheet") =
          none := by
  refine ⟨crossed_exactRoom, ?_⟩
  obtain ⟨hseatA, qa⟩ := Crossing.start.seat_cons (e := "a") rfl Crossing.start.narrow
    ["b", "c", "d"]
  have ha : Rect.fromCenter (⟨2, 5⟩ : Point ℝ) 4 10 = ⟨0, 0, 4, 10⟩ := by
    rw [Rect.fromCenter_of_nonneg] <;> norm_num
  rw [ha] at qa
  obtain ⟨x, hposB, hx⟩ := Crossing.low qa
  obtain ⟨hseatB, qb⟩ := qa.seat_cons (e := "b") rfl hposB ["c", "d"]
  have hb : Rect.fromCenter (⟨x, 2⟩ : Point ℝ) 10 4 = ⟨x - 5, 0, x + 5, 4⟩ := by
    rw [Rect.fromCenter_of_nonneg] <;> norm_num
  rw [hb] at qb
  obtain ⟨p, hposC, hpx, hpy⟩ := Crossing.middle hx qb
  obtain ⟨hseatC, qc⟩ := qb.seat_cons (e := "c") rfl hposC ["d"]
  have hfull := qc.full (c := Rect.fromCenter p 10 10) (by simp [SpaceLedger.occupy])
    (by
      rw [Rect.fromCenter_of_nonneg _ (by norm_num) (by norm_num)]
      constructor <;> simp only <;> linarith [hpx.1, hpx.2])
    (by
      rw [Rect.fromCenter_of_nonneg _ (by norm_num) (by norm_num)]
      constructor <;> simp only <;> linarith [hpy.1, hpy.2])
  rw [← qc.unitSize_eq] at hfull
  rw [show crossedTree.elements "sheet" = ["a", "b", "c", "d"] from rfl, hseatA, ha, hseatB, hb,
    hseatC, SpaceLedger.seat, show crossedExtents.get? "d" = some ⟨10, 10, 0, 0⟩ from rfl]
  simp only [hfull, Option.bind_some, Option.bind_none]

end NestedLayout
