import NestedLayout.Proofs.Sizing.Cells
import NestedLayout.Proofs.Space.Seating

/-!
# All positions

What the search for free positions lists, in exact arithmetic: the clear ones among the candidates
about the grid (`availablePositions_eq`).

* `ClearOf`: a footprint and the room around it that belongs to it keep clear of a zone.
* `availablePositions_sound`: every position is in the room and clear of what stands there, and the
  positions come row by row, rows and columns further apart than the tolerance.
-/

set_option autoImplicit false

namespace NestedLayout

open Scalar (epsilon)

/-! ## Values that are spaced -/

/-- Any two of spaced values are the same or further apart than the tolerance. -/
theorem eq_or_far_of_spaced {l : List ℝ} (h : l.Pairwise fun a b => a + epsilon < b) {x y : ℝ}
    (hx : x ∈ l) (hy : y ∈ l) : x = y ∨ epsilon < |x - y| := by
  have : Std.Symm fun x y : ℝ => x = y ∨ epsilon < |x - y| :=
    ⟨fun a b hab => hab.imp Eq.symm (abs_sub_comm a b ▸ ·)⟩
  have hfar : l.Pairwise fun x y => x = y ∨ epsilon < |x - y| := h.imp fun {a b} hab =>
    .inr (abs_sub_comm b a ▸ lt_abs.2 (.inl (by linarith)))
  exact hfar.forall_of_forall (fun _ _ => .inl rfl) hx hy

namespace SpaceLedger

/-- The candidates about the regular grid in an area. -/
noncomputable def gridCandidates (area : Rect ℝ) (size halfGap : ℝ × ℝ) (limit : Nat)
    (zones : List (Rect ℝ)) : List (Point ℝ) :=
  let grid := GridSteps.within area size limit
  candidates area size halfGap (gridSeeds area.left size.1 grid.stepX grid.columns)
    (gridSeeds area.top size.2 grid.stepY grid.rows) zones

theorem gridCandidates_tried {area : Rect ℝ} {size : ℝ × ℝ} (hfit : FitsInto size area)
    (halfGap : ℝ × ℝ) (limit : Nat) (zones : List (Rect ℝ)) :
    ∃ xs ys, gridCandidates area size halfGap limit zones = gridPoints xs ys ∧
      Tried ⟨area.left, area.right⟩ size.1 (2 * halfGap.1)
        (zones.map fun z => ⟨z.left, z.right⟩) xs ∧
      Tried ⟨area.top, area.bottom⟩ size.2 (2 * halfGap.2)
        (zones.map fun z => ⟨z.top, z.bottom⟩) ys :=
  candidates_tried hfit halfGap _ _ zones

/-- A footprint about a center keeps clear of a zone, also with half the gap around it. -/
structure ClearOf (l : SpaceLedger ℝ) (size : ℝ × ℝ) (center : Point ℝ) (zone : Rect ℝ) :
    Prop where
  footprint : zone.intersects (.fromCenter center size.1 size.2) = false
  grown : zone.intersects
    ((Rect.fromCenter center size.1 size.2).inflate l.halfGap.1 l.halfGap.2) = false

variable {l : SpaceLedger ℝ} {h : Hierarchy} {boxes : Boxes ℝ} {container : String}
  {size : ℝ × ℝ} {limit : Nat} {a : Allotment ℝ} {center : Point ℝ}

/-- Half the gap is none below zero. -/
theorem halfGap_nonneg (hscale : l.scale.Proper) (hgap : 0 ≤ l.spacing.gap) :
    0 ≤ l.halfGap.1 ∧ 0 ≤ l.halfGap.2 := by
  simp only [halfGap, WorldScale.toUnitX, WorldScale.toUnitY, Scalar.two_real]
  exact ⟨div_nonneg (div_nonneg hgap hscale.width_pos.le) zero_le_two,
    div_nonneg (div_nonneg hgap hscale.height_pos.le) zero_le_two⟩

theorem clearOf_of_isClear (hg : 0 ≤ l.halfGap.1 ∧ 0 ≤ l.halfGap.2) {zones : List (Rect ℝ)}
    (hclear : isClear size l.halfGap zones center = true) {zone : Rect ℝ} (hz : zone ∈ zones) :
    l.ClearOf size center zone :=
  have hgrown := isClear_iff.1 hclear zone hz
  ⟨Rect.intersects_mono (.refl zone) (Rect.within_inflate hg.1 hg.2 _) hgrown, hgrown⟩

variable (ha : l.allotments.get? container = some a)
include ha

variable (h boxes size limit) in
/-- The positions are the clear ones among the candidates about the grid. -/
theorem availablePositions_eq : l.availablePositions h boxes container size limit =
    if tooLarge a.available size || limit = 0 then []
    else (gridCandidates a.available size l.halfGap limit
      (l.exclusionZones h boxes container)).filter
        (isClear size l.halfGap (l.exclusionZones h boxes container)) := by
  simp only [availablePositions, positionCandidates, ha]
  split <;> rfl

/-- A position is a clear candidate, of a footprint that is not too large. -/
theorem mem_availablePositions :
    center ∈ l.availablePositions h boxes container size limit ↔
      (tooLarge a.available size = false ∧ limit ≠ 0) ∧
        center ∈ gridCandidates a.available size l.halfGap limit
          (l.exclusionZones h boxes container) ∧
        isClear size l.halfGap (l.exclusionZones h boxes container) center = true := by
  rw [availablePositions_eq h boxes size limit ha]
  split
  · rename_i hnone
    simp only [Bool.or_eq_true, decide_eq_true_eq] at hnone
    refine iff_of_false List.not_mem_nil fun ⟨⟨hsmall, hlimit⟩, _⟩ => ?_
    rcases hnone with hlarge | hzero
    · cases hlarge.symm.trans hsmall
    · exact hlimit hzero
  · rename_i hsome
    simp only [Bool.or_eq_true, decide_eq_true_eq, not_or, Bool.not_eq_true] at hsome
    rw [List.mem_filter, and_iff_right hsome]

variable (h boxes size limit) in
/-- The positions are some of the points of a grid with spaced columns and rows, row by row. -/
theorem availablePositions_spaced :
    ∃ xs ys : List ℝ, (l.availablePositions h boxes container size limit).Sublist
        (gridPoints xs ys) ∧
      (xs.Pairwise fun a b => a + epsilon < b) ∧ ys.Pairwise fun a b => a + epsilon < b := by
  rw [availablePositions_eq h boxes size limit ha]
  split
  · exact ⟨[], [], List.nil_sublist _, .nil, .nil⟩
  · exact ⟨_, _, List.filter_sublist, axisCandidates_spaced _ _ _ _ _,
      axisCandidates_spaced _ _ _ _ _⟩

variable (h boxes limit) in
/-- **Every position is sound**: the footprint is in the room, up to the tolerance, and keeps clear
of all that stands there and of the child containers by half the gap. The positions come row by row,
and rows and columns are further apart than the tolerance. -/
theorem availablePositions_sound (hw : 0 ≤ size.1) (hh : 0 ≤ size.2) (hscale : l.scale.Proper)
    (hgap : 0 ≤ l.spacing.gap) :
    (∀ p ∈ l.availablePositions h boxes container size limit,
      a.available.contains (.fromCenter p size.1 size.2) = true ∧
        (∀ r ∈ a.occupied, l.ClearOf size p r.bounds) ∧
        ∀ child ∈ h.children container, ∀ box, boxes.get? child = some box →
          l.ClearOf size p box) ∧
      (l.availablePositions h boxes container size limit).Pairwise Point.Before ∧
      ∀ p ∈ l.availablePositions h boxes container size limit,
        ∀ q ∈ l.availablePositions h boxes container size limit,
          (p.x = q.x ∨ epsilon < |p.x - q.x|) ∧ (p.y = q.y ∨ epsilon < |p.y - q.y|) := by
  have hg := halfGap_nonneg hscale hgap
  obtain ⟨xs, ys, hsub, hxs, hys⟩ := availablePositions_spaced h boxes size limit ha
  refine ⟨fun p hp => ?_, ?_, fun p hp q hq => ?_⟩
  · obtain ⟨⟨hsmall, -⟩, hcandidate, hclear⟩ := (mem_availablePositions ha).1 hp
    refine ⟨candidates_contained hsmall hw hh hcandidate, fun r hr => ?_,
      fun child hchild box hbox => ?_⟩
    · exact clearOf_of_isClear hg hclear (mem_exclusionZones_of_occupied ha hr)
    · exact clearOf_of_isClear hg hclear
        (mem_exclusionZones_of_child (List.mem_filterMap.2 ⟨child, hchild, hbox⟩))
  · exact (gridPoints_pairwise (increasing_of_spaced hxs) (increasing_of_spaced hys)).sublist hsub
  · obtain ⟨hpx, hpy⟩ := mem_gridPoints.1 (hsub.mem hp)
    obtain ⟨hqx, hqy⟩ := mem_gridPoints.1 (hsub.mem hq)
    exact ⟨eq_or_far_of_spaced hxs hpx hqx, eq_or_far_of_spaced hys hpy hqy⟩

end SpaceLedger

/-! ## A corridor between two areas -/

/-- A sheet with two areas. -/
def corridorTree : Hierarchy where
  root := "sheet"
  containers := .ofList [("A", ⟨"A", some "sheet", [], [], 1⟩),
    ("B", ⟨"B", some "sheet", [], [], 1⟩), ("sheet", ⟨"sheet", none, ["A", "B"], [], 0⟩)]
  owners := .ofList []

/-- The areas lie at the two ends of the sheet; the second one starts at `stop`. -/
noncomputable def corridorBoxes (stop : ℝ) : Boxes ℝ :=
  .ofList [("A", ⟨0, 0, 1, 1⟩), ("B", ⟨stop, 0, 7, 1⟩), ("sheet", ⟨0, 0, 7, 1⟩)]

theorem corridorBoxes_get? (stop : ℝ) : (corridorBoxes stop).get? "A" = some ⟨0, 0, 1, 1⟩ ∧
    (corridorBoxes stop).get? "B" = some ⟨stop, 0, 7, 1⟩ ∧
    (corridorBoxes stop).get? "sheet" = some ⟨0, 0, 7, 1⟩ := by
  refine ⟨?_, ?_, ?_⟩ <;> exact Table.get?_ofList_of_mem (by simp) (by simp)

/-- The ledger at a pixel a unit, with a gap of one pixel and no padding. -/
noncomputable def corridor (stop : ℝ) : SpaceLedger ℝ :=
  (SpaceLedger.new ⟨0, 1, 1, 1, 0, 0⟩).restart (corridorBoxes stop) ⟨1, 1⟩

theorem corridor_proper (stop : ℝ) : (corridor stop).scale.Proper := ⟨le_rfl, le_rfl⟩

theorem corridor_gap (stop : ℝ) : 0 ≤ (corridor stop).spacing.gap := by
  show (0 : ℝ) ≤ 1
  exact zero_le_one

theorem corridor_halfGap (stop : ℝ) : (corridor stop).halfGap = (1 / 2, 1 / 2) := by
  simp only [SpaceLedger.halfGap, corridor, SpaceLedger.restart, SpaceLedger.new,
    WorldScale.toUnitX, WorldScale.toUnitY, Scalar.two_real, div_one]

theorem corridor_allotted {stop : ℝ} {id : String} {box : Rect ℝ}
    (hb : (corridorBoxes stop).get? id = some box) (hbox : box.Upright) :
    (corridor stop).allotments.get? id = some ⟨box, box, [], []⟩ := by
  simp only [corridor, SpaceLedger.restart, SpaceLedger.new, Table.get?_map, hb,
    Option.map_some, SpaceLedger.interior, WorldScale.toUnitX, WorldScale.toUnitY, zero_div,
    Rect.deflate_zero hbox]

theorem corridor_sheet (stop : ℝ) :
    (corridor stop).allotments.get? "sheet" = some ⟨⟨0, 0, 7, 1⟩, ⟨0, 0, 7, 1⟩, [], []⟩ :=
  corridor_allotted (corridorBoxes_get? stop).2.2 (by constructor <;> norm_num)

theorem corridor_childZones (stop : ℝ) :
    SpaceLedger.childZones corridorTree (corridorBoxes stop) "sheet" =
      [⟨0, 0, 1, 1⟩, ⟨stop, 0, 7, 1⟩] := by
  rw [SpaceLedger.childZones, show corridorTree.children "sheet" = ["A", "B"] from rfl]
  simp only [List.filterMap_cons, List.filterMap_nil, corridorBoxes_get? stop]

/-- What is one wide and one high is just low enough for the sheet. -/
theorem corridor_fits : FitsInto (1, 1) (⟨0, 0, 7, 1⟩ : Rect ℝ) := by
  constructor <;> norm_num [Rect.width_eq, Rect.height_eq]

/-- The corridor with an element in it. -/
noncomputable def occupiedCorridor (stop : ℝ) (e : Rect ℝ) : SpaceLedger ℝ :=
  (corridor stop).registerElement "sheet" "e" e

section
variable (stop : ℝ) (e : Rect ℝ)

theorem occupiedCorridor_allotted : (occupiedCorridor stop e).allotments.get? "sheet" =
    some ⟨⟨0, 0, 7, 1⟩, ⟨0, 0, 7, 1⟩, [⟨"e", e⟩], []⟩ :=
  SpaceLedger.allotment_registerElement (corridor_sheet stop) "e" e

theorem occupiedCorridor_zones :
    (occupiedCorridor stop e).exclusionZones corridorTree (corridorBoxes stop) "sheet" =
      [e, ⟨0, 0, 1, 1⟩, ⟨stop, 0, 7, 1⟩] := by
  simp only [SpaceLedger.exclusionZones, occupiedCorridor_allotted, corridor_childZones,
    List.map_cons, List.map_nil, List.cons_append, List.nil_append]

end

/-- Between the element and the second area there is a position. -/
theorem occupiedCorridor_position :
    ∃ p, p ∈ (occupiedCorridor 6 ⟨2, 0, 3, 1⟩).availablePositions corridorTree (corridorBoxes 6)
      "sheet" (1, 1) 64 := by
  have hhalf : (occupiedCorridor 6 ⟨2, 0, 3, 1⟩).halfGap = (1 / 2, 1 / 2) := corridor_halfGap 6
  have heps : (epsilon : ℝ) ≤ 1 / 2 := by norm_num [epsilon]
  obtain ⟨xs, ys, he, hxs, hys⟩ := SpaceLedger.gridCandidates_tried corridor_fits
    (occupiedCorridor 6 ⟨2, 0, 3, 1⟩).halfGap 64
    ((occupiedCorridor 6 ⟨2, 0, 3, 1⟩).exclusionZones corridorTree (corridorBoxes 6) "sheet")
  rw [occupiedCorridor_zones, hhalf] at hxs hys
  -- the slot past the element is at four and a half
  obtain ⟨x, hx, hnear, hle⟩ := hxs.flush (.after (.head _)) (by norm_num) (by norm_num)
  norm_num at hnear hle
  refine ⟨⟨x, 1 / 2⟩, (SpaceLedger.mem_availablePositions (occupiedCorridor_allotted _ _)).2
    ⟨⟨corridor_fits.tooLarge_eq_false, by decide⟩, ?_, ?_⟩⟩
  · rw [he]
    exact mem_gridPoints.2 ⟨hx, by simpa using hys.low_mem corridor_fits.height.2⟩
  · rw [occupiedCorridor_zones, hhalf]
    refine (isClear_iff_beside corridor_fits).2 ?_
    simp only [List.forall_mem_cons, List.not_mem_nil, false_implies, implies_true, and_true]
    exact ⟨.inl (by linarith), .inl (by linarith), .inr (.inl (by linarith))⟩

/-- This position is clear of the element and of both areas. -/
theorem occupiedCorridor_sound :
    ∃ p ∈ (occupiedCorridor 6 ⟨2, 0, 3, 1⟩).availablePositions corridorTree (corridorBoxes 6)
        "sheet" (1, 1) 64,
      (occupiedCorridor 6 ⟨2, 0, 3, 1⟩).ClearOf (1, 1) p ⟨2, 0, 3, 1⟩ ∧
        (occupiedCorridor 6 ⟨2, 0, 3, 1⟩).ClearOf (1, 1) p ⟨0, 0, 1, 1⟩ ∧
        (occupiedCorridor 6 ⟨2, 0, 3, 1⟩).ClearOf (1, 1) p ⟨6, 0, 7, 1⟩ := by
  obtain ⟨p, hp⟩ := occupiedCorridor_position
  obtain ⟨hsound, -⟩ := SpaceLedger.availablePositions_sound corridorTree (corridorBoxes 6) 64
    (occupiedCorridor_allotted 6 ⟨2, 0, 3, 1⟩) corridor_fits.width.1 corridor_fits.height.1
    (corridor_proper 6) (corridor_gap 6)
  obtain ⟨-, hoccupied, hchild⟩ := hsound p hp
  obtain ⟨hA, hB, -⟩ := corridorBoxes_get? 6
  exact ⟨p, hp, hoccupied _ (.head _), hchild "A" (by decide) _ hA, hchild "B" (by decide) _ hB⟩

end NestedLayout
