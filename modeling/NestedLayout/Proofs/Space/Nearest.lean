import NestedLayout.Proofs.Space.Positions

/-!
# How much room the last resort needs

The search of last resort takes a center when the footprint is clear of the child containers by half
the gap, but it only tries places a full gap away from them, and of two places within the tolerance
only one. So it can miss a center that is clear by half the gap (`corridor_hides_center`), though
none that is clear by `sureMargin`, three quarters of the gap.

* `Tried.exists_beside`: along an axis, beside a place that is clear by the sure margin there is one
  among the places that are tried that is clear by half the gap of the same zones on the same sides.
* `lastResort_sure`: so there is a position of last resort wherever some center is clear by the
  sure margin, and every one is clear by half the gap.
* `corridor_blocked`: a corridor where no smaller margin will do.
-/

set_option autoImplicit false

namespace NestedLayout

open Scalar (epsilon)

/-! ## Along one axis -/

/-- The room at either side of a footprint with which the search surely finds a place: three
quarters of the gap, and more than half of it by the tolerance. -/
noncomputable def sureMargin (halfGap : ℝ) : ℝ := max (1.5 * halfGap) (halfGap + epsilon)

/-- An interval seen from the other end. -/
def Span.mirror (s : Span ℝ) : Span ℝ := ⟨-s.high, -s.low⟩

theorem FlushPlace.of_mirror {span : Span ℝ} {size gap c : ℝ} {zones : List (Span ℝ)}
    (h : FlushPlace span.mirror size gap (zones.map Span.mirror) c) :
    FlushPlace span size gap zones (-c) := by
  cases h with
  | low =>
    rw [show -(span.mirror.low + size / 2) = span.high - size / 2 by simp only [Span.mirror]; ring]
    exact .high
  | high =>
    rw [show -(span.mirror.high - size / 2) = span.low + size / 2 by simp only [Span.mirror]; ring]
    exact .low
  | after hmem =>
    obtain ⟨z, hz, rfl⟩ := List.mem_map.1 hmem
    rw [show -(z.mirror.high + gap + size / 2) = z.low - gap - size / 2 by
      simp only [Span.mirror]; ring]
    exact .before hz
  | before hmem =>
    obtain ⟨z, hz, rfl⟩ := List.mem_map.1 hmem
    rw [show -(z.mirror.low - gap - size / 2) = z.high + gap + size / 2 by
      simp only [Span.mirror]; ring]
    exact .after hz

/-- Down to where the zones and their gaps reach, there is a flush place before all of them. -/
theorem exists_flushPlace_before {span : Span ℝ} {gap reach : ℝ} {zones : List (Span ℝ)} (size : ℝ)
    (hhigh : reach ≤ span.high) (hreach : ∀ z ∈ zones, reach ≤ z.low - gap) :
    ∃ c, FlushPlace span size gap zones c ∧ reach - size / 2 ≤ c ∧ c ≤ span.high - size / 2 ∧
      ∀ z ∈ zones, c ≤ z.low - gap - size / 2 := by
  -- seen from the other end it is past all of them
  have hstart : span.mirror.low ≤ -reach := neg_le_neg hhigh
  have hends : ∀ z ∈ zones.map Span.mirror, z.high + gap ≤ -reach := by
    simp only [List.forall_mem_map, Span.mirror]
    exact fun z hz => by linarith [hreach z hz]
  obtain ⟨c, hc, hmin, hmax, hpast⟩ := exists_flushPlace_past size hstart hends
  simp only [List.forall_mem_map, Span.mirror] at hmin hpast
  exact ⟨-c, hc.of_mirror, by linarith, by linarith, fun z hz => by linarith [hpast z hz]⟩

section
variable {span : Span ℝ} {size gap x : ℝ} {zones : List (Span ℝ)} {places : List ℝ}

/-- A place is on the same side of the zones as another one: of those that are a margin away from
the other one it is half the gap away. -/
structure BesideToo (size gap : ℝ) (zones : List (Span ℝ)) (x margin c : ℝ) : Prop where
  past : ∀ z ∈ zones, z.high + margin + size / 2 ≤ x → z.high + gap / 2 + size / 2 ≤ c
  before : ∀ z ∈ zones, x + size / 2 + margin ≤ z.low → c + size / 2 + gap / 2 ≤ z.low

variable (ht : Tried span size gap zones places) (hlow : span.low + size / 2 ≤ x)
  (hhigh : x ≤ span.high - size / 2)
include ht hlow hhigh

/-- With a gap of two tolerances or more, the slot past the zones on the left will do, or the far
edge when the slot is beyond it. -/
theorem Tried.exists_beside_of_le (hgap : 2 * epsilon ≤ gap) :
    ∃ c ∈ places, BesideToo size gap zones x (sureMargin (gap / 2)) c := by
  have hquarters : 1.5 * (gap / 2) ≤ sureMargin (gap / 2) := le_max_left _ _
  have hover : gap / 2 + epsilon ≤ sureMargin (gap / 2) := le_max_right _ _
  have hfull : sureMargin (gap / 2) ≤ gap := max_le (by linarith [Scalar.epsilon_pos]) (by linarith)
  set m := sureMargin (gap / 2)
  set left := zones.filter fun z => decide (z.high + m + size / 2 ≤ x) with hleft
  have hmem : ∀ z, z ∈ left ↔ z ∈ zones ∧ z.high + m + size / 2 ≤ x := by simp [hleft]
  have hstart : span.low ≤ x - size / 2 + (gap - m) := by linarith
  have hreach : ∀ z ∈ left, z.high + gap ≤ x - size / 2 + (gap - m) := fun z hz => by
    linarith [((hmem z).1 hz).2]
  obtain ⟨slot, hslot, hmin, hmax, hpast⟩ := exists_flushPlace_past size hstart hreach
  rcases le_or_gt slot (span.high - size / 2) with hin | hbeyond
  · obtain ⟨c, hc, hnear, hle⟩ := ht.flush (hslot.mono (List.filter_subset_self _)) hmin hin
    refine ⟨c, hc, fun z hz hx => ?_, fun z hz hx => by linarith⟩
    linarith [hpast z ((hmem z).2 ⟨hz, hx⟩)]
  · obtain ⟨c, hc, hnear, hle⟩ := ht.flush .high (by linarith) le_rfl
    exact ⟨c, hc, fun z hz hx => by linarith, fun z hz hx => by linarith⟩

/-- With a smaller gap the slot before the zones on the right will do, from which a place that is
tried is no further away than the tolerance. -/
theorem Tried.exists_beside_of_gt (hgap : 0 ≤ gap) (hsmall : gap < 2 * epsilon) :
    ∃ c ∈ places, BesideToo size gap zones x (sureMargin (gap / 2)) c := by
  have hover : gap / 2 + epsilon ≤ sureMargin (gap / 2) := le_max_right _ _
  set m := sureMargin (gap / 2)
  set right := zones.filter fun z => decide (x + size / 2 + m ≤ z.low) with hright
  have hmem : ∀ z, z ∈ right ↔ z ∈ zones ∧ x + size / 2 + m ≤ z.low := by simp [hright]
  have hend : x + size / 2 ≤ span.high := by linarith
  have hreach : ∀ z ∈ right, x + size / 2 ≤ z.low - gap := fun z hz => by
    linarith [((hmem z).1 hz).2]
  obtain ⟨slot, hslot, hmin, hmax, hbefore⟩ := exists_flushPlace_before size hend hreach
  obtain ⟨c, hc, hnear, hle⟩ := ht.flush (hslot.mono (List.filter_subset_self _)) (by linarith) hmax
  refine ⟨c, hc, fun z hz hx => by linarith, fun z hz hx => ?_⟩
  linarith [hbefore z ((hmem z).2 ⟨hz, hx⟩)]

/-- **Beside a place that is clear by the sure margin** one is tried that is clear by half the
gap. -/
theorem Tried.exists_beside (hgap : 0 ≤ gap) :
    ∃ c ∈ places, BesideToo size gap zones x (sureMargin (gap / 2)) c := by
  rcases le_or_gt (2 * epsilon) gap with h | h
  · exact ht.exists_beside_of_le hlow hhigh h
  · exact ht.exists_beside_of_gt hlow hhigh hgap h

end

/-! ## Positions in a container -/

/-- A center about which a footprint lies in a room and keeps clear of zones by a margin. -/
structure SettlesBy (room : Rect ℝ) (size margin : ℝ × ℝ) (zones : List (Rect ℝ))
    (center : Point ℝ) : Prop where
  within : (Rect.fromCenter center size.1 size.2).Within room
  clear : ∀ z ∈ zones,
    z.intersects ((Rect.fromCenter center size.1 size.2).inflate margin.1 margin.2) = false

section
variable {area : Rect ℝ} {size halfGap : ℝ × ℝ} {zones : List (Rect ℝ)} (hfit : FitsInto size area)
include hfit

/-- **Where a center is clear by the sure margin, some candidate is clear.** -/
theorem exists_clear_candidate (hg : 0 ≤ halfGap.1 ∧ 0 ≤ halfGap.2) (seedsX seedsY : List ℝ)
    {center : Point ℝ}
    (hs : SettlesBy area size (sureMargin halfGap.1, sureMargin halfGap.2) zones center) :
    ∃ p ∈ candidates area size halfGap seedsX seedsY zones,
      isClear size halfGap zones p = true := by
  obtain ⟨xs, ys, he, hxs, hys⟩ := candidates_tried hfit halfGap seedsX seedsY zones
  obtain ⟨hl, ht, hr, hb⟩ := hs.within
  rw [Rect.fromCenter_of_nonneg _ hfit.width.1 hfit.height.1] at hl ht hr hb
  simp only at hl ht hr hb
  obtain ⟨x, hx, hpast, hbefore⟩ := hxs.exists_beside (x := center.x) (by simp only; linarith)
    (by simp only; linarith) (by linarith)
  obtain ⟨y, hy, hbelow, habove⟩ := hys.exists_beside (x := center.y) (by simp only; linarith)
    (by simp only; linarith) (by linarith)
  have hhalf : ∀ r : ℝ, 2 * r / 2 = r := fun r => by ring
  simp only [hhalf, List.forall_mem_map] at hpast hbefore hbelow habove
  refine ⟨⟨x, y⟩, he ▸ mem_gridPoints.2 ⟨hx, hy⟩, (isClear_iff_beside hfit).2 fun z hz => ?_⟩
  -- the point is on the same side of each zone as the center
  rcases (isClear_iff_beside hfit).1 (isClear_iff.2 hs.clear) z hz with h | h | h | h
  · exact .inl (hpast z hz h)
  · exact .inr (.inl (hbefore z hz h))
  · exact .inr (.inr (.inl (hbelow z hz h)))
  · exact .inr (.inr (.inr (habove z hz h)))

end

namespace SpaceLedger

variable {l : SpaceLedger ℝ} {h : Hierarchy} {boxes : Boxes ℝ} {container : String}
  {size : ℝ × ℝ} {a : Allotment ℝ}

variable (h boxes) in
/-- **The last resort finds a position where a center is clear by the sure margin**, and every
position it finds is in the room and clear of the child containers by half the gap. -/
theorem lastResort_sure (ha : l.allotments.get? container = some a)
    (hfit : FitsInto size a.available) (hscale : l.scale.Proper) (hgap : 0 ≤ l.spacing.gap) :
    ((∃ center, SettlesBy a.available size (sureMargin l.halfGap.1, sureMargin l.halfGap.2)
        (childZones h boxes container) center) →
      ∃ center, l.nearestClear? h boxes container size = some center) ∧
    ∀ center, l.nearestClear? h boxes container size = some center →
      SettlesBy a.available size l.halfGap (childZones h boxes container) center := by
  refine ⟨fun ⟨center, hs⟩ => ?_, fun center hp => ?_⟩
  · obtain ⟨p, hp, hclear⟩ := exists_clear_candidate hfit (halfGap_nonneg hscale hgap) _ _ hs
    exact exists_nearestClear?_of_mem ha hp hclear
  · obtain ⟨hc, hclear⟩ := nearestClear?_mem ha hp
    exact ⟨candidates_within hfit hc, isClear_iff.1 hclear⟩

end SpaceLedger

/-! ## A corridor that is passed over -/

/-- In the middle of a corridor that is wide enough there is a center that is clear by the
margin. -/
theorem corridor_center {margin : ℝ} (hm : 0 ≤ margin) (hm' : margin ≤ 5) :
    SettlesBy ⟨0, 0, 7, 1⟩ (1, 1) (margin, margin)
      (SpaceLedger.childZones corridorTree (corridorBoxes (2 + 2 * margin)) "sheet")
      ⟨3 / 2 + margin, 1 / 2⟩ := by
  constructor
  · rw [Rect.fromCenter_of_nonneg _ zero_le_one zero_le_one]
    constructor <;> simp only <;> linarith
  · rw [corridor_childZones, ← isClear_iff, isClear_iff_beside corridor_fits]
    simp only [List.forall_mem_cons, List.not_mem_nil, false_implies, implies_true, and_true]
    exact ⟨.inl (by linarith), .inr (.inl (by linarith))⟩

/-- What is tried across the corridor: the middle of the sheet, its edges, and the slots beside the
areas. -/
theorem corridor_places {margin x : ℝ} (hm : 0 ≤ margin) (hm' : margin ≤ 3)
    (hx : x ∈ axisCandidates ⟨0, 7⟩ 1 1 [7 / 2] [⟨0, 1⟩, ⟨2 + 2 * margin, 7⟩]) :
    x = 7 / 2 ∨ x = 1 / 2 ∨ x = 13 / 2 ∨ x = 5 / 2 ∨ x = 1 / 2 + 2 * margin := by
  have hfit : (1 : ℝ) ≤ (⟨0, 7⟩ : Span ℝ).high - (⟨0, 7⟩ : Span ℝ).low := by norm_num
  obtain ⟨p, hp, ⟨hmin, hmax⟩, rfl⟩ := exists_axisPlace hfit hx
  have hslack : max (epsilon : ℝ) (1 / 4) = 1 / 4 := max_eq_right (by norm_num [epsilon])
  simp only [hslack] at hmin hmax
  simp only [axisPlaces, List.flatMap_cons, List.flatMap_nil, List.append_nil, List.cons_append,
    List.nil_append, List.mem_cons, List.not_mem_nil, or_false] at hp
  rcases hp with rfl | rfl | rfl | rfl | rfl | rfl | rfl
  · left; norm_num [pulledTo]
  · right; left; norm_num [pulledTo]
  · right; right; left; norm_num [pulledTo]
  · right; right; right; left; norm_num [pulledTo]
  · norm_num at hmin
  · norm_num at hmax
  · right; right; right; right
    rw [pulledTo, min_eq_left (by linarith), max_eq_right (by linarith)]
    ring

/-- **A corridor is passed over** while its middle is clear by less than three quarters of the
gap. -/
theorem corridor_blocked {margin : ℝ} (hm : 0 ≤ margin) (hm' : margin < 3 / 4) :
    (corridor (2 + 2 * margin)).nearestClear? corridorTree (corridorBoxes (2 + 2 * margin)) "sheet"
      (1, 1) = none := by
  rw [← Option.not_isSome_iff_eq_none, Option.isSome_iff_exists]
  rintro ⟨center, hp⟩
  obtain ⟨hc, hclear⟩ := SpaceLedger.nearestClear?_mem (corridor_sheet _) hp
  obtain ⟨hstart, htop, hend, hbottom⟩ := candidates_within corridor_fits hc
  rw [Rect.fromCenter_of_nonneg _ zero_le_one zero_le_one] at hstart htop hend hbottom
  simp only at hstart htop hend hbottom
  have hmiddle : ((0 : ℝ) + 7) / 2 = 7 / 2 ∧ (2.0 : ℝ) * (1 / 2) = 1 := by norm_num
  obtain ⟨hx, -⟩ := mem_gridPoints.1 hc
  rw [corridor_halfGap, corridor_childZones, Rect.center_x] at hx
  simp only [List.map_cons, List.map_nil, hmiddle] at hx
  rw [corridor_halfGap, corridor_childZones, isClear_iff_beside corridor_fits] at hclear
  simp only [List.forall_mem_cons, List.not_mem_nil, false_implies, implies_true, and_true]
    at hclear
  obtain ⟨hA, hB⟩ := hclear
  -- the footprint is as high as the areas, so it has to be right of one and left of the other
  have hright : 2 ≤ center.x := by rcases hA with h | h | h | h <;> linarith
  have hleft : center.x ≤ 1 + 2 * margin := by rcases hB with h | h | h | h <;> linarith
  rcases corridor_places hm (by linarith) hx with h | h | h | h | h <;> linarith

/-- With a margin of three quarters the corridor is wide enough: something is found. -/
theorem corridor_sure : ∃ center, (corridor (7 / 2)).nearestClear? corridorTree
    (corridorBoxes (7 / 2)) "sheet" (1, 1) = some center ∧
      SettlesBy ⟨0, 0, 7, 1⟩ (1, 1) (1 / 2, 1 / 2)
        (SpaceLedger.childZones corridorTree (corridorBoxes (7 / 2)) "sheet") center := by
  obtain ⟨hcomplete, hsound⟩ := SpaceLedger.lastResort_sure corridorTree (corridorBoxes (7 / 2))
    (corridor_sheet (7 / 2)) corridor_fits (corridor_proper (7 / 2)) (corridor_gap (7 / 2))
  have hmargin : sureMargin (1 / 2) = 3 / 4 := by
    rw [sureMargin, max_eq_left] <;> norm_num [epsilon]
  have hstop : (7 / 2 : ℝ) = 2 + 2 * (3 / 4) := by norm_num
  rw [corridor_halfGap] at hcomplete hsound
  simp only [hmargin] at hcomplete
  obtain ⟨center, hp⟩ := hcomplete ⟨_, hstop ▸ corridor_center (by norm_num) (by norm_num)⟩
  exact ⟨center, hp, hsound center hp⟩

/-- **A center that is clear by half the gap may be missed**, also by a footprint that fits. -/
theorem corridor_hides_center :
    (corridor 3).allotments.get? "sheet" = some ⟨⟨0, 0, 7, 1⟩, ⟨0, 0, 7, 1⟩, [], []⟩ ∧
      FitsInto (1, 1) (⟨0, 0, 7, 1⟩ : Rect ℝ) ∧
      (∃ center, SettlesBy ⟨0, 0, 7, 1⟩ (1, 1) (corridor 3).halfGap
        (SpaceLedger.childZones corridorTree (corridorBoxes 3) "sheet") center) ∧
      (corridor 3).nearestClear? corridorTree (corridorBoxes 3) "sheet" (1, 1) = none := by
  refine ⟨corridor_sheet 3, corridor_fits, ?_⟩
  have hstop : (3 : ℝ) = 2 + 2 * (1 / 2) := by norm_num
  have hhalf : (0 : ℝ) ≤ 1 / 2 := by norm_num
  rw [corridor_halfGap, hstop]
  exact ⟨⟨_, corridor_center hhalf (by norm_num)⟩, corridor_blocked hhalf (by norm_num)⟩

end NestedLayout
