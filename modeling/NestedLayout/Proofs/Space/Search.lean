import NestedLayout.Proofs.Exact.Rect
import NestedLayout.Space.Search

/-!
# Positions that the search finds

In exact arithmetic every position that the search comes up with keeps a footprint inside the room
and clear of the zones, and the last resort finds a position whenever there is a clear band at the
bottom of the room.

* `exists_candidate_below`, `exists_axisPlace`: from a place that passes the filter to a candidate,
  and back.
* `axisCandidates_tried`: candidates stay between the edges, in order, and next to both edges and
  every slot beside a zone there is one (`Tried`), since thinning only drops a value just above one
  that stays (`exists_below_thinned`).
* `firstPosition?_spec`, `nearestClear?_spec`: the positions found are good (`Settles`).
* `exists_nearestClear?`: below all child containers there is one.
-/

set_option autoImplicit false

namespace NestedLayout

open Scalar (epsilon)

/-! ## Thinning -/

theorem thinSorted_sublist (last : ℝ) (l : List ℝ) : (thinSorted last l).Sublist l := by
  induction l generalizing last with
  | nil => exact .slnil
  | cons c rest ih =>
    unfold thinSorted
    split
    · exact (ih last).cons c
    · exact (ih c).cons_cons c

theorem thinned_sublist (l : List ℝ) : (thinned l).Sublist l := by
  cases l with
  | nil => exact .slnil
  | cons c rest => exact (thinSorted_sublist c rest).cons_cons c

/-- A value that is dropped has one that was kept at most the tolerance below it. -/
theorem exists_below_thinSorted {l : List ℝ} {last x : ℝ} (hs : (last :: l).Pairwise (· ≤ ·))
    (h : x ∈ last :: l) : ∃ c ∈ last :: thinSorted last l, x - epsilon ≤ c ∧ c ≤ x := by
  have heps := Scalar.epsilon_pos
  induction l generalizing last with
  | nil =>
    obtain rfl := List.mem_singleton.1 h
    exact ⟨x, .head _, by linarith, le_rfl⟩
  | cons y rest ih =>
    obtain ⟨hlast, hrest⟩ := List.pairwise_cons.1 hs
    rcases List.mem_cons.1 h with rfl | h
    · exact ⟨x, .head _, by linarith, le_rfl⟩
    · unfold thinSorted
      split
      · rename_i hnear
        rw [Scalar.abs_real] at hnear
        rcases List.mem_cons.1 h with rfl | h
        · exact ⟨last, .head _, by linarith [(abs_le.1 hnear).2], hlast x (.head _)⟩
        · exact ih (hs.sublist ((List.sublist_cons_self y rest).cons_cons last)) (.tail _ h)
      · obtain ⟨c, hc, hx⟩ := ih hrest h
        exact ⟨c, .tail _ hc, hx⟩

/-- What is kept after the last value kept is further away than the tolerance, each from the one
before. -/
theorem thinSorted_spaced {l : List ℝ} {last : ℝ} (hs : (last :: l).Pairwise (· ≤ ·)) :
    (last :: thinSorted last l).Pairwise fun a b => a + epsilon < b := by
  induction l generalizing last with
  | nil => exact List.pairwise_singleton _ _
  | cons y rest ih =>
    have heps := Scalar.epsilon_pos
    obtain ⟨hlast, hrest⟩ := List.pairwise_cons.1 hs
    unfold thinSorted
    split
    · exact ih (hs.sublist ((List.sublist_cons_self y rest).cons_cons last))
    · rename_i hfar
      have hy : last + epsilon < y := by
        rw [Scalar.abs_real, abs_of_nonneg (sub_nonneg.2 (hlast y (.head _))), not_le] at hfar
        linarith
      have ih := ih hrest
      refine List.pairwise_cons.2 ⟨fun c hc => ?_, ih⟩
      rcases List.mem_cons.1 hc with rfl | hc
      · exact hy
      · linarith [(List.pairwise_cons.1 ih).1 c hc]

section
variable {l : List ℝ} (hs : l.Pairwise (· ≤ ·))
include hs

/-- **Thinning keeps a value just below each one** that it drops. -/
theorem exists_below_thinned {x : ℝ} (h : x ∈ l) :
    ∃ c ∈ thinned l, x - epsilon ≤ c ∧ c ≤ x := by
  cases l with
  | nil => cases h
  | cons y rest => exact exists_below_thinSorted hs h

/-- **Kept values are further apart than the tolerance.** -/
theorem thinned_spaced : (thinned l).Pairwise fun a b => a + epsilon < b := by
  cases l with
  | nil => exact .nil
  | cons y rest => exact thinSorted_spaced hs

end

/-! ## Candidates along one axis -/

/-- The places that are tried along an axis whatever the grid: both edges, and the slots a gap away
from either side of each zone. -/
inductive FlushPlace (span : Span ℝ) (size gap : ℝ) (zones : List (Span ℝ)) : ℝ → Prop where
  | low : FlushPlace span size gap zones (span.low + size / 2)
  | high : FlushPlace span size gap zones (span.high - size / 2)
  | after {z : Span ℝ} (hz : z ∈ zones) :
    FlushPlace span size gap zones (z.high + gap + size / 2)
  | before {z : Span ℝ} (hz : z ∈ zones) :
    FlushPlace span size gap zones (z.low - gap - size / 2)

/-- What is tried along an axis: places between the edges, further apart than the tolerance, and
next to every flush place among them one at most the tolerance below it. -/
structure Tried (span : Span ℝ) (size gap : ℝ) (zones : List (Span ℝ)) (places : List ℝ) :
    Prop where
  within : ∀ c ∈ places, span.low + size / 2 ≤ c ∧ c ≤ span.high - size / 2
  spaced : places.Pairwise fun a b => a + epsilon < b
  flush : ∀ {c}, FlushPlace span size gap zones c →
    span.low + size / 2 ≤ c → c ≤ span.high - size / 2 →
    ∃ c' ∈ places, c - epsilon ≤ c' ∧ c' ≤ c

theorem increasing_of_spaced {l : List ℝ} (h : l.Pairwise fun a b => a + epsilon < b) :
    l.Pairwise (· < ·) :=
  h.imp fun hab => (lt_add_of_pos_right _ Scalar.epsilon_pos).trans hab

theorem Tried.increasing {span : Span ℝ} {size gap : ℝ} {zones : List (Span ℝ)}
    {places : List ℝ} (ht : Tried span size gap zones places) : places.Pairwise (· < ·) :=
  increasing_of_spaced ht.spaced

/-- The places along an axis before they are pulled between the edges and thinned, for an extent
with this half: the seeds, both edges, and the slots beside the zones. -/
noncomputable def axisPlaces (span : Span ℝ) (half gap : ℝ) (seeds : List ℝ)
    (zones : List (Span ℝ)) : List ℝ :=
  seeds ++ [span.low + half, span.high - half] ++
    zones.flatMap fun z => [z.high + gap + half, z.low - gap - half]

/-- A place pulled between the edges. -/
noncomputable def pulledTo (span : Span ℝ) (half p : ℝ) : ℝ :=
  max (span.low + half) (min p (span.high - half))

/-- A place between the edges is not pulled. -/
theorem pulledTo_of_between {span : Span ℝ} {half p : ℝ} (hlow : span.low + half ≤ p)
    (hhigh : p ≤ span.high - half) : pulledTo span half p = p := by
  rw [pulledTo, min_eq_left hhigh, max_eq_right hlow]

theorem FlushPlace.mem_axisPlaces {span : Span ℝ} {size gap c : ℝ} {zones : List (Span ℝ)}
    (h : FlushPlace span size gap zones c) (seeds : List ℝ) :
    c ∈ axisPlaces span (size / 2) gap seeds zones := by
  simp only [axisPlaces, List.append_assoc, List.mem_append, List.mem_flatMap, List.mem_cons,
    List.not_mem_nil, or_false]
  refine .inr ?_
  cases h with
  | low => exact .inl (.inl rfl)
  | high => exact .inl (.inr rfl)
  | after hz => exact .inr ⟨_, hz, .inl rfl⟩
  | before hz => exact .inr ⟨_, hz, .inr rfl⟩

section
variable {span : Span ℝ} {size gap : ℝ} {zones : List (Span ℝ)}
  (hfit : size ≤ span.high - span.low)
include hfit

/-- The candidates for an extent that fits are thinned from values in order: the places up to a
quarter of the gap, or the tolerance, past an edge, each pulled between the edges. -/
theorem axisCandidates_eq (gap : ℝ) (seeds : List ℝ) (zones : List (Span ℝ)) :
    ∃ kept : List ℝ, axisCandidates span size gap seeds zones = thinned kept ∧
      kept.Pairwise (· ≤ ·) ∧
      ∀ c, c ∈ kept ↔ ∃ p ∈ axisPlaces span (size / 2) gap seeds zones,
        (span.low + size / 2 - max epsilon (gap / 4) ≤ p ∧
          p ≤ span.high - size / 2 + max epsilon (gap / 4)) ∧ pulledTo span (size / 2) p = c := by
  have horder : span.low + size / 2 ≤ span.high - size / 2 := by linarith
  have hin : span.low + size / 2.0 ≤ Scalar.max (span.high - size / 2.0) (span.low + size / 2.0) :=
    by rw [Scalar.max_real]; exact le_max_right _ _
  have hslack : max epsilon (gap * 0.25) = max epsilon (gap / 4) := by norm_num [div_eq_mul_inv]
  unfold axisCandidates
  simp only [if_neg (not_lt.2 hfit), dif_pos hin]
  refine ⟨_, rfl, ?_, fun c => ?_⟩
  · refine (List.pairwise_mergeSort (fun a b c hab hbc => ?_) (fun a b => ?_) _).imp
      Scalar.compareTotal_isLE_iff.1
    · rw [Scalar.compareTotal_isLE_iff] at *
      exact hab.trans hbc
    · rw [Bool.or_eq_true, Scalar.compareTotal_isLE_iff, Scalar.compareTotal_isLE_iff]
      exact le_total a b
  · simp only [List.mem_mergeSort, List.mem_map, List.mem_filter, Bool.and_eq_true,
      decide_eq_true_eq, Scalar.clamp_real, Scalar.max_real, Scalar.two_real, hslack,
      max_eq_left horder, and_assoc, axisPlaces, pulledTo]

variable {seeds : List ℝ}

/-- **A place that passes the filter has a candidate just below** where it is pulled to. -/
theorem exists_candidate_below {p : ℝ} (hp : p ∈ axisPlaces span (size / 2) gap seeds zones)
    (hlow : span.low + size / 2 - max epsilon (gap / 4) ≤ p)
    (hhigh : p ≤ span.high - size / 2 + max epsilon (gap / 4)) :
    ∃ c ∈ axisCandidates span size gap seeds zones,
      pulledTo span (size / 2) p - epsilon ≤ c ∧ c ≤ pulledTo span (size / 2) p := by
  obtain ⟨kept, he, hsorted, hmem⟩ := axisCandidates_eq hfit gap seeds zones
  rw [he]
  exact exists_below_thinned hsorted ((hmem _).2 ⟨p, hp, ⟨hlow, hhigh⟩, rfl⟩)

/-- **A candidate is a place that passes the filter**, pulled between the edges. -/
theorem exists_axisPlace {c : ℝ} (hc : c ∈ axisCandidates span size gap seeds zones) :
    ∃ p ∈ axisPlaces span (size / 2) gap seeds zones,
      (span.low + size / 2 - max epsilon (gap / 4) ≤ p ∧
        p ≤ span.high - size / 2 + max epsilon (gap / 4)) ∧ pulledTo span (size / 2) p = c := by
  obtain ⟨kept, he, -, hmem⟩ := axisCandidates_eq hfit gap seeds zones
  rw [he] at hc
  exact (hmem c).1 ((thinned_sublist kept).mem hc)

/-- **Candidates stay between the edges, spaced, and next to all flush places.** -/
theorem axisCandidates_tried (gap : ℝ) (seeds : List ℝ) (zones : List (Span ℝ)) :
    Tried span size gap zones (axisCandidates span size gap seeds zones) := by
  have horder : span.low + size / 2 ≤ span.high - size / 2 := by linarith
  refine ⟨fun c hc => ?_, ?_, fun {c} hc hmin hmax => ?_⟩
  · obtain ⟨p, -, -, rfl⟩ := exists_axisPlace hfit hc
    exact ⟨le_max_left _ _, max_le horder (min_le_right _ _)⟩
  · obtain ⟨kept, he, hsorted, -⟩ := axisCandidates_eq hfit gap seeds zones
    rw [he]
    exact thinned_spaced hsorted
  · have hslack : 0 < max epsilon (gap / 4) := lt_max_of_lt_left Scalar.epsilon_pos
    have hbelow := exists_candidate_below hfit (hc.mem_axisPlaces seeds) (by linarith) (by linarith)
    rwa [pulledTo_of_between hmin hmax] at hbelow

variable {places : List ℝ} (ht : Tried span size gap zones places)
include ht

/-- The near edge is tried. -/
theorem Tried.low_mem : span.low + size / 2 ∈ places := by
  obtain ⟨c, hc, -, hle⟩ := ht.flush .low le_rfl (by linarith)
  exact hle.antisymm (ht.within c hc).1 ▸ hc

/-- A place next to the far edge is tried. -/
theorem Tried.exists_near_high : ∃ c ∈ places, span.high - size / 2 - epsilon ≤ c := by
  obtain ⟨c, hc, hnear, -⟩ := ht.flush .high (by linarith) le_rfl
  exact ⟨c, hc, hnear⟩

end

/-- Also an extent that is a little too large, and gets the middle, stays between the edges up to
the tolerance. -/
theorem axisCandidates_near {span : Span ℝ} {size gap : ℝ} {seeds : List ℝ}
    {zones : List (Span ℝ)} (hsize : size ≤ span.high - span.low + epsilon) {c : ℝ}
    (hc : c ∈ axisCandidates span size gap seeds zones) :
    span.low + size / 2 - epsilon ≤ c ∧ c ≤ span.high - size / 2 + epsilon := by
  have heps := Scalar.epsilon_pos
  rcases le_or_gt size (span.high - span.low) with hfit | hlarge
  · obtain ⟨h₁, h₂⟩ := (axisCandidates_tried hfit gap seeds zones).within c hc
    exact ⟨by linarith, by linarith⟩
  · simp only [axisCandidates, if_pos hlarge, List.mem_singleton, Scalar.two_real] at hc
    subst hc
    exact ⟨by linarith, by linarith⟩

/-- **Candidates are further apart than the tolerance.** -/
theorem axisCandidates_spaced (span : Span ℝ) (size gap : ℝ) (seeds : List ℝ)
    (zones : List (Span ℝ)) :
    (axisCandidates span size gap seeds zones).Pairwise fun a b => a + epsilon < b := by
  rcases le_or_gt size (span.high - span.low) with hfit | hlarge
  · exact (axisCandidates_tried hfit gap seeds zones).spaced
  · simp only [axisCandidates, if_pos hlarge]
    exact List.pairwise_singleton _ _

/-! ## Positions -/

/-- A center about which a footprint lies in a room and keeps clear of zones. -/
structure Settles (room : Rect ℝ) (size : ℝ × ℝ) (zones : List (Rect ℝ)) (center : Point ℝ) :
    Prop where
  within : (Rect.fromCenter center size.1 size.2).Within room
  clear : ∀ z ∈ zones, z.intersects (Rect.fromCenter center size.1 size.2) = false

/-- A footprint that fits into a room. -/
structure FitsInto (size : ℝ × ℝ) (room : Rect ℝ) : Prop where
  width : 0 ≤ size.1 ∧ size.1 ≤ room.width
  height : 0 ≤ size.2 ∧ size.2 ≤ room.height

section
variable {area : Rect ℝ} {size halfGap : ℝ × ℝ} {seedsX seedsY : List ℝ} {zones : List (Rect ℝ)}
  (hfit : FitsInto size area)

theorem mem_gridPoints {xs ys : List ℝ} {p : Point ℝ} :
    p ∈ gridPoints xs ys ↔ p.x ∈ xs ∧ p.y ∈ ys := by
  simp only [gridPoints, List.mem_flatMap, List.mem_map]
  refine ⟨?_, ?_⟩
  · rintro ⟨y, hy, x, hx, rfl⟩
    exact ⟨hx, hy⟩
  · exact fun ⟨hx, hy⟩ => ⟨p.y, hy, p.x, hx, rfl⟩

theorem isClear_iff {center : Point ℝ} :
    isClear size halfGap zones center = true ↔ ∀ z ∈ zones,
      z.intersects ((Rect.fromCenter center size.1 size.2).inflate halfGap.1 halfGap.2) =
        false := by
  simp [isClear]

theorem tooLarge_eq_false_iff : SpaceLedger.tooLarge area size = false ↔
    size.1 ≤ area.width + epsilon ∧ size.2 ≤ area.height + epsilon := by
  simp [SpaceLedger.tooLarge]

/-- **Candidates keep a footprint in the area**, up to the tolerance, also one that is larger than
the area by no more than that. -/
theorem candidates_contained (hsmall : SpaceLedger.tooLarge area size = false) (hw : 0 ≤ size.1)
    (hh : 0 ≤ size.2) {center : Point ℝ}
    (hc : center ∈ candidates area size halfGap seedsX seedsY zones) :
    area.contains (Rect.fromCenter center size.1 size.2) = true := by
  obtain ⟨hwide, hhigh⟩ := tooLarge_eq_false_iff.1 hsmall
  obtain ⟨hx, hy⟩ := mem_gridPoints.1 hc
  obtain ⟨hx₁, hx₂⟩ := axisCandidates_near (by simp only; rw [Rect.width_eq] at hwide; linarith) hx
  obtain ⟨hy₁, hy₂⟩ :=
    axisCandidates_near (by simp only; rw [Rect.height_eq] at hhigh; linarith) hy
  rw [Rect.fromCenter_of_nonneg _ hw hh, Rect.contains_iff]
  simp only at *
  exact ⟨by linarith, by linarith, by linarith, by linarith⟩

include hfit

/-- What fits is not too large. -/
theorem FitsInto.tooLarge_eq_false : SpaceLedger.tooLarge area size = false := by
  have heps := Scalar.epsilon_pos
  exact tooLarge_eq_false_iff.2 ⟨by linarith [hfit.width.2], by linarith [hfit.height.2]⟩

/-- The grid of candidates has what is tried across and up and down. -/
theorem candidates_tried (halfGap : ℝ × ℝ) (seedsX seedsY : List ℝ) (zones : List (Rect ℝ)) :
    ∃ xs ys, candidates area size halfGap seedsX seedsY zones = gridPoints xs ys ∧
      Tried ⟨area.left, area.right⟩ size.1 (2 * halfGap.1)
        (zones.map fun z => ⟨z.left, z.right⟩) xs ∧
      Tried ⟨area.top, area.bottom⟩ size.2 (2 * halfGap.2)
        (zones.map fun z => ⟨z.top, z.bottom⟩) ys := by
  simp only [candidates, Scalar.two_real]
  exact ⟨_, _, rfl, axisCandidates_tried hfit.width.2 _ _ _,
    axisCandidates_tried hfit.height.2 _ _ _⟩

theorem Tried.within_of_mem {spansX spansY : List (Span ℝ)} {xs ys : List ℝ}
    (hxs : Tried ⟨area.left, area.right⟩ size.1 (2 * halfGap.1) spansX xs)
    (hys : Tried ⟨area.top, area.bottom⟩ size.2 (2 * halfGap.2) spansY ys) {center : Point ℝ}
    (hc : center ∈ gridPoints xs ys) : (Rect.fromCenter center size.1 size.2).Within area := by
  obtain ⟨hx, hy⟩ := mem_gridPoints.1 hc
  obtain ⟨hx₁, hx₂⟩ := hxs.within _ hx
  obtain ⟨hy₁, hy₂⟩ := hys.within _ hy
  rw [Rect.fromCenter_of_nonneg _ hfit.width.1 hfit.height.1]
  constructor <;> simp only at * <;> linarith

theorem candidates_within {center : Point ℝ}
    (hc : center ∈ candidates area size halfGap seedsX seedsY zones) :
    (Rect.fromCenter center size.1 size.2).Within area := by
  obtain ⟨xs, ys, he, hxs, hys⟩ := candidates_tried hfit halfGap seedsX seedsY zones
  exact hxs.within_of_mem hfit hys (he ▸ hc)

theorem settles_of_clear (hg : 0 ≤ halfGap.1 ∧ 0 ≤ halfGap.2) {center : Point ℝ}
    (hc : center ∈ candidates area size halfGap seedsX seedsY zones)
    (hclear : isClear size halfGap zones center = true) : Settles area size zones center :=
  ⟨candidates_within hfit hc, fun z hz =>
    Rect.intersects_mono (.refl z) (Rect.within_inflate hg.1 hg.2 _) (isClear_iff.1 hclear z hz)⟩

/-- A center is clear when it is on one side of every zone by half the gap. -/
theorem isClear_iff_beside {center : Point ℝ} :
    isClear size halfGap zones center = true ↔ ∀ z ∈ zones,
      z.right + halfGap.1 + size.1 / 2 ≤ center.x ∨ center.x + size.1 / 2 + halfGap.1 ≤ z.left ∨
        z.bottom + halfGap.2 + size.2 / 2 ≤ center.y ∨
        center.y + size.2 / 2 + halfGap.2 ≤ z.top := by
  rw [isClear_iff]
  refine forall₂_congr fun z _ => ?_
  rw [Bool.eq_false_iff, ne_eq, Rect.intersects_iff,
    Rect.fromCenter_of_nonneg _ hfit.width.1 hfit.height.1]
  simp only [Rect.inflate_eq, not_and_or, not_lt]
  constructor
  · rintro (h | h | h | h)
    · exact .inr (.inl (by linarith))
    · exact .inl (by linarith)
    · exact .inr (.inr (.inr (by linarith)))
    · exact .inr (.inr (.inl (by linarith)))
  · rintro (h | h | h | h)
    · exact .inr (.inl (by linarith))
    · exact .inl (by linarith)
    · exact .inr (.inr (.inr (by linarith)))
    · exact .inr (.inr (.inl (by linarith)))

/-- Where the zones leave room below them, a point on the lowest row is clear. -/
theorem exists_clear_point {spansX spansY : List (Span ℝ)} {xs ys : List ℝ}
    (hxs : Tried ⟨area.left, area.right⟩ size.1 (2 * halfGap.1) spansX xs)
    (hys : Tried ⟨area.top, area.bottom⟩ size.2 (2 * halfGap.2) spansY ys)
    (hg : epsilon ≤ halfGap.2)
    (hzones : ∀ z ∈ zones, z.bottom + size.2 + 2 * halfGap.2 ≤ area.bottom) :
    ∃ center ∈ gridPoints xs ys, isClear size halfGap zones center = true := by
  obtain ⟨y, hy, hlow⟩ := hys.exists_near_high hfit.height.2
  refine ⟨⟨_, y⟩, mem_gridPoints.2 ⟨hxs.low_mem hfit.width.2, hy⟩,
    (isClear_iff_beside hfit).2 fun z hz => .inr (.inr (.inl ?_))⟩
  have hz := hzones z hz
  simp only at hlow
  linarith

end

/-! ## The nearest of a list -/

/-- The best center after a list is the one before or a member of the list. -/
theorem mem_of_foldl_nearer {target center : Point ℝ} {l : List (Point ℝ)}
    {best : Option (ℝ × Point ℝ)} {d : ℝ} (h : l.foldl (SpaceLedger.nearer target) best =
      some (d, center)) : (∃ d', best = some (d', center)) ∨ center ∈ l := by
  induction l generalizing best with
  | nil => exact .inl ⟨d, h⟩
  | cons p l ih =>
    rcases ih h with ⟨d', hd'⟩ | hm
    · unfold SpaceLedger.nearer at hd'
      dsimp only at hd'
      split at hd'
      · cases hd'; exact .inr (.head _)
      · split at hd'
        · cases hd'; exact .inr (.head _)
        · exact .inl ⟨d', hd'⟩
    · exact .inr (.tail _ hm)

theorem nearer_isSome (target : Point ℝ) (best : Option (ℝ × Point ℝ)) (p : Point ℝ) :
    (SpaceLedger.nearer target best p).isSome = true := by
  unfold SpaceLedger.nearer
  dsimp only
  split
  · rfl
  · split <;> rfl

theorem foldl_nearer_isSome (target : Point ℝ) {l : List (Point ℝ)}
    {best : Option (ℝ × Point ℝ)} (h : best.isSome = true ∨ l ≠ []) :
    (l.foldl (SpaceLedger.nearer target) best).isSome = true := by
  induction l generalizing best with
  | nil => simpa using h
  | cons p l ih => exact ih (.inl (nearer_isSome target best p))

/-! ## Positions in a container -/

namespace SpaceLedger

variable {l : SpaceLedger ℝ} {h : Hierarchy} {boxes : Boxes ℝ} {container : String}
  {size : ℝ × ℝ} {limit : Nat} {a : Allotment ℝ} {center : Point ℝ}
  (ha : l.allotments.get? container = some a) (hfit : FitsInto size a.available)

theorem mem_exclusionZones_of_child {z : Rect ℝ} (hz : z ∈ childZones h boxes container) :
    z ∈ l.exclusionZones h boxes container :=
  List.mem_append_right _ hz

include ha

theorem mem_exclusionZones_of_occupied {r : OccupiedRegion ℝ} (hr : r ∈ a.occupied) :
    r.bounds ∈ l.exclusionZones h boxes container := by
  simp only [exclusionZones, ha]
  exact List.mem_append_left _ (List.mem_map_of_mem hr)

/-- The position of last resort is a candidate that is clear of the child containers. -/
theorem nearestClear?_mem (hp : l.nearestClear? h boxes container size = some center) :
    center ∈ candidates a.available size l.halfGap [a.available.center.x] [a.available.center.y]
        (childZones h boxes container) ∧
      isClear size l.halfGap (childZones h boxes container) center = true := by
  simp only [nearestClear?, ha, Option.bind_some] at hp
  obtain ⟨⟨d, c⟩, hbest, rfl⟩ := Option.map_eq_some_iff.1 hp
  rcases mem_of_foldl_nearer hbest with ⟨d', hd'⟩ | hm
  · cases hd'
  · exact List.mem_filter.1 hm

/-- There is a position of last resort as soon as some candidate is clear. -/
theorem exists_nearestClear?_of_mem
    (hc : center ∈ candidates a.available size l.halfGap [a.available.center.x]
      [a.available.center.y] (childZones h boxes container))
    (hclear : isClear size l.halfGap (childZones h boxes container) center = true) :
    ∃ center, l.nearestClear? h boxes container size = some center := by
  simp only [nearestClear?, ha, Option.bind_some]
  have hne := List.ne_nil_of_mem (List.mem_filter.2 ⟨hc, hclear⟩)
  obtain ⟨best, hbest⟩ := Option.isSome_iff_exists.1
    (foldl_nearer_isSome a.available.center (.inr hne))
  exact ⟨best.2, by rw [hbest]; rfl⟩

include hfit

/-- **The position of the search** is in the room and clear of the child containers. -/
theorem firstPosition?_spec (hg : 0 ≤ l.halfGap.1 ∧ 0 ≤ l.halfGap.2)
    (hp : l.firstPosition? h boxes container size limit = some center) :
    Settles a.available size (childZones h boxes container) center := by
  simp only [firstPosition?, positionCandidates, ha] at hp
  split at hp
  · cases hp
  · have hclear := List.find?_some hp
    have hs := settles_of_clear hfit hg (List.mem_of_find?_eq_some hp) hclear
    exact ⟨hs.within, fun z hz => hs.clear z (List.mem_append_right _ hz)⟩

/-- **The position of last resort** is in the room and clear of the child containers. -/
theorem nearestClear?_spec (hg : 0 ≤ l.halfGap.1 ∧ 0 ≤ l.halfGap.2)
    (hp : l.nearestClear? h boxes container size = some center) :
    Settles a.available size (childZones h boxes container) center := by
  obtain ⟨hc, hclear⟩ := nearestClear?_mem ha hp
  exact settles_of_clear hfit hg hc hclear

variable (h boxes) in
/-- **Below all child containers there is a position** of last resort. -/
theorem exists_nearestClear? (hg : epsilon ≤ l.halfGap.2)
    (hzones : ∀ z ∈ childZones h boxes container,
      z.bottom + size.2 + 2 * l.halfGap.2 ≤ a.available.bottom) :
    ∃ center, l.nearestClear? h boxes container size = some center := by
  obtain ⟨xs, ys, he, hxs, hys⟩ := candidates_tried hfit l.halfGap [a.available.center.x]
    [a.available.center.y] (childZones h boxes container)
  obtain ⟨center, hc, hclear⟩ := exists_clear_point hfit hxs hys hg hzones
  exact exists_nearestClear?_of_mem ha (he ▸ hc) hclear

end SpaceLedger

end NestedLayout
