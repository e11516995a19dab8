import NestedLayout.Proofs.Space.Search

/-!
# The first position

In exact arithmetic the position that the search finds is the highest clear one, and the leftmost of
its row (`exists_firstPoint`). Two kinds of rooms surely have one.

* `firstPosition?_inFirstRow`: where the first row has room to the right of all zones, the position
  is on the first row, and no further right than the first slot past the zones.
* `firstPosition?_below`: where there is room below all zones, there is a position.
-/

set_option autoImplicit false

namespace NestedLayout

open Scalar (epsilon)

/-! ## Rows before columns -/

/-- The order in which the points of a grid come. -/
def Point.Before (p q : Point ℝ) : Prop := p.y < q.y ∨ p.y = q.y ∧ p.x < q.x

theorem gridPoints_pairwise {xs ys : List ℝ} (hx : xs.Pairwise (· < ·))
    (hy : ys.Pairwise (· < ·)) : (gridPoints xs ys).Pairwise Point.Before := by
  refine List.pairwise_flatMap.2 ⟨fun y _ => ?_, hy.imp fun {y y'} hlt p hp q hq => ?_⟩
  · exact List.pairwise_map.2 (hx.imp fun hlt => .inr ⟨rfl, hlt⟩)
  · obtain ⟨x, -, rfl⟩ := List.mem_map.1 hp
    obtain ⟨x', -, rfl⟩ := List.mem_map.1 hq
    exact .inl hlt

/-- In a list in order, what a search finds comes before everything else that passes. -/
theorem eq_or_rel_of_find? {β : Type} {R : β → β → Prop} {test : β → Bool} {l : List β} {a b : β}
    (hl : l.Pairwise R) (ha : l.find? test = some a) (hb : b ∈ l) (ht : test b = true) :
    a = b ∨ R a b := by
  obtain ⟨-, before, after, rfl, hfail⟩ := List.find?_eq_some_iff_append.1 ha
  rcases List.mem_append.1 hb with hb | hb
  · exact absurd ht (by simpa using hfail b hb)
  · rcases List.mem_cons.1 hb with rfl | hb
    · exact .inl rfl
    · have hafter := (List.pairwise_append.1 hl).2.1
      exact .inr ((List.pairwise_cons.1 hafter).1 b hb)

/-- The first point of a grid, row by row, that passes a test. -/
structure FirstPoint (xs ys : List ℝ) (test : Point ℝ → Bool) (p : Point ℝ) : Prop where
  column : p.x ∈ xs
  row : p.y ∈ ys
  passes : test p = true
  row_le : ∀ {x y}, x ∈ xs → y ∈ ys → test ⟨x, y⟩ = true → p.y ≤ y
  column_le : ∀ {x}, x ∈ xs → test ⟨x, p.y⟩ = true → p.x ≤ x

/-- **A search in a grid finds the highest point** that passes, and the leftmost of its row. -/
theorem exists_firstPoint {xs ys : List ℝ} (hx : xs.Pairwise (· < ·)) (hy : ys.Pairwise (· < ·))
    {test : Point ℝ → Bool} {q : Point ℝ} (hq : q ∈ gridPoints xs ys) (ht : test q = true) :
    ∃ p, (gridPoints xs ys).find? test = some p ∧ FirstPoint xs ys test p := by
  obtain ⟨p, hp⟩ := Option.isSome_iff_exists.1 (List.find?_isSome.2 ⟨q, hq, ht⟩)
  have hleast : ∀ {x y}, x ∈ xs → y ∈ ys → test ⟨x, y⟩ = true →
      p = ⟨x, y⟩ ∨ p.Before ⟨x, y⟩ := fun hx' hy' ht' =>
    eq_or_rel_of_find? (gridPoints_pairwise hx hy) hp (mem_gridPoints.2 ⟨hx', hy'⟩) ht'
  obtain ⟨hcolumn, hrow⟩ := mem_gridPoints.1 (List.mem_of_find?_eq_some hp)
  refine ⟨p, hp, hcolumn, hrow, List.find?_some hp, fun hx' hy' ht' => ?_, fun hx' ht' => ?_⟩
  · rcases hleast hx' hy' ht' with rfl | hlt | ⟨heq, -⟩
    · exact le_rfl
    · exact hlt.le
    · exact heq.le
  · rcases hleast hx' hrow ht' with he | hlt | ⟨-, hlt⟩
    · exact (congrArg Point.x he).le
    · exact absurd hlt (lt_irrefl _)
    · exact hlt.le

/-! ## The first slot past all zones -/

theorem FlushPlace.mono {span : Span ℝ} {size gap : ℝ} {zones zones' : List (Span ℝ)} {c : ℝ}
    (hsub : zones ⊆ zones') (h : FlushPlace span size gap zones c) :
    FlushPlace span size gap zones' c := by
  cases h with
  | low => exact .low
  | high => exact .high
  | after hz => exact .after (hsub hz)
  | before hz => exact .before (hsub hz)

/-- Up to where the zones and their gaps reach, there is a flush place past all of them. -/
theorem exists_flushPlace_past {span : Span ℝ} {gap reach : ℝ} {zones : List (Span ℝ)} (size : ℝ)
    (hlow : span.low ≤ reach) (hreach : ∀ z ∈ zones, z.high + gap ≤ reach) :
    ∃ c, FlushPlace span size gap zones c ∧ span.low + size / 2 ≤ c ∧ c ≤ reach + size / 2 ∧
      ∀ z ∈ zones, z.high + gap + size / 2 ≤ c := by
  induction zones with
  | nil => exact ⟨_, .low, le_rfl, by linarith, by simp⟩
  | cons z rest ih =>
    obtain ⟨c, hc, hmin, hmax, hpast⟩ := ih fun z hz => hreach z (.tail _ hz)
    have hz := hreach z (.head _)
    rcases le_total (z.high + gap + size / 2) c with h | h
    · refine ⟨c, hc.mono (List.subset_cons_self _ _), hmin, hmax, fun z' hz' => ?_⟩
      rcases List.mem_cons.1 hz' with rfl | hz'
      · exact h
      · exact hpast z' hz'
    · refine ⟨_, .after (.head _), hmin.trans h, by linarith, fun z' hz' => ?_⟩
      rcases List.mem_cons.1 hz' with rfl | hz'
      · exact le_rfl
      · exact (hpast z' hz').trans h

/-- One of the tried places is past all zones by half a gap. -/
theorem Tried.exists_past {span : Span ℝ} {size gap : ℝ} {zones : List (Span ℝ)}
    {places : List ℝ} (ht : Tried span size gap zones places) (hg : epsilon ≤ gap / 2) {reach : ℝ}
    (hlow : span.low ≤ reach) (hroom : reach + size ≤ span.high)
    (hreach : ∀ z ∈ zones, z.high + gap ≤ reach) :
    ∃ c ∈ places, c ≤ reach + size / 2 ∧ ∀ z ∈ zones, z.high + gap / 2 + size / 2 ≤ c := by
  obtain ⟨c, hc, hmin, hmax, hpast⟩ := exists_flushPlace_past size hlow hreach
  obtain ⟨c', hc', hnear, hle⟩ := ht.flush hc hmin (by linarith)
  exact ⟨c', hc', hle.trans hmax, fun z hz => by linarith [hpast z hz]⟩

/-! ## Positions in a container -/

namespace SpaceLedger

theorem firstPosition?_isClear {α : Type} [Scalar α] {l : SpaceLedger α} {h : Hierarchy}
    {boxes : Boxes α} {container : String} {size : α × α} {limit : Nat} {p : Point α}
    (hp : l.firstPosition? h boxes container size limit = some p) :
    isClear size l.halfGap (l.exclusionZones h boxes container) p = true := by
  cases ha : l.allotments.get? container with
  | none => simp [firstPosition?, positionCandidates, ha] at hp
  | some a =>
    simp only [firstPosition?, positionCandidates, ha] at hp
    split at hp
    · cases hp
    · exact List.find?_some hp

variable {l : SpaceLedger ℝ} {h : Hierarchy} {boxes : Boxes ℝ} {container : String}
  {size : ℝ × ℝ} {limit : Nat} {a : Allotment ℝ}
  (ha : l.allotments.get? container = some a)
include ha

/-- **The position that is found keeps a footprint in the room**, up to the tolerance, also one that
is larger than the room by no more than that. -/
theorem firstPosition?_contains (hw : 0 ≤ size.1) (hh : 0 ≤ size.2) {p : Point ℝ}
    (hp : l.firstPosition? h boxes container size limit = some p) :
    a.available.contains (Rect.fromCenter p size.1 size.2) = true := by
  simp only [firstPosition?, positionCandidates, ha] at hp
  split at hp
  · cases hp
  · rename_i hsmall
    rw [Bool.or_eq_true, not_or, Bool.not_eq_true] at hsmall
    exact candidates_contained hsmall.1 hw hh (List.mem_of_find?_eq_some hp)

variable (hfit : FitsInto size a.available) (hlimit : 0 < limit)
include hfit hlimit

variable (h boxes) in
/-- The search goes through a grid of what is tried across and up and down. -/
theorem firstPosition?_eq :
    ∃ xs ys, l.firstPosition? h boxes container size limit =
        (gridPoints xs ys).find? (isClear size l.halfGap (l.exclusionZones h boxes container)) ∧
      Tried ⟨a.available.left, a.available.right⟩ size.1 (2 * l.halfGap.1)
        ((l.exclusionZones h boxes container).map fun z => ⟨z.left, z.right⟩) xs ∧
      Tried ⟨a.available.top, a.available.bottom⟩ size.2 (2 * l.halfGap.2)
        ((l.exclusionZones h boxes container).map fun z => ⟨z.top, z.bottom⟩) ys := by
  have hsmall : ¬ (tooLarge a.available size || decide (limit = 0)) = true := by
    simp [hfit.tooLarge_eq_false, hlimit.ne']
  simp only [firstPosition?, positionCandidates, ha, if_neg hsmall]
  obtain ⟨xs, ys, he, hxs, hys⟩ := candidates_tried hfit l.halfGap _ _
    (l.exclusionZones h boxes container)
  exact ⟨xs, ys, by rw [he], hxs, hys⟩

/-- Without a clear point in the interior there is no position. -/
theorem firstPosition?_eq_none
    (hno : ∀ p, (Rect.fromCenter p size.1 size.2).Within a.available →
      isClear size l.halfGap (l.exclusionZones h boxes container) p = false) :
    l.firstPosition? h boxes container size limit = none := by
  obtain ⟨xs, ys, he, hxs, hys⟩ := firstPosition?_eq h boxes ha hfit hlimit
  rw [he, List.find?_eq_none]
  intro p hp
  rw [hno p (hxs.within_of_mem hfit hys hp)]
  exact Bool.false_ne_true

/-- **With room on the first row the position is there**, and no further right than need be. -/
theorem firstPosition?_inFirstRow (hg : epsilon ≤ l.halfGap.1) {reach : ℝ}
    (hleft : a.available.left ≤ reach) (hroom : reach + size.1 ≤ a.available.right)
    (hreach : ∀ z ∈ l.exclusionZones h boxes container, z.right + 2 * l.halfGap.1 ≤ reach) :
    ∃ p, l.firstPosition? h boxes container size limit = some p ∧
      p.y = a.available.top + size.2 / 2 ∧ p.x ≤ reach + size.1 / 2 := by
  obtain ⟨xs, ys, he, hxs, hys⟩ := firstPosition?_eq h boxes ha hfit hlimit
  obtain ⟨x, hx, hle, hpast⟩ := hxs.exists_past (by linarith) hleft hroom (by simpa using hreach)
  have hlow := hys.low_mem hfit.height.2
  have hclear : isClear size l.halfGap (l.exclusionZones h boxes container)
      ⟨x, a.available.top + size.2 / 2⟩ = true := by
    refine (isClear_iff_beside hfit).2 fun z hz => .inl ?_
    have := hpast ⟨z.left, z.right⟩ (List.mem_map_of_mem hz)
    simp only at this ⊢
    linarith
  obtain ⟨p, hp, hfirst⟩ := exists_firstPoint hxs.increasing hys.increasing
    (mem_gridPoints.2 ⟨hx, hlow⟩) hclear
  have hy : p.y = a.available.top + size.2 / 2 :=
    (hfirst.row_le hx hlow hclear).antisymm (hys.within _ hfirst.row).1
  exact ⟨p, he.trans hp, hy, (hfirst.column_le hx (hy ▸ hclear)).trans hle⟩

/-- **With room below all zones there is a position.** -/
theorem firstPosition?_below (hg : epsilon ≤ l.halfGap.2)
    (hzones : ∀ z ∈ l.exclusionZones h boxes container,
      z.bottom + size.2 + 2 * l.halfGap.2 ≤ a.available.bottom) :
    ∃ p, l.firstPosition? h boxes container size limit = some p := by
  obtain ⟨xs, ys, he, hxs, hys⟩ := firstPosition?_eq h boxes ha hfit hlimit
  obtain ⟨center, hc, hclear⟩ := exists_clear_point hfit hxs hys hg hzones
  obtain ⟨p, hp, -⟩ := exists_firstPoint hxs.increasing hys.increasing hc hclear
  exact ⟨p, he.trans hp⟩

end SpaceLedger

end NestedLayout
