import NestedLayout.Proofs.Exact.Rect

/-!
# Segments through a rectangle

`Rect.segmentCrosses` cuts the parameters of a segment down with one half plane after the other, and
stops as soon as nothing is left. In exact arithmetic, for a segment that is long enough on both
axes, what it keeps is where the segment runs through the interior:

* `crossing`: the parameters at which a segment is strictly inside. `FromTo`: a set of parameters is
  the interval between two ends, whether or not it has them.
* `Clip.Keeps.halfPlane`: one half plane; `crossing_kept`: all four.
* `segmentCrosses_iff`: the test passes exactly when the crossing is an interval longer than the
  tolerance, so it does not matter from which end the segment is seen.
-/

set_option autoImplicit false

namespace NestedLayout

open Scalar (epsilon)

/-- The point of a segment at a parameter: its start at zero, its end at one. -/
def Point.along (a b : Point ℝ) (t : ℝ) : Point ℝ :=
  ⟨a.x + t * (b.x - a.x), a.y + t * (b.y - a.y)⟩

theorem Point.along_swap (a b : Point ℝ) (t : ℝ) : b.along a t = a.along b (1 - t) := by
  simp only [along, Point.mk.injEq]
  exact ⟨by ring, by ring⟩

namespace Rect

/-- The point lies in the interior. -/
structure HoldsInside (r : Rect ℝ) (p : Point ℝ) : Prop where
  left : r.left < p.x
  top : r.top < p.y
  right : p.x < r.right
  bottom : p.y < r.bottom

/-- The parameters at which the segment from `a` to `b` is in the interior. -/
def crossing (r : Rect ℝ) (a b : Point ℝ) : Set ℝ :=
  {t | t ∈ Set.Icc 0 1 ∧ r.HoldsInside (a.along b t)}

/-! ## Intervals -/

/-- The set is the interval from `u` to `v`, with or without its ends. -/
structure FromTo (s : Set ℝ) (u v : ℝ) : Prop where
  holds : Set.Ioo u v ⊆ s
  bounded : s ⊆ Set.Icc u v

section
variable {s : Set ℝ} {u v u' v' : ℝ}

/-- A proper interval has one pair of ends. -/
theorem FromTo.ends (h : FromTo s u v) (h' : FromTo s u' v') (huv : u < v) : u' ≤ u ∧ v ≤ v' := by
  have hclosed : Set.Icc u v ⊆ Set.Icc u' v' := by
    rw [← closure_Ioo huv.ne]
    exact closure_minimal (h.holds.trans h'.bounded) isClosed_Icc
  exact (Set.Icc_subset_Icc_iff huv.le).1 hclosed

theorem FromTo.above (h : FromTo s u v) (r : ℝ) : FromTo (s ∩ Set.Ioi r) (max u r) v where
  holds t ht := by
    obtain ⟨hu, hr⟩ := max_lt_iff.1 ht.1
    exact ⟨h.holds ⟨hu, ht.2⟩, hr⟩
  bounded t ht := ⟨max_le (h.bounded ht.1).1 (le_of_lt ht.2), (h.bounded ht.1).2⟩

theorem FromTo.below (h : FromTo s u v) (r : ℝ) : FromTo (s ∩ Set.Iio r) u (min v r) where
  holds t ht := by
    obtain ⟨hv, hr⟩ := lt_min_iff.1 ht.2
    exact ⟨h.holds ⟨ht.1, hv⟩, hr⟩
  bounded t ht := ⟨(h.bounded ht.1).1, le_min (h.bounded ht.1).2 (le_of_lt ht.2)⟩

theorem FromTo.above_eq_empty (h : FromTo s u v) {r : ℝ} (hr : v < r) : s ∩ Set.Ioi r = ∅ :=
  Set.eq_empty_of_forall_notMem fun _ ht => ((h.bounded ht.1).2.trans_lt hr).not_gt ht.2

theorem FromTo.below_eq_empty (h : FromTo s u v) {r : ℝ} (hr : r < u) : s ∩ Set.Iio r = ∅ :=
  Set.eq_empty_of_forall_notMem fun _ ht => (hr.trans_le (h.bounded ht.1).1).not_gt ht.2

/-- The interval seen from the other end of a segment. -/
theorem FromTo.swap (h : FromTo s u v) : FromTo {t | 1 - t ∈ s} (1 - v) (1 - u) where
  holds t ht := h.holds ⟨by linarith [ht.2], by linarith [ht.1]⟩
  bounded t ht := ⟨by linarith [(h.bounded ht).2], by linarith [(h.bounded ht).1]⟩

end

/-! ## Half planes -/

/-- What is left of a parameter range is the set `s`; nothing is left exactly of no parameters. -/
def Clip.Keeps (s : Set ℝ) : Option (Clip ℝ) → Prop
  | none => s = ∅
  | some c => FromTo s c.start c.stop

/-- **A half plane cuts off what lies outside it**, unless the segment runs along its boundary. -/
theorem Clip.halfPlane_keeps {c : Clip ℝ} {s : Set ℝ} (hc : FromTo s c.start c.stop) {p : ℝ}
    (hp : epsilon < |p|) (q : ℝ) : Keeps (s ∩ {t | p * t < q}) (c.halfPlane p q) := by
  unfold Clip.halfPlane
  rw [Scalar.abs_real, if_neg hp.not_ge, Scalar.zero_real]
  by_cases hneg : p < 0
  · -- the segment enters the half plane at `q / p`
    have hset : {t | p * t < q} = Set.Ioi (q / p) := by
      ext t
      rw [Set.mem_ofPred_eq, Set.mem_Ioi, div_lt_iff_of_neg hneg, mul_comm]
    rw [hset, if_pos hneg]
    split
    · rename_i hr
      exact hc.above_eq_empty hr
    · rw [Scalar.max_real]
      exact hc.above _
  · -- the segment leaves it there
    have hpos : 0 < p := (not_lt.1 hneg).lt_of_ne' (abs_pos.1 (Scalar.epsilon_pos.trans hp))
    have hset : {t | p * t < q} = Set.Iio (q / p) := by
      ext t
      rw [Set.mem_ofPred_eq, Set.mem_Iio, lt_div_iff₀ hpos, mul_comm]
    rw [hset, if_neg hneg]
    split
    · rename_i hr
      exact hc.below_eq_empty hr
    · rw [Scalar.min_real]
      exact hc.below _

/-- One more half plane. -/
theorem Clip.Keeps.halfPlane {c : Option (Clip ℝ)} {s : Set ℝ} (hc : Keeps s c) {p : ℝ}
    (hp : epsilon < |p|) (q : ℝ) :
    Keeps (s ∩ {t | p * t < q}) (c.bind fun c => c.halfPlane p q) := by
  cases c with
  | none =>
    rw [show s = ∅ from hc]
    exact Set.empty_inter _
  | some c => exact Clip.halfPlane_keeps hc hp q

/-! ## Segments -/

/-- What the four sides leave of the parameters of a segment. -/
noncomputable def clipped (r : Rect ℝ) (a b : Point ℝ) : Option (Clip ℝ) :=
  let dx := b.x - a.x
  let dy := b.y - a.y
  ((((some (Clip.mk 0 1)).bind fun c => c.halfPlane (-dx) (a.x - r.left)).bind fun c =>
    c.halfPlane dx (r.right - a.x)).bind fun c => c.halfPlane (-dy) (a.y - r.top)).bind fun c =>
      c.halfPlane dy (r.bottom - a.y)

theorem segmentCrosses_eq (r : Rect ℝ) (a b : Point ℝ) :
    r.segmentCrosses a b = (r.clipped a b).any fun c => decide (epsilon < c.stop - c.start) := by
  simp only [segmentCrosses, clipped, Option.bind_eq_bind, Option.bind_assoc, Option.bind_some,
    Scalar.zero_real, Scalar.one_real]
  generalize (Clip.halfPlane (Clip.mk (0 : ℝ) 1) _ _).bind _ = c
  cases c <;> rfl

section
variable (r : Rect ℝ) {a b : Point ℝ}

/-- The interior is where all four half planes meet. -/
theorem crossing_eq (a b : Point ℝ) : r.crossing a b =
    Set.Icc 0 1 ∩ {t | -(b.x - a.x) * t < a.x - r.left} ∩ {t | (b.x - a.x) * t < r.right - a.x} ∩
      {t | -(b.y - a.y) * t < a.y - r.top} ∩ {t | (b.y - a.y) * t < r.bottom - a.y} := by
  ext t
  simp only [Set.mem_inter_iff, Set.mem_ofPred_eq, crossing]
  constructor
  · rintro ⟨ht, hl, ht', hr, hb⟩
    simp only [Point.along] at hl ht' hr hb
    exact ⟨⟨⟨⟨ht, by linarith⟩, by linarith⟩, by linarith⟩, by linarith⟩
  · rintro ⟨⟨⟨⟨ht, hl⟩, hr⟩, ht'⟩, hb⟩
    refine ⟨ht, ?_, ?_, ?_, ?_⟩ <;> simp only [Point.along] <;> linarith

/-- **What the four sides leave is the crossing.** -/
theorem crossing_kept (hx : epsilon < |b.x - a.x|) (hy : epsilon < |b.y - a.y|) :
    Clip.Keeps (r.crossing a b) (r.clipped a b) := by
  have hstart : Clip.Keeps (Set.Icc 0 1) (some (Clip.mk 0 1)) :=
    ⟨Set.Ioo_subset_Icc_self, subset_rfl⟩
  have hkept := (((hstart.halfPlane (p := -(b.x - a.x)) (by rwa [abs_neg]) (a.x - r.left)).halfPlane
    hx (r.right - a.x)).halfPlane (p := -(b.y - a.y)) (by rwa [abs_neg]) (a.y - r.top)).halfPlane
      hy (r.bottom - a.y)
  rw [crossing_eq]
  exact hkept

theorem segmentCrosses_iff_crossing (hx : epsilon < |b.x - a.x|) (hy : epsilon < |b.y - a.y|) :
    r.segmentCrosses a b = true ↔ ∃ u v, epsilon < v - u ∧ FromTo (r.crossing a b) u v := by
  have hkept := r.crossing_kept hx hy
  rw [segmentCrosses_eq]
  cases hc : r.clipped a b with
  | none =>
    rw [hc] at hkept
    refine iff_of_false (by simp) ?_
    rintro ⟨u, v, hlong, hfrom⟩
    -- an interval that long is not empty
    obtain ⟨t, ht⟩ := Set.nonempty_Ioo.2 (sub_pos.1 (Scalar.epsilon_pos.trans hlong))
    have hmem := hfrom.holds ht
    rw [show r.crossing a b = ∅ from hkept] at hmem
    exact hmem
  | some c =>
    rw [hc] at hkept
    rw [Option.any_some, decide_eq_true_iff]
    refine ⟨fun hlong => ⟨c.start, c.stop, hlong, hkept⟩, ?_⟩
    rintro ⟨u, v, hlong, hfrom⟩
    obtain ⟨hstart, hstop⟩ := hfrom.ends hkept (sub_pos.1 (Scalar.epsilon_pos.trans hlong))
    linarith

theorem crossing_swap (a b : Point ℝ) : r.crossing b a = {t | 1 - t ∈ r.crossing a b} := by
  ext t
  simp only [crossing, Set.mem_ofPred_eq, Set.mem_Icc, Point.along_swap a b]
  refine and_congr_left fun _ => ⟨?_, ?_⟩
  · rintro ⟨h₀, h₁⟩
    constructor <;> linarith
  · rintro ⟨h₀, h₁⟩
    constructor <;> linarith

/-- **The test decides the crossing.** For a segment that is longer than the tolerance on both axes,
it passes exactly when the parameters at which the segment is strictly inside are an interval longer
than the tolerance. Seen from its other end the segment gets the same answer. -/
theorem segmentCrosses_iff (hx : epsilon < |b.x - a.x|) (hy : epsilon < |b.y - a.y|) :
    (r.segmentCrosses a b = true ↔ ∃ u v, epsilon < v - u ∧ FromTo (r.crossing a b) u v) ∧
      r.segmentCrosses b a = r.segmentCrosses a b := by
  have hiff := r.segmentCrosses_iff_crossing hx hy
  refine ⟨hiff, ?_⟩
  rw [Bool.eq_iff_iff, hiff, r.segmentCrosses_iff_crossing (abs_sub_comm a.x b.x ▸ hx)
    (abs_sub_comm a.y b.y ▸ hy)]
  refine ⟨?_, ?_⟩
  · rintro ⟨u, v, hlong, hfrom⟩
    refine ⟨1 - v, 1 - u, by linarith, ?_⟩
    rw [r.crossing_swap b a]
    exact hfrom.swap
  · rintro ⟨u, v, hlong, hfrom⟩
    refine ⟨1 - v, 1 - u, by linarith, ?_⟩
    rw [r.crossing_swap a b]
    exact hfrom.swap

end

/-- A segment that climbs through a square from its left side to its right side. -/
noncomputable def climbStart : Point ℝ := ⟨-2, 0⟩

noncomputable def climbEnd : Point ℝ := ⟨4, 2⟩

theorem climb_crosses :
    epsilon < |climbEnd.x - climbStart.x| ∧ epsilon < |climbEnd.y - climbStart.y| ∧
    (⟨0, 0, 2, 2⟩ : Rect ℝ).segmentCrosses climbStart climbEnd = true ∧
    (⟨0, 0, 2, 2⟩ : Rect ℝ).segmentCrosses climbEnd climbStart = true := by
  have hx : epsilon < |climbEnd.x - climbStart.x| := by norm_num [epsilon, climbStart, climbEnd]
  have hy : epsilon < |climbEnd.y - climbStart.y| := by norm_num [epsilon, climbStart, climbEnd]
  obtain ⟨hiff, hswap⟩ := segmentCrosses_iff ⟨0, 0, 2, 2⟩ hx hy
  -- it is inside between the first and the last third of its way
  have hcross : (⟨0, 0, 2, 2⟩ : Rect ℝ).segmentCrosses climbStart climbEnd = true := by
    refine hiff.2 ⟨1 / 3, 2 / 3, by norm_num [epsilon], fun t ht => ?_, fun t ht => ?_⟩
    · obtain ⟨h₀, h₁⟩ := ht
      refine ⟨⟨by linarith, by linarith⟩, ?_, ?_, ?_, ?_⟩ <;>
        simp only [Point.along, climbStart, climbEnd] <;> linarith
    · obtain ⟨-, hl, -, hr, -⟩ := ht
      simp only [Point.along, climbStart, climbEnd] at hl hr
      constructor <;> linarith
  exact ⟨hx, hy, hcross, hswap.trans hcross⟩

end Rect

end NestedLayout
