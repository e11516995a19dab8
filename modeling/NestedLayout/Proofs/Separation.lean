import NestedLayout.Proofs.Exact.Rect
import NestedLayout.Separation

/-!
# Pushing two boxes apart

Two boxes that overlap are pushed along the line between their centers until what they have in
common on one of the axes is used up, in exact arithmetic. On that axis they are apart then, unless
one of them reaches past the other on both sides: what they have in common is the length of the
shorter one in this case, and the way out is longer.

* `direction_heads`: the push leads from one center towards the other.
* `overlap_le_push`: it undoes the overlap on one of the axes.
* `push_apart_iff`: the boxes are apart when on one of the axes the push is as long as the way out.
* `pass_pair`: a pass over two items that overlap.
* `plate_not_apart`: a pass that leaves two boxes overlapping.
-/

set_option autoImplicit false

namespace NestedLayout

open Scalar (epsilon)

theorem Rect.not_degenerate_iff {r : Rect ℝ} :
    r.isDegenerate = false ↔ epsilon < r.width ∧ epsilon < r.height := by
  simp [Rect.isDegenerate]

theorem Rect.overlapExtent_eq (r s : Rect ℝ) :
    r.overlapExtent s = (min r.right s.right - max r.left s.left,
      min r.bottom s.bottom - max r.top s.top) := by
  simp only [Rect.overlapExtent, Scalar.min_real, Scalar.max_real]

/-- Two rectangles that intersect have something in common on both axes. -/
theorem Rect.overlapExtent_pos {r s : Rect ℝ} (hr : r.isDegenerate = false)
    (hs : s.isDegenerate = false) (hmeet : r.intersects s = true) :
    0 < (r.overlapExtent s).1 ∧ 0 < (r.overlapExtent s).2 := by
  have hε := Scalar.epsilon_pos
  obtain ⟨hrw, hrh⟩ := not_degenerate_iff.1 hr
  obtain ⟨hsw, hsh⟩ := not_degenerate_iff.1 hs
  obtain ⟨h₁, h₂, h₃, h₄⟩ := intersects_iff.1 hmeet
  rw [width_eq] at hrw hsw
  rw [height_eq] at hrh hsh
  rw [overlapExtent_eq, sub_pos, sub_pos, max_lt_iff, lt_min_iff, lt_min_iff, max_lt_iff,
    lt_min_iff, lt_min_iff]
  refine ⟨⟨⟨?_, h₁⟩, h₂, ?_⟩, ⟨?_, h₃⟩, h₄, ?_⟩ <;> linarith

namespace Separation

variable {a b : Item ℝ} {r s : Rect ℝ} {d o : ℝ × ℝ} {lo hi lo' hi' : ℝ}

/-! ## Directions -/

/-- A direction of length one that leads from one point towards another one, which lies further on
by `across` and `down`. Points that coincide within the tolerance have the direction east. -/
structure Heads (d : ℝ × ℝ) (across down : ℝ) : Prop where
  unit : d.1 ^ 2 + d.2 ^ 2 = 1
  towards : (0 ≤ d.1 * across ∧ 0 ≤ d.2 * down) ∨ (d = (1, 0) ∧ |across| ≤ epsilon)

theorem direction_heads (p q : Point ℝ) : Heads (direction p q) (q.x - p.x) (q.y - p.y) := by
  have hε := Scalar.epsilon_pos
  generalize hx : q.x - p.x = x
  generalize hy : q.y - p.y = y
  have hdirection : direction p q = if √(x * x + y * y) ≤ epsilon then (1.0, 0.0)
      else (x / √(x * x + y * y), y / √(x * x + y * y)) := by
    rw [direction, hx, hy]
    rfl
  rw [hdirection]
  split
  · rename_i hnear
    have hlength : |x| ≤ √(x * x + y * y) := Real.abs_le_sqrt (by nlinarith)
    rw [Scalar.one_real, Scalar.zero_real]
    exact ⟨by norm_num, .inr ⟨rfl, hlength.trans hnear⟩⟩
  · rename_i hfar
    have hpos : 0 < √(x * x + y * y) := hε.trans (not_le.1 hfar)
    have hsquare : √(x * x + y * y) ^ 2 = x * x + y * y := Real.sq_sqrt (by nlinarith)
    refine ⟨?_, .inl ⟨?_, ?_⟩⟩
    · rw [div_pow, div_pow, ← add_div, hsquare, div_eq_one_iff_eq (by nlinarith)]
      ring
    · rw [div_mul_eq_mul_div]
      exact div_nonneg (mul_self_nonneg x) hpos.le
    · rw [div_mul_eq_mul_div]
      exact div_nonneg (mul_self_nonneg y) hpos.le

/-- What it takes to undo an overlap in a direction is what it takes on one of the axes. -/
theorem need_spec (hunit : d.1 ^ 2 + d.2 ^ 2 = 1) :
    (epsilon < |d.1| ∧ need d o = o.1 / |d.1|) ∨ (epsilon < |d.2| ∧ need d o = o.2 / |d.2|) := by
  have hε : (epsilon : ℝ) = 1e-5 := rfl
  unfold need needAlong
  simp only [Scalar.abs_real]
  by_cases h₁ : (epsilon : ℝ) < |d.1| <;> by_cases h₂ : (epsilon : ℝ) < |d.2|
  · simp only [h₁, h₂, if_true, Scalar.min_real, true_and]
    exact min_choice _ _
  · simp [h₁, h₂]
  · simp [h₁, h₂]
  · -- a direction of length one advances on one of the axes
    rw [not_lt, hε] at h₁ h₂
    rw [← sq_abs d.1, ← sq_abs d.2] at hunit
    nlinarith [abs_nonneg d.1, abs_nonneg d.2]

theorem need_nonneg (hunit : d.1 ^ 2 + d.2 ^ 2 = 1) (h₁ : 0 ≤ o.1) (h₂ : 0 ≤ o.2) :
    0 ≤ need d o := by
  rcases need_spec (o := o) hunit with ⟨-, h⟩ | ⟨-, h⟩
  · rw [h]
    exact div_nonneg h₁ (abs_nonneg _)
  · rw [h]
    exact div_nonneg h₂ (abs_nonneg _)

/-! ## Pushes -/

/-- An item with its box in another place. -/
noncomputable def Item.shift (a : Item ℝ) (dx dy : ℝ) : Item ℝ :=
  { a with bounds := a.bounds.translate dx dy }

/-- How far each of two boxes is pushed. -/
noncomputable def pushLength (r s : Rect ℝ) : ℝ :=
  need (direction r.center s.center) (r.overlapExtent s) / 2 + epsilon

/-- How the second one of two boxes is pushed; the first one goes as far the other way. -/
noncomputable def pushBy (r s : Rect ℝ) : ℝ × ℝ :=
  ((direction r.center s.center).1 * pushLength r s,
    (direction r.center s.center).2 * pushLength r s)

/-- A pass over two items that overlap is a push. -/
theorem pass_of_meet (hmeet : a.bounds.intersects b.bounds = true) (hown : a.nestedWith b = false) :
    pass [a, b] = ([a.shift (-(pushBy a.bounds b.bounds).1) (-(pushBy a.bounds b.bounds).2),
      b.shift (pushBy a.bounds b.bounds).1 (pushBy a.bounds b.bounds).2], 1) := by
  have hpush : push? a b = some (a.shift (-(pushBy a.bounds b.bounds).1)
      (-(pushBy a.bounds b.bounds).2), b.shift (pushBy a.bounds b.bounds).1
      (pushBy a.bounds b.bounds).2) := by
    simp only [push?, hmeet, hown, Scalar.two_real, neg_mul]
    rfl
  simp [pass, sweep, hpush]

theorem sweep_of_apart {rest : List (Item ℝ)}
    (h : ∀ b ∈ rest, a.bounds.intersects b.bounds = false) : sweep a rest = ⟨a, rest, 0⟩ := by
  induction rest with
  | nil => rfl
  | cons b rest ih =>
    obtain ⟨hb, hrest⟩ := List.forall_mem_cons.1 h
    have hnone : push? a b = none := by simp [push?, hb]
    simp only [sweep, hnone, ih hrest]

/-- **A pass over items that are apart** pushes none of them. -/
theorem pass_of_apart {items : List (Item ℝ)}
    (h : items.Pairwise fun a b => a.bounds.intersects b.bounds = false) :
    pass items = (items, 0) := by
  induction h with
  | nil => simp [pass]
  | cons ha _ ih => simp [pass, sweep_of_apart ha, ih]

/-- **A push undoes the overlap** on one of the axes. -/
theorem overlap_le_push (r s : Rect ℝ) : (r.overlapExtent s).1 ≤ 2 * |(pushBy r s).1| ∨
    (r.overlapExtent s).2 ≤ 2 * |(pushBy r s).2| := by
  have hε := Scalar.epsilon_pos
  -- along an axis on which the need is that of the direction
  have haxis : ∀ {d o : ℝ}, epsilon < |d| →
      need (direction r.center s.center) (r.overlapExtent s) = o / |d| →
      o ≤ 2 * |d * pushLength r s| := by
    intro d o hd hneed
    have hpos : 0 < |d| := hε.trans hd
    calc o = |d| * (o / |d|) := (mul_div_cancel₀ o hpos.ne').symm
      _ ≤ 2 * (|d| * pushLength r s) := by
        rw [pushLength, hneed]
        nlinarith
      _ ≤ 2 * |d * pushLength r s| := by
        rw [abs_mul]
        nlinarith [le_abs_self (pushLength r s)]
  exact (need_spec (direction_heads r.center s.center).unit).imp (fun h => haxis h.1 h.2)
    fun h => haxis h.1 h.2

/-- Two boxes are pushed some way. -/
theorem pushLength_pos (ho : 0 ≤ (r.overlapExtent s).1 ∧ 0 ≤ (r.overlapExtent s).2) :
    0 < pushLength r s := by
  have := need_nonneg (direction_heads r.center s.center).unit ho.1 ho.2
  have := Scalar.epsilon_pos
  unfold pushLength
  linarith

/-! ## Ways out -/

/-- How far the span from `lo'` to `hi'` has to go to leave the one from `lo` to `hi`, upwards or
downwards according to the sign of `v`. -/
noncomputable def wayOut (v lo hi lo' hi' : ℝ) : ℝ := if 0 ≤ v then hi - lo' else hi' - lo

/-- Neither of two spans reaches past the other on both sides. -/
def Staggered (lo hi lo' hi' : ℝ) : Prop := lo ≤ lo' ∧ hi ≤ hi' ∨ lo' ≤ lo ∧ hi' ≤ hi

/-- Two spans that meet still do when they go by `v` in opposite directions, if together that is
less than the way out. -/
theorem meet_after_iff {v : ℝ} (h₁ : lo < hi') (h₂ : lo' < hi) :
    lo + -v < hi' + v ∧ lo' + v < hi + -v ↔ 2 * |v| < wayOut v lo hi lo' hi' := by
  unfold wayOut
  split
  · rename_i hv
    rw [abs_of_nonneg hv]
    constructor
    · rintro ⟨-, h⟩
      linarith
    · intro h
      constructor <;> linarith
  · rename_i hv
    rw [abs_of_neg (not_le.1 hv)]
    constructor
    · rintro ⟨h, -⟩
      linarith
    · intro h
      constructor <;> linarith

/-- **Two boxes are apart after a push** exactly when on one of the axes it is as long as the way
out. -/
theorem push_apart_iff (hmeet : r.intersects s = true) (v : ℝ × ℝ) :
    (r.translate (-v.1) (-v.2)).intersects (s.translate v.1 v.2) = false ↔
      wayOut v.1 r.left r.right s.left s.right ≤ 2 * |v.1| ∨
      wayOut v.2 r.top r.bottom s.top s.bottom ≤ 2 * |v.2| := by
  obtain ⟨h₁, h₂, h₃, h₄⟩ := Rect.intersects_iff.1 hmeet
  have hiff : (r.translate (-v.1) (-v.2)).intersects (s.translate v.1 v.2) = true ↔
      2 * |v.1| < wayOut v.1 r.left r.right s.left s.right ∧
      2 * |v.2| < wayOut v.2 r.top r.bottom s.top s.bottom := by
    rw [← meet_after_iff h₁ h₂, ← meet_after_iff h₃ h₄, Rect.intersects_iff, and_assoc]
    rfl
  rw [← Bool.not_eq_true, hiff, not_and_or, not_lt, not_lt]

/-- Staggered spans have no longer way out than what they have in common, in the direction of their
centers. In the other direction it is longer by twice the distance of these. -/
theorem wayOut_le_overlap {v tol : ℝ} (h : Staggered lo hi lo' hi') (htol : 0 ≤ tol)
    (hup : 0 ≤ v → -tol ≤ (lo' + hi') / 2 - (lo + hi) / 2)
    (hdown : v < 0 → (lo' + hi') / 2 - (lo + hi) / 2 ≤ tol) :
    wayOut v lo hi lo' hi' ≤ min hi hi' - max lo lo' + 2 * tol := by
  unfold wayOut
  rcases h with ⟨hlo, hhi⟩ | ⟨hlo, hhi⟩
  · rw [min_eq_left hhi, max_eq_right hlo]
    split
    · linarith
    · rename_i hv
      linarith [hdown (not_le.1 hv)]
  · rw [min_eq_right hhi, max_eq_left hlo]
    split
    · rename_i hv
      linarith [hup hv]
    · linarith

/-- A push towards the center of the other span that undoes the overlap is as long as the way out,
when the spans are staggered. -/
theorem wayOut_le_push {v : ℝ} (h : Staggered lo hi lo' hi')
    (htowards : 0 ≤ v * ((lo' + hi') / 2 - (lo + hi) / 2)) (hpos : 0 < min hi hi' - max lo lo')
    (hundone : min hi hi' - max lo lo' ≤ 2 * |v|) : wayOut v lo hi lo' hi' ≤ 2 * |v| := by
  have hv : v ≠ 0 := fun hzero => by
    rw [hzero, abs_zero] at hundone
    linarith
  refine le_trans ?_ hundone
  rw [← add_zero (min hi hi' - max lo lo'), ← mul_zero 2]
  refine wayOut_le_overlap h le_rfl (fun h0 => ?_) fun h0 => ?_
  · rw [neg_zero]
    exact nonneg_of_mul_nonneg_right htowards (lt_of_le_of_ne h0 hv.symm)
  · exact nonpos_of_mul_nonneg_right htowards h0

/-- The push is as long as the way out on an axis on which it undoes the overlap, when the boxes are
staggered there. -/
theorem wayOut_le_pushBy (hr : r.isDegenerate = false) (hs : s.isDegenerate = false)
    (hmeet : r.intersects s = true) :
    (Staggered r.left r.right s.left s.right → (r.overlapExtent s).1 ≤ 2 * |(pushBy r s).1| →
      wayOut (pushBy r s).1 r.left r.right s.left s.right ≤ 2 * |(pushBy r s).1|) ∧
    (Staggered r.top r.bottom s.top s.bottom → (r.overlapExtent s).2 ≤ 2 * |(pushBy r s).2| →
      wayOut (pushBy r s).2 r.top r.bottom s.top s.bottom ≤ 2 * |(pushBy r s).2|) := by
  have hε := Scalar.epsilon_pos
  obtain ⟨ho₁, ho₂⟩ := Rect.overlapExtent_pos hr hs hmeet
  have hlength := pushLength_pos ⟨ho₁.le, ho₂.le⟩
  obtain ⟨hunit, htowards⟩ := direction_heads r.center s.center
  simp only [Rect.center_x, Rect.center_y] at htowards
  have hneed := need_spec (o := r.overlapExtent s) hunit
  unfold pushBy
  generalize hd : direction r.center s.center = d at hneed htowards
  rcases htowards with ⟨hx, hy⟩ | ⟨rfl, hx⟩
  · rw [Rect.overlapExtent_eq] at ho₁ ho₂ ⊢
    refine ⟨fun h => wayOut_le_push h ?_ ho₁, fun h => wayOut_le_push h ?_ ho₂⟩
    · rw [mul_right_comm]
      exact mul_nonneg hx hlength.le
    · rw [mul_right_comm]
      exact mul_nonneg hy hlength.le
  · -- centers that coincide: all of the push is along the first axis
    have hall : 2 * pushLength r s = (r.overlapExtent s).1 + 2 * epsilon := by
      rcases hneed with ⟨-, hneed⟩ | ⟨hfar, -⟩
      · rw [pushLength, hd, hneed, abs_one, div_one]
        ring
      · rw [abs_zero] at hfar
        exact absurd hfar (not_lt.2 hε.le)
    refine ⟨fun h _ => ?_, fun _ hundone => ?_⟩
    · simp only [one_mul, abs_of_pos hlength, hall]
      rw [Rect.overlapExtent_eq]
      obtain ⟨hlow, hhigh⟩ := abs_le.1 hx
      exact wayOut_le_overlap h hε.le (fun _ => hlow) fun _ => hhigh
    · simp only [zero_mul, abs_zero, mul_zero] at hundone
      exact absurd ho₂ (not_lt.2 hundone)

/-- **A pass over two items that overlap** pushes them once, in opposite directions and without a
change of their sizes. They are apart after that exactly when the push is as long as the way out on
one of the axes. It always undoes the overlap on one of them, and that is enough when there neither
box reaches past the other on both sides. -/
theorem pass_pair (ha : a.bounds.isDegenerate = false) (hb : b.bounds.isDegenerate = false)
    (hmeet : a.bounds.intersects b.bounds = true) (hown : a.nestedWith b = false) :
    let v := pushBy a.bounds b.bounds
    let a' := a.shift (-v.1) (-v.2)
    let b' := b.shift v.1 v.2
    let apart := a'.bounds.intersects b'.bounds = false
    pass [a, b] = ([a', b'], 1) ∧
    a'.bounds.SameSize a.bounds ∧ b'.bounds.SameSize b.bounds ∧
    (apart ↔ wayOut v.1 a.bounds.left a.bounds.right b.bounds.left b.bounds.right ≤ 2 * |v.1| ∨
      wayOut v.2 a.bounds.top a.bounds.bottom b.bounds.top b.bounds.bottom ≤ 2 * |v.2|) ∧
    ((a.bounds.overlapExtent b.bounds).1 ≤ 2 * |v.1| ∨
      (a.bounds.overlapExtent b.bounds).2 ≤ 2 * |v.2|) ∧
    ((a.bounds.overlapExtent b.bounds).1 ≤ 2 * |v.1| →
      Staggered a.bounds.left a.bounds.right b.bounds.left b.bounds.right → apart) ∧
    ((a.bounds.overlapExtent b.bounds).2 ≤ 2 * |v.2| →
      Staggered a.bounds.top a.bounds.bottom b.bounds.top b.bounds.bottom → apart) := by
  intro v a' b' apart
  have hiff := push_apart_iff hmeet v
  obtain ⟨hacross, hdown⟩ := wayOut_le_pushBy ha hb hmeet
  exact ⟨pass_of_meet hmeet hown, Rect.translate_sameSize _ _ _, Rect.translate_sameSize _ _ _,
    hiff, overlap_le_push _ _, fun hundone h => hiff.2 (.inl (hacross h hundone)),
    fun hundone h => hiff.2 (.inr (hdown h hundone))⟩

/-! ## Two pushes -/

/-- An item with a box, nested in no other one. -/
def item (id : String) (box : Rect ℝ) : Item ℝ := ⟨id, none, box⟩

/-- Two blocks of one size, one of which reaches a little over a corner of the other, are apart
after a pass. -/
theorem blocks_apart :
    let a := item "a" ⟨0, 0, 2, 2⟩
    let b := item "b" ⟨1, 1.9, 3, 3.9⟩
    a.bounds.isDegenerate = false ∧ b.bounds.isDegenerate = false ∧
    a.bounds.intersects b.bounds = true ∧ a.nestedWith b = false ∧
    ∃ a' b', pass [a, b] = ([a', b'], 1) ∧ a'.bounds.SameSize a.bounds ∧
      b'.bounds.SameSize b.bounds ∧ a'.bounds.intersects b'.bounds = false := by
  intro a b
  have hε : (epsilon : ℝ) = 1e-5 := rfl
  have ha : a.bounds.isDegenerate = false := by
    rw [Rect.not_degenerate_iff, hε]
    norm_num [a, item, Rect.width, Rect.height]
  have hb : b.bounds.isDegenerate = false := by
    rw [Rect.not_degenerate_iff, hε]
    norm_num [b, item, Rect.width, Rect.height]
  have hmeet : a.bounds.intersects b.bounds = true := by
    rw [Rect.intersects_iff]
    norm_num [a, b, item]
  obtain ⟨hpass, hsize, hsize', -, hundone, hacross, hdown⟩ := pass_pair ha hb hmeet rfl
  refine ⟨ha, hb, hmeet, rfl, _, _, hpass, hsize, hsize', ?_⟩
  rcases hundone with h | h
  · exact hacross h (.inl (by norm_num [a, b, item]))
  · exact hdown h (.inl (by norm_num [a, b, item]))

/-- A plate and a peg in it, right of its middle. -/
noncomputable def plate : Item ℝ := item "plate" ⟨0, 0, 1, 1⟩

noncomputable def peg : Item ℝ := item "peg" ⟨0.625, 0.375, 0.875, 0.625⟩

/-- The two have all of the peg in common, and each goes half as far as that is wide. -/
theorem plate_pushBy : pushBy plate.bounds peg.bounds = (1 / 8 + epsilon, 0) := by
  have hε : (epsilon : ℝ) = 1e-5 := rfl
  have hroot : Scalar.sqrt (1 / 16 : ℝ) = 1 / 4 := by
    show √(1 / 16 : ℝ) = 1 / 4
    rw [show (1 / 16 : ℝ) = 1 / 4 * (1 / 4) by norm_num]
    exact Real.sqrt_mul_self (by norm_num)
  have hdirection : direction plate.bounds.center peg.bounds.center = (1, 0) := by
    simp only [direction, Rect.center_x, Rect.center_y, plate, peg, item]
    norm_num [hroot, hε]
  have hoverlap : plate.bounds.overlapExtent peg.bounds = (1 / 4, 1 / 4) := by
    rw [Rect.overlapExtent_eq]
    norm_num [plate, peg, item]
  have hlength : pushLength plate.bounds peg.bounds = 1 / 8 + epsilon := by
    rw [pushLength, hdirection, hoverlap]
    norm_num [need, needAlong, hε]
  rw [pushBy, hlength, hdirection, one_mul, zero_mul]

/-- **A push that is too short**: together the two go two thirds of the way out. -/
theorem plate_not_apart :
    plate.bounds.isDegenerate = false ∧ peg.bounds.isDegenerate = false ∧
    plate.bounds.intersects peg.bounds = true ∧ plate.nestedWith peg = false ∧
    ∃ a' b', pass [plate, peg] = ([a', b'], 1) ∧ a'.bounds.intersects b'.bounds = true := by
  have hε : (epsilon : ℝ) = 1e-5 := rfl
  have hmeet : plate.bounds.intersects peg.bounds = true := by
    rw [Rect.intersects_iff]
    norm_num [plate, peg, item]
  refine ⟨?_, ?_, hmeet, rfl, _, _, pass_of_meet hmeet rfl, ?_⟩
  · rw [Rect.not_degenerate_iff, hε]
    norm_num [plate, item, Rect.width, Rect.height]
  · rw [Rect.not_degenerate_iff, hε]
    norm_num [peg, item, Rect.width, Rect.height]
  · rw [plate_pushBy, Rect.intersects_iff]
    norm_num [Item.shift, Rect.translate, plate, peg, item, hε]

end Separation

end NestedLayout
