import Mathlib.Analysis.SpecialFunctions.Complex.Arg
import NestedLayout.Scalar

/-!
# Exact coordinates

The real numbers as a scalar type: every layout rule read in exact arithmetic, without rounding,
overflow and values that are no number. Counters do not wrap around.

Each operation of `Scalar` gets a lemma that names the operation of the reals that it is
(`Scalar.max_real` and so on), after which `simp`, `linarith` and `norm_num` know what to do.
-/

set_option autoImplicit false

namespace NestedLayout

noncomputable instance : Scalar ℝ where
  decLT a b := Real.decidableLT a b
  decLE a b := Real.decidableLE a b
  ofNat n := n
  sqrt := Real.sqrt
  atan2 y x := Complex.arg ⟨x, y⟩
  fullTurn := 2 * Real.pi
  floorNat x := ⌊x⌋₊
  ceilNat x := ⌈x⌉₊
  floorInt x := ⌊x⌋
  compareTotal a b := compare a b
  counter := id

-- statements about reals are about the operations that Mathlib knows
attribute [instance (10)] Scalar.toAdd Scalar.toSub Scalar.toMul Scalar.toDiv Scalar.toNeg
  Scalar.toLT Scalar.toLE Scalar.toOfScientific Scalar.decLT Scalar.decLE

namespace Scalar

/-! ## Numerals -/

theorem zero_real : (0.0 : ℝ) = 0 := by norm_num

theorem one_real : (1.0 : ℝ) = 1 := by norm_num

theorem two_real : (2.0 : ℝ) = 2 := by norm_num

-- Several modules have examples with these numerals. By these instances they refer to one proof
-- that a numeral of the reals is at least two, and need none of their own.
instance atLeastTwo_two : Nat.AtLeastTwo 2 := inferInstance

instance atLeastTwo_four : Nat.AtLeastTwo 4 := inferInstance

instance atLeastTwo_five : Nat.AtLeastTwo 5 := inferInstance

instance atLeastTwo_ten : Nat.AtLeastTwo 10 := inferInstance

instance atLeastTwo_twentyOne : Nat.AtLeastTwo 21 := inferInstance

/-! ## Operations -/

@[simp] theorem ofNat_real (n : Nat) : (Scalar.ofNat n : ℝ) = n := rfl

@[simp] theorem counter_real (n : Nat) : Scalar.counter ℝ n = n := rfl

@[simp] theorem max_real (a b : ℝ) : Scalar.max a b = Max.max a b := by
  unfold Scalar.max
  split
  · rename_i h
    exact (max_eq_left_of_lt h).symm
  · rename_i h
    rw [if_pos (le_refl b), max_eq_right (not_lt.1 h)]

@[simp] theorem min_real (a b : ℝ) : Scalar.min a b = Min.min a b := by
  unfold Scalar.min
  split
  · rename_i h
    exact (min_eq_left_of_lt h).symm
  · rename_i h
    rw [if_pos (le_refl b), min_eq_right (not_lt.1 h)]

@[simp] theorem atLeast_real (x lo : ℝ) : Scalar.atLeast x lo = Max.max x lo := by
  unfold Scalar.atLeast
  split
  · rename_i h
    exact (max_eq_left_of_lt h).symm
  · rename_i h
    exact (max_eq_right (not_lt.1 h)).symm

@[simp] theorem atMost_real (x hi : ℝ) : Scalar.atMost x hi = Min.min x hi := by
  unfold Scalar.atMost
  split
  · rename_i h
    exact (min_eq_left_of_lt h).symm
  · rename_i h
    exact (min_eq_right (not_lt.1 h)).symm

@[simp] theorem abs_real (a : ℝ) : Scalar.abs a = |a| := by
  unfold Scalar.abs
  split
  · rename_i h
    exact (abs_of_neg (by norm_num at h; exact h)).symm
  · rename_i h
    exact (abs_of_nonneg (by norm_num at h; exact h)).symm

@[simp] theorem sum_real (xs : List ℝ) : Scalar.sum xs = xs.sum := by
  rw [Scalar.sum, List.sum_eq_foldl, show (-0.0 : ℝ) = 0 by norm_num]

@[simp] theorem compareTotal_isLE_iff {a b : ℝ} :
    (Scalar.compareTotal a b).isLE = true ↔ a ≤ b := by
  rw [← Ordering.ne_gt_iff_isLE]
  exact compare_le_iff_le

instance : Std.TransCmp (Scalar.compareTotal (α := ℝ)) :=
  inferInstanceAs (Std.TransCmp (compare : ℝ → ℝ → Ordering))

/-! ## Ranges -/

theorem clamp_real {lo hi : ℝ} (h : lo ≤ hi) (x : ℝ) :
    Scalar.clamp lo hi h x = Max.max lo (Min.min x hi) := by
  unfold Scalar.clamp
  split
  · rename_i hx
    rw [min_eq_left (hx.le.trans h), max_eq_left hx.le]
  · rename_i hx
    rw [not_lt] at hx
    split
    · rename_i hx'
      rw [min_eq_right hx'.le, max_eq_right h]
    · rename_i hx'
      rw [min_eq_left (not_lt.1 hx'), max_eq_right hx]

theorem epsilon_pos : (0 : ℝ) < Scalar.epsilon := by
  show (0 : ℝ) < 1e-5
  norm_num

end Scalar

end NestedLayout
