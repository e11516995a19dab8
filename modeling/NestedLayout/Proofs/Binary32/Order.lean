import Mathlib
import NestedLayout.Scalar.Binary32

/-!
# Comparisons in single precision

A value of `Float32` is compared by its unpacked form: an infinity, a zero, a finite number, or no
number at all. Only the last one is not at most itself, and it is not at most anything else.

* `le_self_iff`: a value is at most itself exactly when it is a number.
* `le_of_lt`, `min_le_right_iff`, `le_max_right_iff`: what the bounds of a range rest on.
* `isNaN_sub_left`: a difference from no number is none either.
-/

set_option autoImplicit false

namespace NestedLayout.Binary32

open Float.Model

variable {a b : Float32}

/-- The unpacked form of a value. -/
abbrev form (x : Float32) : UnpackedFloat := x.toModel.unpack

theorem le_iff : a ≤ b ↔ (form a).le (form b) = true := by
  show Float32.le a b = true ↔ _
  simp only [Float32.le, decide_eq_true_eq]
  rfl

theorem lt_iff : a < b ↔ (form a).lt (form b) = true := by
  show Float32.lt a b = true ↔ _
  simp only [Float32.lt, decide_eq_true_eq]
  rfl

theorem isNaN_iff : a.isNaN = true ↔ form a = .notANumber := UnpackedFloat.isNaN_iff

theorem isNaN_eq_false_iff : a.isNaN = false ↔ form a ≠ .notANumber := by
  rw [ne_eq, ← isNaN_iff, Bool.not_eq_true]

/-! ## Numbers and other values -/

/-- A number equals itself. -/
theorem compare_self {x : UnpackedFloat} (hx : x ≠ .notANumber) : x.compare x = some .eq := by
  cases x with
  | notANumber => exact absurd rfl hx
  | infinity s => cases s <;> rfl
  | zero s => rfl
  | finite s m e hm => cases s <;> simp [UnpackedFloat.compare]

theorem compare_nan_left (x : UnpackedFloat) :
    UnpackedFloat.compare .notANumber x = none := rfl

theorem compare_nan_right (x : UnpackedFloat) : x.compare .notANumber = none := by
  cases x <;> rfl

theorem not_le_of_isNaN_left (h : a.isNaN = true) : ¬ a ≤ b := by
  rw [le_iff, isNaN_iff.1 h]
  simp [UnpackedFloat.le, compare_nan_left]

theorem not_le_of_isNaN_right (h : b.isNaN = true) : ¬ a ≤ b := by
  rw [le_iff, isNaN_iff.1 h]
  simp [UnpackedFloat.le, compare_nan_right]

/-- **A value is at most itself** exactly when it is a number. -/
theorem le_self_iff : a ≤ a ↔ a.isNaN = false := by
  by_cases h : a.isNaN = true
  · exact iff_of_false (not_le_of_isNaN_left h) (Bool.not_eq_false _ ▸ h)
  · rw [Bool.not_eq_true] at h
    refine iff_of_true ?_ h
    rw [le_iff, UnpackedFloat.le, compare_self (isNaN_eq_false_iff.1 h)]
    rfl

theorem le_of_lt (h : a < b) : a ≤ b := by
  rw [lt_iff, UnpackedFloat.lt, beq_iff_eq] at h
  rw [le_iff, UnpackedFloat.le, h]
  rfl

/-! ## Bounds -/

/-- A lower bound cut off at `b` is at most `b` exactly when `b` is a number. -/
theorem min_le_right_iff : Scalar.min a b ≤ b ↔ b.isNaN = false := by
  by_cases h : b.isNaN = true
  · exact iff_of_false (not_le_of_isNaN_right h) (Bool.not_eq_false _ ▸ h)
  · rw [Bool.not_eq_true] at h
    simp only [h, iff_true, Scalar.min]
    split
    · exact le_of_lt ‹_›
    · rw [if_pos (le_self_iff.2 h)]
      exact le_self_iff.2 h

/-- An upper bound raised to `b` is at least `b` exactly when `b` is a number. -/
theorem le_max_right_iff : b ≤ Scalar.max a b ↔ b.isNaN = false := by
  by_cases h : b.isNaN = true
  · exact iff_of_false (not_le_of_isNaN_left h) (Bool.not_eq_false _ ▸ h)
  · rw [Bool.not_eq_true] at h
    simp only [h, iff_true, Scalar.max]
    split
    · exact le_of_lt ‹_›
    · rw [if_pos (le_self_iff.2 h)]
      exact le_self_iff.2 h

/-! ## Arithmetic -/

/-- A result of arithmetic, rounded into the format. -/
abbrev repack (x : UnpackedFloat) : UnpackedFloat := (Float32.Model.pack x).unpack

theorem form_sub : form (a - b) = repack (UnpackedFloat.sub Format.binary32 (form a) (form b)) :=
  rfl

theorem repack_nan : repack .notANumber = .notANumber := rfl

theorem isNaN_sub_left (h : a.isNaN = true) : (a - b).isNaN = true := by
  have hnone : UnpackedFloat.sub Format.binary32 .notANumber (form b) = .notANumber := by
    cases form b <;> rfl
  rw [isNaN_iff, form_sub, isNaN_iff.1 h, hnone, repack_nan]

theorem form_mul : form (a * b) = repack (UnpackedFloat.mul Format.binary32 (form a) (form b)) :=
  rfl

theorem isNaN_mul_left (h : a.isNaN = true) : (a * b).isNaN = true := by
  have hnone : UnpackedFloat.mul Format.binary32 .notANumber (form b) = .notANumber := by
    cases form b <;> rfl
  rw [isNaN_iff, form_mul, isNaN_iff.1 h, hnone, repack_nan]

theorem isNaN_mul_right (h : b.isNaN = true) : (a * b).isNaN = true := by
  have hnone : UnpackedFloat.mul Format.binary32 (form a) .notANumber = .notANumber := by
    cases form a <;> rfl
  rw [isNaN_iff, form_mul, isNaN_iff.1 h, hnone, repack_nan]

/-! ## The total order -/

instance : Std.TransCmp (Scalar.compareTotal (α := Float32)) where
  eq_swap := fun {_ _} => @Std.OrientedCmp.eq_swap Int compare _ _ _
  isLE_trans := fun {_ _ _} => @Std.TransCmp.isLE_trans Int compare _ _ _ _

end NestedLayout.Binary32
