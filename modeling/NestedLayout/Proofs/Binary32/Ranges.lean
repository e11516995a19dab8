import NestedLayout.Proofs.Binary32.Order

/-!
# Ranges in single precision

Two numbers compare one way or the other, so a value that is not below the lower end of a range and
not above its upper end lies in it. A value that is no number fails both comparisons: raising it to
a bound gives the bound, but bringing it between two bounds leaves it as it is.

* `le_of_not_lt`: numbers compare one way or the other.
* `le_atLeast`: nothing is below a bound that it was raised to.
* `clamp_mem`, `clamp_of_isNaN`: what comes out between two bounds.
-/

set_option autoImplicit false

namespace NestedLayout.Binary32

open Float.Model

variable {a b lo hi : Float32} {x y : UnpackedFloat}

/-- The comparison the other way round. -/
theorem compare_swap (x y : UnpackedFloat) :
    y.compare x = (x.compare y).map Ordering.swap := by
  cases x with
  | notANumber => exact compare_nan_right y
  | infinity s =>
    cases y with
    | infinity s' => cases s <;> cases s' <;> rfl
    | _ => cases s <;> rfl
  | zero s =>
    cases y with
    | infinity s' => cases s' <;> rfl
    | finite s' => cases s' <;> rfl
    | _ => rfl
  | finite s m e hm =>
    cases y with
    | infinity s' => cases s <;> cases s' <;> rfl
    | finite s' m' e' hm' =>
      have he : compare e' e = (compare e e').swap := Std.OrientedCmp.eq_swap
      have hm : compare m' m = (compare m m').swap := Std.OrientedCmp.eq_swap
      cases s <;> cases s' <;> simp [UnpackedFloat.compare, Ordering.swap_then, he, hm]
    | _ => cases s <;> rfl

theorem compare_isSome (hx : x ≠ .notANumber) (hy : y ≠ .notANumber) :
    (x.compare y).isSome = true := by
  cases x with
  | notANumber => exact absurd rfl hx
  | infinity s =>
    cases y with
    | notANumber => exact absurd rfl hy
    | _ => cases s <;> rfl
  | zero s =>
    cases y with
    | notANumber => exact absurd rfl hy
    | infinity s' | finite s' => cases s' <;> rfl
    | zero => rfl
  | finite s =>
    cases y with
    | notANumber => exact absurd rfl hy
    | infinity s' | finite s' => cases s <;> cases s' <;> rfl
    | zero => cases s <;> rfl

/-- **Numbers compare** one way or the other. -/
theorem le_of_not_lt (ha : a.isNaN = false) (hb : b.isNaN = false) (h : ¬ a < b) : b ≤ a := by
  obtain ⟨o, ho⟩ := Option.isSome_iff_exists.1
    (compare_isSome (isNaN_eq_false_iff.1 ha) (isNaN_eq_false_iff.1 hb))
  rw [lt_iff, UnpackedFloat.lt, ho] at h
  rw [le_iff, UnpackedFloat.le, compare_swap, ho]
  cases o <;> simp_all

/-- A value that compares with another one is a number. -/
theorem isNaN_of_le (h : a ≤ b) : a.isNaN = false ∧ b.isNaN = false := by
  constructor
  · by_contra hn
    exact not_le_of_isNaN_left (Bool.not_eq_false _ ▸ hn) h
  · by_contra hn
    exact not_le_of_isNaN_right (Bool.not_eq_false _ ▸ hn) h

/-! ## Bringing into range -/

theorem le_atLeast (hlo : lo ≤ lo) (v : Float32) : lo ≤ Scalar.atLeast v lo := by
  rw [Scalar.atLeast]
  split
  · exact le_of_lt ‹_›
  · exact hlo

/-- What is clamped between two bounds and is a number lies between them. -/
theorem clamp_mem (h : lo ≤ hi) {v : Float32} (hv : v.isNaN = false) :
    lo ≤ Scalar.clamp lo hi h v ∧ Scalar.clamp lo hi h v ≤ hi := by
  obtain ⟨hlo, hhi⟩ := isNaN_of_le h
  rw [Scalar.clamp]
  split
  · exact ⟨le_self_iff.2 hlo, h⟩
  · rename_i hlow
    split
    · exact ⟨h, le_self_iff.2 hhi⟩
    · rename_i hhigh
      exact ⟨le_of_not_lt hv hlo hlow, le_of_not_lt hhi hv hhigh⟩

/-- What is no number is left as it is. -/
theorem clamp_of_isNaN (h : lo ≤ hi) {v : Float32} (hv : v.isNaN = true) :
    Scalar.clamp lo hi h v = v := by
  rw [Scalar.clamp, if_neg fun hlow => not_le_of_isNaN_left hv (le_of_lt hlow),
    if_neg fun hhigh => not_le_of_isNaN_right hv (le_of_lt hhigh)]

end NestedLayout.Binary32
