import NestedLayout.Proofs.Binary32.Identity

/-!
# Distances in single precision

The distance of two values does not depend on their order. The differences `a - b` and `b - a` are
rounded from integers of opposite signs, and neither rounding nor packing looks at a sign:

* `abs_sub_comm`: differences either way have one magnitude.
* `abs_unpack_pack`: the magnitude of a packed value does not depend on its sign.
* `sameValue_abs_sub`: so no comparison tells the distances apart.
* `abs_sub_self_le`: a finite value is near itself.
-/

set_option autoImplicit false

namespace NestedLayout.Binary32

open Float.Model (Format UnpackedFloat)
open Float.Model.UnpackedFloat (Sign Accuracy roundWithAccuracy packComponents)

variable {a b : Float32} {x y : UnpackedFloat}

/-! ## Rounding -/

theorem abs_roundWithAccuracy (s s' : Sign) (m : Nat) (e : Int) (accuracy : Accuracy) :
    (roundWithAccuracy .binary32 s m e accuracy).abs =
      (roundWithAccuracy .binary32 s' m e accuracy).abs := by
  unfold roundWithAccuracy
  dsimp only
  split <;> rfl

/-- Opposite integers are rounded to one magnitude. -/
theorem abs_normalize_neg (n : Int) (e : Int) :
    (UnpackedFloat.normalize .binary32 (-n) e .positive).abs =
      (UnpackedFloat.normalize .binary32 n e .positive).abs := by
  unfold UnpackedFloat.normalize
  rcases lt_trichotomy n 0 with hn | rfl | hn
  · rw [compare_lt_iff_lt.2 hn, compare_gt_iff_gt.2 (Int.neg_pos_of_neg hn)]
    exact abs_roundWithAccuracy _ _ _ _ _
  · rfl
  · rw [compare_gt_iff_gt.2 hn, compare_lt_iff_lt.2 (Int.neg_neg_of_pos hn), Int.neg_neg]
    exact abs_roundWithAccuracy _ _ _ _ _

/-- **Differences either way have one magnitude.** -/
theorem abs_sub_comm (x y : UnpackedFloat) :
    (UnpackedFloat.sub .binary32 x y).abs = (UnpackedFloat.sub .binary32 y x).abs := by
  cases x with
  | notANumber => cases y <;> rfl
  | infinity s =>
    cases y with
    | infinity s' => cases s <;> cases s' <;> rfl
    | _ => rfl
  | zero s =>
    cases y with
    | zero s' => cases s <;> cases s' <;> rfl
    | _ => rfl
  | finite s m e hm =>
    cases y with
    | finite s' m' e' hm' =>
      simp only [UnpackedFloat.sub]
      rw [Int.min_comm e e', ← abs_normalize_neg, Int.neg_sub]
    | _ => rfl

/-! ## Packing -/

/-- What a packed value stands for, up to its sign, does not depend on its sign bit. -/
theorem abs_unpack_packComponents {spec : Format} (s s' : Sign)
    (exponent : BitVec spec.exponentBits) (mantissa : BitVec spec.mantissaBitsWithoutImplicit) :
    (UnpackedFloat.unpack spec (packComponents spec s exponent mantissa)).abs =
      (UnpackedFloat.unpack spec (packComponents spec s' exponent mantissa)).abs := by
  simp only [UnpackedFloat.unpack, Float.Model.UnpackedFloat.unpackMantissa_packComponents,
    Float.Model.UnpackedFloat.unpackExponent_packComponents]
  by_cases hinfinite : exponent = -1#_
  · simp only [hinfinite, if_true]
    by_cases hm : mantissa = 0#_
    · simp only [hm, if_true, UnpackedFloat.abs]
    · simp only [hm, if_false]
  · by_cases hzero : exponent = 0#_
    · rw [if_neg hinfinite, if_neg hinfinite, if_pos hzero, if_pos hzero]
      by_cases hm : mantissa = 0#_
      · simp only [hm, dif_pos, UnpackedFloat.abs]
      · simp only [hm, dif_neg, not_false_eq_true, UnpackedFloat.abs]
    · simp only [hinfinite, hzero, if_false, UnpackedFloat.abs]

/-- The sign of a packed value is in its sign bit alone. -/
theorem exists_packComponents (spec : Format) {m : Nat} (e : Int) (hm : 0 < m) :
    ∃ exponent mantissa, ∀ s : Sign, UnpackedFloat.pack spec (.finite s m e hm) =
      packComponents spec s exponent mantissa := by
  by_cases hlarge : 2 ^ spec.exponentBits ≤
      (e + spec.exponentBias + spec.mantissaBitsWithoutImplicit).toNat + 1
  · exact ⟨-1#_, 0, fun s => if_pos hlarge⟩
  · by_cases hnormal : m.log2 + 1 = spec.mantissaBits
    · exact ⟨_, _, fun s => (if_neg hlarge).trans (if_pos hnormal)⟩
    · exact ⟨_, _, fun s => (if_neg hlarge).trans (if_neg hnormal)⟩

/-- The magnitude of a packed value is that of its magnitude, packed. -/
theorem abs_unpack_pack (spec : Format) (x : UnpackedFloat) :
    (UnpackedFloat.unpack spec (UnpackedFloat.pack spec x)).abs =
      (UnpackedFloat.unpack spec (UnpackedFloat.pack spec x.abs)).abs := by
  cases x with
  | notANumber => rfl
  | infinity s => exact abs_unpack_packComponents _ _ _ _
  | zero s => exact abs_unpack_packComponents _ _ _ _
  | finite s m e hm =>
    obtain ⟨exponent, mantissa, hpack⟩ := exists_packComponents spec e hm
    rw [show (UnpackedFloat.finite s m e hm).abs = .finite .positive m e hm from rfl, hpack, hpack]
    exact abs_unpack_packComponents _ _ _ _

/-- Packing keeps values of one magnitude together. -/
theorem abs_repack_congr (h : x.abs = y.abs) : (repack x).abs = (repack y).abs := by
  exact (abs_unpack_pack _ x).trans (h ▸ (abs_unpack_pack _ y).symm)

/-! ## Distances -/

/-- The distance from zero is the magnitude, up to the sign of a zero. -/
theorem unsigned_form_abs (a : Float32) :
    unsigned (form (Scalar.abs a)) = unsigned (repack (form a).abs) := by
  have hneg : form (-a) = repack (form a).neg := rfl
  have hlt : a < 0.0 ↔ (form a).lt (.zero .positive) = true := lt_iff
  have hkept := repack_form a
  unfold Scalar.abs
  cases hform : form a with
  | notANumber =>
    rw [hform] at hlt
    rw [if_neg (mt hlt.1 (by decide)), hform]
    rfl
  | infinity s =>
    rw [hform] at hneg hlt
    cases s with
    | negative =>
      rw [if_pos (hlt.2 rfl), hneg]
      rfl
    | positive =>
      rw [if_neg (mt hlt.1 (by decide)), hform]
      rfl
  | zero s =>
    rw [hform] at hlt
    rw [if_neg (mt hlt.1 (by cases s <;> decide)), hform]
    cases s <;> rfl
  | finite s m e hm =>
    rw [hform] at hneg hlt hkept
    cases s with
    | negative =>
      rw [if_pos (hlt.2 rfl), hneg]
      rfl
    | positive =>
      rw [if_neg (mt hlt.1 Bool.false_ne_true), hform]
      exact congrArg unsigned hkept.symm

/-- **The distance of two values does not depend on their order.** -/
theorem sameValue_abs_sub (a b : Float32) :
    SameValue (Scalar.abs (a - b)) (Scalar.abs (b - a)) := by
  have hmagnitude : (form (a - b)).abs = (form (b - a)).abs := by
    rw [form_sub, form_sub]
    exact abs_repack_congr (abs_sub_comm _ _)
  rw [SameValue, unsigned_form_abs, unsigned_form_abs, hmagnitude]

/-- The difference of a finite value from itself is a zero. -/
theorem unsigned_form_sub_self (h : a.isFinite = true) :
    unsigned (form (a - a)) = .zero .positive := by
  have hfinite : (form a).isFinite = true := h
  rw [form_sub]
  cases hform : form a with
  | notANumber =>
    rw [hform] at hfinite
    cases hfinite
  | infinity s =>
    rw [hform] at hfinite
    cases hfinite
  | zero s => cases s <;> rfl
  | finite s m e hm =>
    simp only [UnpackedFloat.sub, Int.sub_self, UnpackedFloat.normalize, compare_eq_iff_eq.2]
    rfl

/-- **A finite value is near itself.** -/
theorem abs_sub_self_le (h : a.isFinite = true) : Scalar.abs (a - a) ≤ Scalar.epsilon := by
  have hzero : SameValue (a - a) 0.0 := unsigned_form_sub_self h
  exact hzero.abs.le_iff.2 (by decide +kernel)

end NestedLayout.Binary32
