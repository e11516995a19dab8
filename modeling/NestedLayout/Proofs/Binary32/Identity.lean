import NestedLayout.Geometry.AxisMap
import NestedLayout.Proofs.Binary32.Order

/-!
# The map that changes nothing

A picture in unit space is drawn with factors one and shifts zero. In single precision this changes
no value, up to the sign of a zero, because neither operation has anything to round.

* `Canonical`: the significands and exponents that the format has. They survive multiplication by
  one (`round_mul_one`), as every form survives packing (`repack_form`).
* `SameValue`: values that no comparison tells apart.
* `near_identity`: points are as near to each other under the identity map as without it.
-/

set_option autoImplicit false

namespace NestedLayout.Binary32

open Float.Model (Format UnpackedFloat totalExponent)
open Float.Model.UnpackedFloat (Sign ExtendedMantissa unpackExponent unpackMantissa
  pack_unpack_of_valid roundWithAccuracy shiftToExponent shiftToTargetExponent)

variable {a a' b b' : Float32} {m : Nat} {e : Int}

/-! ## Canonical forms -/

/-- A significand and an exponent that the format has: the leading bit of the significand stands in
its place, or the exponent is the least one. -/
structure Canonical (m : Nat) (e : Int) : Prop where
  short : m < 2 ^ 24
  low : -149 ≤ e
  full : 2 ^ 23 ≤ m ∨ e = -149

theorem exponentBias_eq : Format.binary32.exponentBias = 127 := rfl

/-- The leading bit that a packed significand leaves out. -/
theorem toNat_implicit (m : BitVec 23) : (1#1 ++ m).toNat = 2 ^ 23 + m.toNat := by
  rw [BitVec.toNat_append, ← Nat.shiftLeft_add_eq_or_of_lt m.isLt]
  rfl

/-- **A finite value is in canonical form.** -/
theorem canonical_of_form {s : Sign} {hm : 0 < m} (h : form a = .finite s m e hm) :
    Canonical m e := by
  unfold form Float32.Model.unpack UnpackedFloat.unpack at h
  dsimp only at h
  have hbias := exponentBias_eq
  have hshort : (@unpackMantissa .binary32 a.toModel.toBits.toBitVec).toNat < 2 ^ 23 :=
    BitVec.isLt _
  generalize @unpackExponent .binary32 a.toModel.toBits.toBitVec = exponent at h
  have hlt : exponent.toNat < 2 ^ 8 := exponent.isLt
  split at h
  · split at h <;> cases h
  · rename_i hinfinite
    have hinfinite : exponent.toNat ≠ 255 := by
      intro h255
      exact hinfinite (BitVec.eq_of_toNat_eq h255)
    split at h
    · rename_i hzero
      have hzero : exponent.toNat = 0 := congrArg BitVec.toNat hzero
      split at h
      · cases h
      · cases h
        constructor <;> omega
    · rename_i hzero
      have hzero : exponent.toNat ≠ 0 := by
        intro h0
        exact hzero (BitVec.eq_of_toNat_eq h0)
      cases h
      have hmantissa := toNat_implicit (@unpackMantissa .binary32 a.toModel.toBits.toBitVec)
      constructor <;> omega

/-- **The form of a value survives packing.** -/
theorem repack_form (a : Float32) : repack (form a) = form a :=
  congrArg (UnpackedFloat.unpack .binary32) (pack_unpack_of_valid a.toModel.valid)

/-! ## Multiplication by one -/

theorem form_one : form (1.0 : Float32) = .finite .positive (2 ^ 23) (-23) (by decide) := rfl

/-- Shifting zeros out of a significand loses nothing. -/
theorem repeat_shiftRightOne (m n : Nat) :
    n.repeat ExtendedMantissa.shiftRightOne ⟨m * 2 ^ n, false, false⟩ = ⟨m, false, false⟩ := by
  induction n generalizing m with
  | zero => simp [Nat.repeat]
  | succ n ih =>
    rw [Nat.repeat, Nat.pow_succ', ← Nat.mul_assoc, ih]
    simp [ExtendedMantissa.shiftRightOne]

theorem log2_mul_two_pow (hm : 0 < m) (n : Nat) : (m * 2 ^ n).log2 = m.log2 + n := by
  induction n with
  | zero => simp
  | succ n ih =>
    have hne : m * 2 ^ n ≠ 0 := Nat.ne_of_gt (Nat.mul_pos hm (Nat.two_pow_pos n))
    rw [Nat.pow_succ', Nat.mul_left_comm, Nat.log2_two_mul hne, ih]
    rfl

theorem totalExponent_mul_one (hm : 0 < m) (e : Int) :
    totalExponent (m * 2 ^ 23) (e + -23) = totalExponent m e := by
  rw [totalExponent, totalExponent, log2_mul_two_pow hm]
  omega

/-- A canonical form has the exponent that the format wants. -/
theorem targetExponent_eq (hm : 0 < m) (h : Canonical m e) :
    Format.binary32.targetExponent (totalExponent m e) = e := by
  obtain ⟨hshort, hlow, hfull⟩ := h
  have hle := @Nat.le_log2 m 23 (Nat.ne_of_gt hm)
  have hlt := @Nat.log2_lt m 24 (Nat.ne_of_gt hm)
  show max (((m.log2 : Int) + 1 + e) - 24) (-149) = e
  omega

/-- **A product with one is exact**: what it adds to the significand is shifted out again. -/
theorem round_mul_one (s : Sign) (hm : 0 < m) (h : Canonical m e) :
    roundWithAccuracy .binary32 s (m * 2 ^ 23) (e + -23) .exact = .finite s m e hm := by
  have hfirst : shiftToTargetExponent .binary32 (m * 2 ^ 23) (e + -23) .exact =
      (⟨m, false, false⟩, e) := by
    have hamount : (e - (e + -23)).toNat = 23 := by omega
    rw [shiftToTargetExponent, totalExponent_mul_one hm, targetExponent_eq hm h, shiftToExponent,
      hamount]
    refine Prod.ext (repeat_shiftRightOne m 23) ?_
    show e + -23 + ((23 : Nat) : Int) = e
    omega
  have hsecond : shiftToTargetExponent .binary32 m e .exact = (⟨m, false, false⟩, e) := by
    have hamount : (e - e).toNat = 0 := by omega
    rw [shiftToTargetExponent, targetExponent_eq hm h, shiftToExponent, hamount]
    exact Prod.ext rfl (Int.add_zero e)
  have hrounded : ExtendedMantissa.roundedMantissa ⟨m, false, false⟩ = m := rfl
  rw [roundWithAccuracy, hfirst]
  simp only [hrounded, hsecond]
  rw [dif_neg (Nat.ne_of_gt hm)]

theorem form_mul_one (a : Float32) : form (a * 1.0) = form a := by
  rw [form_mul, form_one]
  cases hform : form a with
  | notANumber => rfl
  | infinity s => cases s <;> rfl
  | zero s => cases s <;> rfl
  | finite s m e hm =>
    have hcanonical := canonical_of_form hform
    have hsign : s * .positive = s := by cases s <;> rfl
    show repack (roundWithAccuracy .binary32 (s * .positive) (m * 2 ^ 23) (e + -23) .exact) = _
    rw [hsign, round_mul_one s hm hcanonical, ← hform, repack_form]

/-! ## Values up to the sign of a zero -/

/-- A form without the sign of a zero. -/
def unsigned : UnpackedFloat → UnpackedFloat
  | .zero _ => .zero .positive
  | x => x

theorem form_add_zero (a : Float32) : form (a + 0.0) = unsigned (form a) := by
  show repack (UnpackedFloat.add .binary32 (form a) (.zero .positive)) = _
  cases hform : form a with
  | notANumber => rfl
  | infinity s => cases s <;> rfl
  | zero s => cases s <;> rfl
  | finite s m e hm =>
    have hkept := repack_form a
    rw [hform] at hkept
    exact hkept

theorem compare_unsigned (x y : UnpackedFloat) : (unsigned x).compare y = x.compare y := by
  cases x with
  | zero s =>
    cases y with
    | infinity s' => cases s' <;> rfl
    | finite s' m e hm => cases s' <;> rfl
    | _ => rfl
  | _ => rfl

theorem neg_unsigned (x : UnpackedFloat) :
    unsigned (repack (unsigned x).neg) = unsigned (repack x.neg) := by
  cases x with
  | zero s => cases s <;> rfl
  | _ => rfl

theorem sub_unsigned (x y : UnpackedFloat) :
    unsigned (repack (UnpackedFloat.sub .binary32 (unsigned x) (unsigned y))) =
      unsigned (repack (UnpackedFloat.sub .binary32 x y)) := by
  cases x with
  | zero s =>
    cases y with
    | zero s' => cases s <;> cases s' <;> rfl
    | _ => rfl
  | _ => cases y <;> rfl

/-- Two values that no comparison tells apart: the same, or zeros of either sign. -/
def SameValue (a b : Float32) : Prop := unsigned (form a) = unsigned (form b)

namespace SameValue

theorem compare_eq (h : SameValue a a') (x : UnpackedFloat) :
    (form a).compare x = (form a').compare x := by
  rw [← compare_unsigned (form a), h, compare_unsigned]

theorem le_iff (h : SameValue a a') : a ≤ b ↔ a' ≤ b := by
  rw [Binary32.le_iff, Binary32.le_iff, UnpackedFloat.le, UnpackedFloat.le, h.compare_eq]

theorem lt_iff (h : SameValue a a') : a < b ↔ a' < b := by
  rw [Binary32.lt_iff, Binary32.lt_iff, UnpackedFloat.lt, UnpackedFloat.lt, h.compare_eq]

theorem neg (h : SameValue a a') : SameValue (-a) (-a') := by
  show unsigned (repack (form a).neg) = unsigned (repack (form a').neg)
  rw [← neg_unsigned, h, neg_unsigned]

theorem abs (h : SameValue a a') : SameValue (Scalar.abs a) (Scalar.abs a') := by
  unfold Scalar.abs
  by_cases hneg : a < 0.0
  · rw [if_pos hneg, if_pos (h.lt_iff.1 hneg)]
    exact h.neg
  · rw [if_neg hneg, if_neg (mt h.lt_iff.2 hneg)]
    exact h

theorem sub (h : SameValue a a') (h' : SameValue b b') : SameValue (a - b) (a' - b') := by
  rw [SameValue, form_sub, form_sub, ← sub_unsigned, h, h', sub_unsigned]

end SameValue

/-! ## The identity map -/

theorem sameValue_identity (a : Float32) : SameValue (a * 1.0 + 0.0) a := by
  rw [SameValue, form_add_zero, form_mul_one]
  cases form a <;> rfl

/-- **The identity map keeps distances**: what is near stays near, and nothing else becomes so. -/
theorem near_identity (p q : Point Float32) :
    (AxisMap.identity.apply p).near (AxisMap.identity.apply q) = p.near q := by
  have hx := (sameValue_identity p.x).sub (sameValue_identity q.x)
  have hy := (sameValue_identity p.y).sub (sameValue_identity q.y)
  unfold Point.near
  congr 1
  · exact decide_eq_decide.2 hx.abs.le_iff
  · exact decide_eq_decide.2 hy.abs.le_iff

end NestedLayout.Binary32
