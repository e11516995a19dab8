import NestedLayout.Proofs.Binary32.Order

/-!
# Numbers in the normal range

A significand with bits to spare is rounded to one that fills the format, and the result is finite
unless its exponent is too large: rounding moves the leading bit by one place at most.

* `roundWithAccuracy_normal`: the form of a rounded number.
* `unpack_pack_normal`: a normal number stays finite when it is packed.
* `isRegular_roundWithAccuracy`: both together.
-/

set_option autoImplicit false

namespace NestedLayout.Binary32

open Float.Model
open Float.Model.UnpackedFloat

variable {spec : Format}

/-- The leading bits of a number, as many as the format has. -/
theorem leading_mem {m p : Nat} (hp : 1 < p) (hm : p ≤ m.log2 + 1) :
    2 ^ (p - 1) ≤ m / 2 ^ (m.log2 + 1 - p) ∧ m / 2 ^ (m.log2 + 1 - p) < 2 ^ p := by
  obtain ⟨k, hk⟩ := Nat.exists_eq_add_of_le hm
  have hpos : m ≠ 0 := by
    rintro rfl
    rw [Nat.log2_zero] at hm
    omega
  rw [hk, Nat.add_sub_cancel_left, Nat.le_div_iff_mul_le (Nat.two_pow_pos k),
    Nat.div_lt_iff_lt_mul (Nat.two_pow_pos k), ← Nat.pow_add, ← Nat.pow_add]
  exact ⟨(Nat.le_log2 hpos).1 (by omega), (Nat.log2_lt hpos).1 (by omega)⟩

theorem shiftRight_mantissa (em : ExtendedMantissa) (n : Nat) :
    (em >>> n).mantissa = em.mantissa / 2 ^ n := by
  show (n.repeat ExtendedMantissa.shiftRightOne em).mantissa = _
  induction n with
  | zero => simp [Nat.repeat]
  | succ n ih =>
    rw [Nat.repeat, ExtendedMantissa.shiftRightOne]
    simp only [ih, Nat.div_div_eq_div_mul, pow_succ]

theorem roundedMantissa_mem (em : ExtendedMantissa) :
    em.mantissa ≤ em.roundedMantissa ∧ em.roundedMantissa ≤ em.mantissa + 1 := by
  unfold ExtendedMantissa.roundedMantissa Accuracy.roundToNearestEven
  split <;> omega

theorem ofMantissaAndAccuracy_mantissa (m : Nat) (a : Accuracy) :
    (ExtendedMantissa.ofMantissaAndAccuracy m a).mantissa = m := by
  rcases a with _ | _ | _ | _ <;> rfl

/-- A number with bits to spare is cut off behind as many as the format has. -/
theorem shiftToTargetExponent_normal {m : Nat} {e : Int} (a : Accuracy)
    (hbits : spec.mantissaBits ≤ m.log2 + 1)
    (hlow : spec.minExponent ≤ totalExponent m e - spec.mantissaBits) :
    (shiftToTargetExponent spec m e a).1.mantissa = m / 2 ^ (m.log2 + 1 - spec.mantissaBits) ∧
      (shiftToTargetExponent spec m e a).2 = totalExponent m e - spec.mantissaBits := by
  have hshift : (totalExponent m e - spec.mantissaBits - e).toNat =
      m.log2 + 1 - spec.mantissaBits := by
    rw [totalExponent]
    omega
  rw [shiftToTargetExponent, Format.targetExponent, max_eq_left hlow, shiftToExponent]
  dsimp only
  rw [hshift, shiftRight_mantissa, ofMantissaAndAccuracy_mantissa]
  refine ⟨rfl, ?_⟩
  rw [totalExponent]
  omega

/-- **A number with bits to spare** is rounded to a significand that fills the format. -/
theorem roundWithAccuracy_normal {m : Nat} {e : Int} (s : Sign) (a : Accuracy)
    (hbits : spec.mantissaBits ≤ m.log2 + 1)
    (hlow : spec.minExponent ≤ totalExponent m e - spec.mantissaBits) :
    ∃ m' e' hm', roundWithAccuracy spec s m e a = .finite s m' e' hm' ∧
      m'.log2 + 1 = spec.mantissaBits ∧ totalExponent m e - spec.mantissaBits ≤ e' ∧
      e' ≤ totalExponent m e - spec.mantissaBits + 1 := by
  have hp : 1 < spec.mantissaBits := by
    have := spec.hm
    rw [Format.mantissaBits]
    omega
  obtain ⟨hfirst, hexponent⟩ := shiftToTargetExponent_normal a hbits hlow
  obtain ⟨hleast, hmost⟩ := leading_mem hp hbits
  have hround := roundedMantissa_mem (shiftToTargetExponent spec m e a).1
  rw [hfirst] at hround
  rw [roundWithAccuracy]
  dsimp only
  rw [hexponent]
  generalize (shiftToTargetExponent spec m e a).1.roundedMantissa = r at hround ⊢
  -- The rounded significand may have one bit more, which a second shift takes off again.
  have hr : r ≠ 0 := by
    have := Nat.two_pow_pos (spec.mantissaBits - 1)
    omega
  have hbits : spec.mantissaBits - 1 ≤ r.log2 := (Nat.le_log2 hr).2 (by omega)
  have hcarry : r.log2 < spec.mantissaBits + 1 := (Nat.log2_lt hr).2 (by rw [pow_succ]; omega)
  have htotal : totalExponent r (totalExponent m e - spec.mantissaBits) =
      r.log2 + 1 + (totalExponent m e - spec.mantissaBits) := rfl
  obtain ⟨hsecond, hexponent⟩ := shiftToTargetExponent_normal .exact
    (by omega : spec.mantissaBits ≤ r.log2 + 1) (by omega : spec.minExponent ≤
      totalExponent r (totalExponent m e - spec.mantissaBits) - spec.mantissaBits)
  obtain ⟨hleast, hmost⟩ := leading_mem hp (by omega : spec.mantissaBits ≤ r.log2 + 1)
  rw [← hsecond] at hleast hmost
  have hpos : (shiftToTargetExponent spec r (totalExponent m e - spec.mantissaBits)
      .exact).1.mantissa ≠ 0 := by
    have := Nat.two_pow_pos (spec.mantissaBits - 1)
    omega
  rw [dif_neg hpos]
  refine ⟨_, _, _, rfl, ?_, by omega, by omega⟩
  rw [(Nat.log2_eq_iff hpos).2 ⟨hleast, by rwa [Nat.sub_add_cancel (by omega)]⟩]
  omega

/-- **A number that fills the format** stays finite when it is packed, unless its exponent is too
large. -/
theorem unpack_pack_normal {m : Nat} {e : Int} (s : Sign) (hm : 0 < m)
    (hbits : m.log2 + 1 = spec.mantissaBits)
    (hlow : 0 < e + spec.exponentBias + spec.mantissaBitsWithoutImplicit)
    (hhigh : e + spec.exponentBias + spec.mantissaBitsWithoutImplicit + 1 <
      2 ^ spec.exponentBits) :
    ∃ s' m' e' hm', UnpackedFloat.unpack spec (UnpackedFloat.pack spec (.finite s m e hm)) =
      .finite s' m' e' hm' := by
  obtain ⟨b, hb⟩ := Int.eq_ofNat_of_zero_le hlow.le
  rw [hb] at hlow hhigh
  have hlow : 0 < b := by exact_mod_cast hlow
  have hhigh : b + 1 < 2 ^ spec.exponentBits := by exact_mod_cast hhigh
  rw [UnpackedFloat.pack, hb, Int.toNat_natCast, if_neg (by omega), if_pos hbits,
    UnpackedFloat.unpack, unpackExponent_packComponents, if_neg, if_neg]
  · exact ⟨_, _, _, _, rfl⟩
  · intro hzero
    rw [← BitVec.toNat_inj, BitVec.toNat_ofNat, BitVec.toNat_ofNat, Nat.zero_mod,
      Nat.mod_eq_of_lt (by omega)] at hzero
    omega
  · intro hones
    rw [BitVec.neg_one_eq_allOnes, ← BitVec.toNat_inj, BitVec.toNat_ofNat, BitVec.toNat_allOnes,
      Nat.mod_eq_of_lt (by omega)] at hones
    omega

/-- Whether a value is finite and not zero. -/
def isRegular : UnpackedFloat → Bool
  | .finite _ _ _ _ => true
  | _ => false

/-- **Rounding in the normal range** gives a number that is finite and not zero. -/
theorem isRegular_roundWithAccuracy {m : Nat} {e : Int} (s : Sign) (a : Accuracy)
    (hbits : spec.mantissaBits ≤ m.log2 + 1) (hlow : 2 ≤ totalExponent m e + spec.exponentBias)
    (hhigh : totalExponent m e + spec.exponentBias + 1 < 2 ^ spec.exponentBits) :
    isRegular (UnpackedFloat.unpack spec
      (UnpackedFloat.pack spec (roundWithAccuracy spec s m e a))) = true := by
  have hbias : (2 : Int) ^ (spec.exponentBits - 1) = spec.exponentBias + 1 := by
    rw [Format.exponentBias, Nat.cast_sub Nat.one_le_two_pow]
    push_cast
    ring
  have hp : (spec.mantissaBits : Int) = 1 + spec.mantissaBitsWithoutImplicit := rfl
  have hmin : spec.minExponent ≤ totalExponent m e - spec.mantissaBits := by
    rw [Format.minExponent, hbias]
    omega
  obtain ⟨m', e', hm', hround, hm, hleast, hmost⟩ := roundWithAccuracy_normal s a hbits hmin
  obtain ⟨_, _, _, _, hform⟩ := unpack_pack_normal s hm' hm
    (by omega : 0 < e' + spec.exponentBias + spec.mantissaBitsWithoutImplicit) (by omega)
  rw [hround, hform]
  rfl

end NestedLayout.Binary32
