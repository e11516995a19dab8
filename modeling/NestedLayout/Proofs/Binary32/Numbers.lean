import NestedLayout.Json5.Reader
import NestedLayout.Proofs.Binary32.Normal

/-!
# Numbers that are read

What a text says about a number is rounded more than once on the way to a coordinate, and multiplied
or divided by powers of ten. None of these steps makes a value that is no number out of one that is:
dividing is the only step that could, and the powers of ten are finite and not zero.

* `toSingle?_isNaN`: a number in a JSON text is never read as no number.
* `double?_isNaN`: in a JSON5 text only the literal for it is.
-/

set_option autoImplicit false

namespace NestedLayout

open Float.Model (UnpackedFloat)
open Float.Model.UnpackedFloat (pack unpack packComponents packedInfinity
  unpackExponent_packComponents)

/-! ## Rounding and packing -/

namespace Binary32

variable {spec : Float.Model.Format} {x y : UnpackedFloat}

theorem roundWithAccuracy_ne_nan (s : UnpackedFloat.Sign) (m : Nat) (e : Int)
    (a : UnpackedFloat.Accuracy) :
    UnpackedFloat.roundWithAccuracy spec s m e a ≠ .notANumber := by
  rw [UnpackedFloat.roundWithAccuracy]
  dsimp only
  split <;> simp

theorem round_ne_nan (s : UnpackedFloat.Sign) (m : Nat) (e : Int) :
    UnpackedFloat.round spec s m e ≠ .notANumber := roundWithAccuracy_ne_nan _ _ _ _

theorem ofNat_ne_nan (n : Nat) : UnpackedFloat.ofNat spec n ≠ .notANumber := by
  rw [UnpackedFloat.ofNat, UnpackedFloat.ofInt, UnpackedFloat.normalize]
  split
  · exact round_ne_nan _ _ _
  · exact nofun
  · exact round_ne_nan _ _ _

theorem neg_ne_nan (h : x ≠ .notANumber) : x.neg ≠ .notANumber := by
  cases x with
  | notANumber => exact absurd rfl h
  | _ => exact nofun

/-- Only an exponent of all ones belongs to no number. -/
theorem unpack_packComponents_ne_nan {s : UnpackedFloat.Sign} {e : BitVec spec.exponentBits}
    {m : BitVec spec.mantissaBitsWithoutImplicit} (he : e ≠ -1#_) :
    unpack spec (packComponents spec s e m) ≠ .notANumber := by
  rw [unpack, unpackExponent_packComponents, if_neg he]
  split
  · split <;> exact nofun
  · exact nofun

theorem zero_ne_allOnes : BitVec.ofNat spec.exponentBits 0 ≠ -1#_ := by
  have := spec.he
  simp
  omega

theorem unpack_pack_ne_nan (h : x ≠ .notANumber) : unpack spec (pack spec x) ≠ .notANumber := by
  have hinfinity : ∀ s, unpack spec (packedInfinity spec s) ≠ .notANumber := fun s => by
    simp [unpack, packedInfinity]
  cases x with
  | notANumber => exact absurd rfl h
  | infinity s => exact hinfinity s
  | zero s => exact unpack_packComponents_ne_nan zero_ne_allOnes
  | finite s m e hm =>
    rw [pack]
    split
    · exact hinfinity s
    · rename_i hsmall
      split
      · refine unpack_packComponents_ne_nan fun hones => ?_
        rw [BitVec.neg_one_eq_allOnes, ← BitVec.toNat_inj, BitVec.toNat_ofNat,
          BitVec.toNat_allOnes, Nat.mod_eq_of_lt (by omega)] at hones
        omega
      · exact unpack_packComponents_ne_nan zero_ne_allOnes

theorem mul_ne_nan (h : x ≠ .notANumber) (hy : isRegular y = true) :
    UnpackedFloat.mul spec x y ≠ .notANumber := by
  cases y with
  | finite s m e hm =>
    cases x with
    | notANumber => exact absurd rfl h
    | finite => exact roundWithAccuracy_ne_nan _ _ _ _
    | _ => exact nofun
  | _ => cases hy

theorem div_ne_nan (h : x ≠ .notANumber) (hy : isRegular y = true) :
    UnpackedFloat.div spec x y ≠ .notANumber := by
  cases y with
  | finite s m e hm =>
    cases x with
    | notANumber => exact absurd rfl h
    | finite => exact roundWithAccuracy_ne_nan _ _ _ _
    | _ => exact nofun
  | _ => cases hy

theorem ofScientific_ne_nan (m : Nat) (e : Int) :
    UnpackedFloat.ofScientific spec m e ≠ .notANumber := by
  rw [UnpackedFloat.ofScientific]
  split
  · exact nofun
  · split
    · exact nofun
    · split
      · exact nofun
      · split
        · exact mul_ne_nan nofun rfl
        · exact div_ne_nan nofun rfl

/-! ## Decimal numbers in single precision -/

theorem isNaN_ofModel (h : x ≠ .notANumber) : (Float32.ofModel (.pack x)).isNaN = false :=
  isNaN_eq_false_iff.2 (unpack_pack_ne_nan h)

theorem isNaN_neg {a : Float32} (h : a.isNaN = false) : (-a).isNaN = false :=
  isNaN_ofModel (neg_ne_nan (isNaN_eq_false_iff.1 h))

theorem isRegular_powers : ∀ e : Fin 11,
    isRegular (form (getElem Float32.exactlyRepresentablePowersOfTen e.val (by
      simp [Float32.exactlyRepresentablePowersOfTen]))) = true := by decide

theorem isNaN_ofScientific (m : Nat) (s : Bool) (e : Nat) :
    (OfScientific.ofScientific m s e : Float32).isNaN = false := by
  show (Float32.ofScientific m s e).isNaN = false
  rw [Float32.ofScientific]
  split
  · rename_i h
    have hpower := isRegular_powers ⟨e, by omega⟩
    have hcount : form m.toUInt64.toFloat32 ≠ .notANumber := unpack_pack_ne_nan (ofNat_ne_nan _)
    split
    · exact isNaN_ofModel (div_ne_nan hcount hpower)
    · exact isNaN_ofModel (mul_ne_nan hcount hpower)
  · exact isNaN_ofModel (ofScientific_ne_nan _ _)

end Binary32

/-! ## Double precision -/

namespace Binary64

open Binary32

variable {x y : Float}

theorem isNaN_eq_false_iff : x.isNaN = false ↔ x.toModel.unpack ≠ .notANumber := by
  rw [← Bool.not_eq_true, not_iff_not]
  exact UnpackedFloat.isNaN_iff

theorem isNaN_of_isFinite (h : x.isFinite = true) : x.isNaN = false := by
  rw [isNaN_eq_false_iff]
  intro hx
  have hfinite : x.toModel.unpack.isFinite = true := h
  rw [hx] at hfinite
  cases hfinite

theorem isNaN_ofModel {x : UnpackedFloat} (h : x ≠ .notANumber) :
    (Float.ofModel (.pack x)).isNaN = false :=
  isNaN_eq_false_iff.2 (unpack_pack_ne_nan h)

theorem isNaN_neg (h : x.isNaN = false) : (-x).isNaN = false :=
  isNaN_ofModel (neg_ne_nan (isNaN_eq_false_iff.1 h))

theorem isNaN_div (h : x.isNaN = false) (hy : isRegular y.toModel.unpack = true) :
    (x / y).isNaN = false :=
  isNaN_ofModel (div_ne_nan (isNaN_eq_false_iff.1 h) hy)

theorem isRegular_powers : ∀ e : Fin 23,
    isRegular (getElem Float.exactlyRepresentablePowersOfTen e.val (by
      simp [Float.exactlyRepresentablePowersOfTen])).toModel.unpack = true := by decide

theorem isNaN_ofScientific (m : Nat) (s : Bool) (e : Nat) :
    (OfScientific.ofScientific m s e : Float).isNaN = false := by
  show (Float.ofScientific m s e).isNaN = false
  rw [Float.ofScientific]
  split
  · rename_i h
    have hpower := isRegular_powers ⟨e, by omega⟩
    have hcount : m.toUInt64.toFloat.isNaN = false := isNaN_ofModel (ofNat_ne_nan _)
    split
    · exact isNaN_div hcount hpower
    · exact isNaN_ofModel (mul_ne_nan (isNaN_eq_false_iff.1 hcount) hpower)
  · exact isNaN_ofModel (ofScientific_ne_nan _ _)

end Binary64

/-- **Rounding to single precision** makes no number into none. -/
theorem Binary32.isNaN_ofDouble {x : Float} (h : x.isNaN = false) :
    (ofDouble x).isNaN = false := by
  have hx := Binary64.isNaN_eq_false_iff.1 h
  rw [ofDouble]
  refine isNaN_ofModel ?_
  cases hform : x.toModel.unpack with
  | notANumber => exact absurd hform hx
  | finite => exact round_ne_nan _ _ _
  | _ => exact nofun

/-! ## Numbers in texts -/

theorem Decimal.isNaN_toSingle (d : Decimal) : d.toSingle.isNaN = false := by
  have hsize : ∀ size : Float32, size.isNaN = false →
      (if d.negative then -size else size).isNaN = false := fun size h => by
    split
    · exact Binary32.isNaN_neg h
    · exact h
  refine hsize _ ?_
  split
  · exact Binary32.isNaN_ofScientific _ _ _
  · split
    · rfl
    · split <;> exact Binary32.isNaN_ofScientific _ _ _

namespace Json.NumberText

open Binary64

/-- The most significant bit of a number that got `p` bits more. -/
theorem log2_shifted {x p k : Nat} (hx : 0 < x) (hk : x < 2 ^ k) :
    p ≤ ((1 <<< p) * x).log2 ∧ ((1 <<< p) * x).log2 < p + k := by
  rw [Nat.one_shiftLeft]
  have hpos : 2 ^ p * x ≠ 0 := (Nat.mul_pos (Nat.two_pow_pos p) hx).ne'
  rw [Nat.le_log2 hpos, Nat.log2_lt hpos, Nat.pow_add]
  exact ⟨Nat.le_mul_of_pos_right _ hx, Nat.mul_lt_mul_of_pos_left hk (Nat.two_pow_pos p)⟩

theorem isRegular_ofScientific {n : Nat} (hn : n < 308) : Binary32.isRegular
    (unpack .binary64 (pack .binary64 (UnpackedFloat.ofScientific .binary64 1 n))) = true := by
  have hsize : 10 ^ n < 2 ^ 1023 :=
    lt_of_le_of_lt (Nat.pow_le_pow_right (by decide) (Nat.lt_succ_iff.1 hn)) (by decide +kernel)
  obtain ⟨hleast, hmost⟩ := log2_shifted (p := 53) (Nat.pow_pos (by decide : 0 < 10)) hsize
  have htotal : Float.Model.totalExponent ((1 <<< 53) * 10 ^ n) (-53 + 0) =
    ((1 <<< 53) * 10 ^ n).log2 + 1 + (-53 + 0) := rfl
  rw [UnpackedFloat.ofScientific, dif_neg Nat.one_ne_zero, if_neg, if_neg, if_pos]
  · refine Binary32.isRegular_roundWithAccuracy _ _ (Nat.le_succ_of_le hleast) ?_ ?_
    · show 2 ≤ Float.Model.totalExponent ((1 <<< 53) * 10 ^ n) (-53 + 0) + 1023
      omega
    · show Float.Model.totalExponent ((1 <<< 53) * 10 ^ n) (-53 + 0) + 1023 + 1 < 2048
      omega
  · exact Int.natCast_nonneg n
  · show ¬ (n : Int) < -(2048 + 0)
    omega
  · show ¬ 2048 < (n : Int)
    omega

/-- **All powers of ten in range** are finite and not zero. -/
theorem isRegular_powerOfTen {n : Nat} (hn : n ≤ 308) :
    Binary32.isRegular (powerOfTen n).toModel.unpack = true := by
  have hsmall : ∀ e : Fin 23, Binary32.isRegular (powerOfTen e).toModel.unpack = true := by
    decide +kernel
  obtain hn | rfl := Nat.lt_or_eq_of_le hn
  · by_cases hexact : n < 23
    · exact hsmall ⟨n, hexact⟩
    · have hslow : powerOfTen n = .ofModel (.ofScientific 1 n) := by
        show Float.ofScientific 1 false n = _
        rw [Float.ofScientific, dif_neg fun h => hexact (Nat.lt_succ_iff.2 h.2)]
        rfl
      rw [hslow]
      exact isRegular_ofScientific hn
  · decide +kernel

theorem isNaN_divide {x : Float} (h : x.isNaN = false) (n : Nat) :
    (divide x n).isNaN = false := by
  fun_induction divide x n with
  | case1 x n hn => exact isNaN_div h (isRegular_powerOfTen hn)
  | case2 x n hn hzero => exact h
  | case3 x n hn hzero ih => exact ih (isNaN_div h (isRegular_powerOfTen (le_refl 308)))

theorem isNaN_multiply? {x y : Float} (hx : x.isNaN = false) {n : Nat}
    (h : multiply? x n = some y) : y.isNaN = false := by
  rw [multiply?] at h
  dsimp only at h
  split at h
  · split at h
    · cases h
      exact isNaN_of_isFinite ‹_›
    · cases h
  · split at h
    · cases h
      exact hx
    · cases h

theorem toDouble?_isNaN {n : NumberText} {x : Float} (h : n.toDouble? = some x) :
    x.isNaN = false := by
  rw [toDouble?] at h
  obtain ⟨size, hsize, rfl⟩ := Option.map_eq_some_iff.1 h
  have hnumber : size.isNaN = false := by
    split at hsize
    · cases hsize
      exact isNaN_divide (isNaN_ofScientific _ _ _) _
    · exact isNaN_multiply? (isNaN_ofScientific _ _ _) hsize
  split
  · exact isNaN_neg hnumber
  · exact hnumber

/-- **A number in a JSON text** is never read as no number. -/
theorem toSingle?_isNaN {n : NumberText} {x : Float32} (h : n.toSingle? = some x) :
    x.isNaN = false := by
  rw [toSingle?] at h
  split at h
  · cases h
    exact Decimal.isNaN_toSingle _
  · obtain ⟨y, hy, rfl⟩ := Option.map_eq_some_iff.1 h
    exact Binary32.isNaN_ofDouble (toDouble?_isNaN hy)

end Json.NumberText

namespace Json5

/-- **In a JSON5 text** only the literal for it is read as no number. -/
theorem double?_isNaN {sign : Option Char} {form : Form} {x : Float}
    (h : double? sign form = some x) (hx : x.isNaN = true) : form = .nan := by
  have hno : x.isNaN ≠ false := by rw [hx]; exact nofun
  cases form with
  | nan => rfl
  | hex n =>
    rw [double?] at h
    split at h
    · cases h
      exact absurd (Binary64.isNaN_ofScientific _ _ _) hno
    · cases h
  | decimal d whole =>
    rw [double?] at h
    split at h
    · cases h
      exact absurd (Binary64.isNaN_of_isFinite ‹_›) hno
    · cases h
  | infinity =>
    simp only [double?] at h
    split at h
    · cases h
      exact absurd rfl hno
    · cases h
      exact absurd rfl hno
    · cases h

end Json5

end NestedLayout
