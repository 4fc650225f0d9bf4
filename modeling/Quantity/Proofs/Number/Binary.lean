import Quantity.Number.Binary
import Mathlib

/-!
# Products, signs and parts of binary numbers

Binary numbers are multiplied by their significands and exponents, and rounded afterwards, so the
order of the factors makes no difference (`float_mul_comm`, `float32_mul_comm`). A change of sign
leaves all other bits alone (`pack_neg`), so a finite number stays finite and can be changed back.
A finite number has finite parts when it is taken apart (`Binary.isFinite_ofFloat`,
`Binary.isFinite_ofFloat32`).
-/

namespace Quantity.Number

open Float.Model Float.Model.UnpackedFloat

/-! ### Products -/

theorem sign_mul_comm (a b : Sign) : a * b = b * a := by
  cases a <;> cases b <;> rfl

theorem unpacked_mul_comm (spec : Format) (a b : UnpackedFloat) : a.mul spec b = b.mul spec a := by
  cases a <;> cases b <;> unfold UnpackedFloat.mul <;> dsimp only <;>
    simp only [sign_mul_comm, Nat.mul_comm, Int.add_comm]

theorem float_mul_comm (a b : Float) : a * b = b * a :=
  congrArg (fun x => Float.ofModel (Float.Model.pack x)) (unpacked_mul_comm _ _ _)

theorem float32_mul_comm (a b : Float32) : a * b = b * a :=
  congrArg (fun x => Float32.ofModel (Float32.Model.pack x)) (unpacked_mul_comm _ _ _)

/-! ### Signs -/

section Sign

variable {spec : Format}

theorem isFinite_unpack_iff : (unpack spec b).isFinite = true ↔ unpackExponent b ≠ -1#_ := by
  unfold UnpackedFloat.unpack
  by_cases h : unpackExponent b = -1#_
  · rw [if_pos h]
    refine iff_of_false ?_ (absurd h)
    by_cases hmantissa : unpackMantissa b = 0#_
    · rw [if_pos hmantissa]
      exact Bool.false_ne_true
    · rw [if_neg hmantissa]
      exact Bool.false_ne_true
  · rw [if_neg h]
    refine iff_of_true ?_ h
    by_cases hzero : unpackExponent b = 0#_
    · rw [if_pos hzero]
      by_cases hmantissa : unpackMantissa b = 0#_
      · rw [dif_pos hmantissa]
        rfl
      · rw [dif_neg hmantissa]
        rfl
    · rw [if_neg hzero]
      rfl

/-- The bits of the number with the other sign. -/
def flip (spec : Format) (b : BitVec spec.numBits) : BitVec spec.numBits :=
  packComponents spec (-Sign.ofBitVec (unpackSign b)) (unpackExponent b) (unpackMantissa b)

theorem flip_flip (b : BitVec spec.numBits) : flip spec (flip spec b) = b := by
  have hneg (s : Sign) : - -s = s := by cases s <;> rfl
  unfold flip
  rw [unpackSign_packComponents, unpackExponent_packComponents, unpackMantissa_packComponents,
    Sign.ofBitVec_toBitVec, hneg, packComponents_unpackSign_unpackExponent_unpackMantissa]

theorem unpack_flip (h : (unpack spec b).isFinite = true) :
    unpack spec (flip spec b) = (unpack spec b).neg := by
  have hfinite := isFinite_unpack_iff.mp h
  unfold flip UnpackedFloat.unpack
  simp only [unpackSign_packComponents, unpackExponent_packComponents,
    unpackMantissa_packComponents, Sign.ofBitVec_toBitVec, if_neg hfinite]
  split_ifs <;> rfl

/-- **A change of sign leaves the other bits alone.** -/
theorem pack_neg (spec : Format) (he : 2 ≤ spec.exponentBits) {b : BitVec spec.numBits}
    (h : (unpack spec b).isFinite = true) : pack spec (unpack spec b).neg = flip spec b := by
  have hfinite : isNaNBits (flip spec b) = false := by
    simp [isNaNBits, flip, isFinite_unpack_iff.mp h]
  rw [← unpack_flip h, pack_unpack _ he, hfinite]
  rfl

theorem isFinite_unpack_flip (h : (unpack spec b).isFinite = true) :
    (unpack spec (flip spec b)).isFinite = true := by
  rw [isFinite_unpack_iff, flip, unpackExponent_packComponents]
  exact isFinite_unpack_iff.mp h

end Sign

theorem toBits_float_neg {x : Float} (h : x.isFinite = true) :
    (-x).toBits.toBitVec = flip .binary64 x.toBits.toBitVec :=
  pack_neg .binary64 (by decide) h

theorem toBits_float32_neg {x : Float32} (h : x.isFinite = true) :
    (-x).toBits.toBitVec = flip .binary32 x.toBits.toBitVec :=
  pack_neg .binary32 (by decide) h

theorem isFinite_float_neg {x : Float} (h : x.isFinite = true) : (-x).isFinite = true := by
  show (unpack .binary64 (-x).toBits.toBitVec).isFinite = true
  rw [toBits_float_neg h]
  exact isFinite_unpack_flip h

theorem isFinite_float32_neg {x : Float32} (h : x.isFinite = true) : (-x).isFinite = true := by
  show (unpack .binary32 (-x).toBits.toBitVec).isFinite = true
  rw [toBits_float32_neg h]
  exact isFinite_unpack_flip h

theorem float_neg_neg {x : Float} (h : x.isFinite = true) : - -x = x := by
  refine Float.toBits_inj.mp (UInt64.toBitVec_inj.mp ?_)
  rw [toBits_float_neg (isFinite_float_neg h), toBits_float_neg h, flip_flip]

theorem float32_neg_neg {x : Float32} (h : x.isFinite = true) : - -x = x := by
  refine Float32.toBits_inj.mp (UInt32.toBitVec_inj.mp ?_)
  rw [toBits_float32_neg (isFinite_float32_neg h), toBits_float32_neg h, flip_flip]

/-! ### Parts -/

section Parts

variable {spec : Format} (b : BitVec spec.numBits)

theorem toNat_unpackMantissa :
    (unpackMantissa b).toNat = b.toNat % twoPow spec.mantissaBitsWithoutImplicit := by
  rw [unpackMantissa_def]
  rfl

/-- The bits of the exponent stand between those of the sign and the fraction. -/
theorem toNat_unpackExponent : (unpackExponent b).toNat =
    b.toNat / twoPow spec.mantissaBitsWithoutImplicit % twoPow spec.exponentBits := by
  rw [unpackExponent_def, BitVec.extractLsb'_toNat, Nat.shiftRight_eq_div_pow]
  rfl

theorem toNat_unpackSign : (unpackSign b).toNat =
    b.toNat / twoPow (spec.mantissaBitsWithoutImplicit + spec.exponentBits) % 2 := by
  rw [unpackSign_def, BitVec.extractLsb'_toNat, Nat.shiftRight_eq_div_pow]
  rfl

end Parts

namespace Binary

def IsFinite (b : Binary) : Prop :=
  ∃ negative significand exponent wideBelow, b = .finite negative significand exponent wideBelow

theorem isFinite_ofBits {spec : Format} {b : BitVec spec.numBits}
    (h : (unpack spec b).isFinite = true) :
    (ofBits ⟨spec.mantissaBitsWithoutImplicit, spec.exponentBits⟩ b.toNat).IsFinite := by
  have hfield : b.toNat / twoPow spec.mantissaBitsWithoutImplicit % twoPow spec.exponentBits ≠
      twoPow spec.exponentBits - 1 := by
    intro hones
    refine isFinite_unpack_iff.mp h (BitVec.eq_of_toNat_eq ?_)
    rw [toNat_unpackExponent, hones, BitVec.neg_one_eq_allOnes]
    rfl
  unfold ofBits
  rw [if_neg hfield]
  split_ifs
  · exact ⟨_, _, _, _, rfl⟩
  · exact ⟨_, _, _, _, rfl⟩

theorem ofBits_flip {spec : Format} {b : BitVec spec.numBits} {negative wideBelow : Bool}
    {significand : Nat} {exponent : Int}
    (h : ofBits ⟨spec.mantissaBitsWithoutImplicit, spec.exponentBits⟩ b.toNat =
      .finite negative significand exponent wideBelow) :
    ofBits ⟨spec.mantissaBitsWithoutImplicit, spec.exponentBits⟩ (flip spec b).toNat =
      .finite (!negative) significand exponent wideBelow := by
  have hsign (v : BitVec 1) : ((-Sign.ofBitVec v).toBitVec.toNat == 1) = !(v.toNat == 1) := by
    decide +revert
  unfold ofBits at h ⊢
  dsimp only at h ⊢
  rw [← toNat_unpackMantissa, ← toNat_unpackExponent, ← toNat_unpackSign] at h ⊢
  rw [flip, unpackMantissa_packComponents, unpackExponent_packComponents,
    unpackSign_packComponents, hsign]
  split_ifs at h ⊢ <;> cases h <;> rfl

theorem isFinite_ofFloat (h : x.isFinite = true) : (ofFloat x).IsFinite :=
  @isFinite_ofBits .binary64 x.toBits.toBitVec h

theorem isFinite_ofFloat32 (h : x.isFinite = true) : (ofFloat32 x).IsFinite :=
  @isFinite_ofBits .binary32 x.toBits.toBitVec h

variable {negative wideBelow : Bool} {significand : Nat} {exponent : Int}

theorem ofFloat_neg {x : Float} (h : x.isFinite = true)
    (hx : ofFloat x = .finite negative significand exponent wideBelow) :
    ofFloat (-x) = .finite (!negative) significand exponent wideBelow := by
  have hflip := @ofBits_flip .binary64 x.toBits.toBitVec _ _ _ _ hx
  rwa [← toBits_float_neg h] at hflip

theorem ofFloat32_neg {x : Float32} (h : x.isFinite = true)
    (hx : ofFloat32 x = .finite negative significand exponent wideBelow) :
    ofFloat32 (-x) = .finite (!negative) significand exponent wideBelow := by
  have hflip := @ofBits_flip .binary32 x.toBits.toBitVec _ _ _ _ hx
  rwa [← toBits_float32_neg h] at hflip

end Binary

end Quantity.Number
