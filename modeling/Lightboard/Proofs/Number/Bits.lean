import Lightboard.Number.Binary64
import Mathlib

/-!
# Floats and their bits

A float is given by its bits, and there is just one float that is not a number. So `Float.ofBits`
undoes `Float.toBits` always, and the other way round for bits that stand for a number or an
infinity.

The fields of a float are read here as parts of the natural number that its bits write.
-/

namespace Lightboard.Number

open Float.Model Float.Model.UnpackedFloat

section

variable (b : BitVec 64)

theorem unpackMantissa_toNat : (@unpackMantissa Format.binary64 b).toNat = b.toNat % 2 ^ 52 := by
  simp [unpackMantissa]

theorem unpackExponent_toNat :
    (@unpackExponent Format.binary64 b).toNat = b.toNat / 2 ^ 52 % 2 ^ 11 := by
  simp [unpackExponent, Nat.shiftRight_eq_div_pow]

theorem unpackSign_toNat : (@unpackSign Format.binary64 b).toNat = b.toNat / 2 ^ 63 := by
  have bound := b.isLt
  simp only [unpackSign, BitVec.toNat_cast, BitVec.extractLsb_toNat, Nat.shiftRight_eq_div_pow]
  omega

end

theorem sign_toNat (s : BitVec 1) : (Sign.ofBitVec s).toBitVec.toNat = s.toNat := by
  revert s
  decide

theorem packComponents_toNat (s : Sign) (e : BitVec 11) (m : BitVec 52) :
    (packComponents Format.binary64 s e m).toNat =
      s.toBitVec.toNat * 2 ^ 63 + e.toNat * 2 ^ 52 + m.toNat := by
  have small : e.toNat < 2 ^ 11 := e.isLt
  have tiny : m.toNat < 2 ^ 52 := m.isLt
  simp only [packComponents, BitVec.toNat_append]
  rw [← Nat.shiftLeft_add_eq_or_of_lt tiny, ← Nat.shiftLeft_add_eq_or_of_lt small]
  simp only [Nat.shiftLeft_eq]
  omega

/-- The sum of the fields gives the bits back. -/
theorem packComponents_fields {b : BitVec 64} {e : BitVec 11} {m : BitVec 52}
    (exponent : e.toNat = b.toNat / 2 ^ 52 % 2 ^ 11) (mantissa : m.toNat = b.toNat % 2 ^ 52) :
    packComponents Format.binary64 (Sign.ofBitVec (@unpackSign Format.binary64 b)) e m = b := by
  apply BitVec.eq_of_toNat_eq
  rw [packComponents_toNat, sign_toNat, unpackSign_toNat, exponent, mantissa]
  have bound := b.isLt
  omega

theorem pack_unpack {b : BitVec 64} (valid : Format.binary64.Valid b) :
    UnpackedFloat.pack Format.binary64 (UnpackedFloat.unpack Format.binary64 b) = b := by
  have exponent := unpackExponent_toNat b
  have mantissa := unpackMantissa_toNat b
  have small : (@unpackMantissa Format.binary64 b).toNat < 2 ^ 52 := BitVec.isLt _
  have few : (@unpackExponent Format.binary64 b).toNat < 2 ^ 11 := BitVec.isLt _
  have bias : Format.binary64.exponentBias = 1023 := rfl
  unfold UnpackedFloat.unpack
  simp only
  split
  · next full =>
    split
    · next zero =>
      refine packComponents_fields ?_ ?_
      · rw [← exponent, full]
      · rw [← mantissa, zero]
        rfl
    · next nonzero => exact (valid.eq_packedNaN full nonzero).symm
  · next notFull =>
    split
    · next empty =>
      split
      · next zero =>
        refine packComponents_fields ?_ ?_
        · rw [← exponent, empty]
          rfl
        · rw [← mantissa, zero]
          rfl
      · next nonzero =>
        have log : (@unpackMantissa Format.binary64 b).toNat.log2 < 52 :=
          (Nat.log2_lt (by simpa [BitVec.toNat_eq] using nonzero)).2 small
        unfold UnpackedFloat.pack
        simp only [empty, bias]
        rw [if_neg (by decide), if_neg (by change ¬ _ + 1 = 53; omega)]
        refine packComponents_fields ?_ ?_
        · rw [← exponent, empty]
        · rw [← mantissa]
          simp
    · next nonempty =>
      have below : (@unpackExponent Format.binary64 b).toNat ≠ 2047 := by
        intro full
        exact notFull (BitVec.eq_of_toNat_eq full)
      have leading : (1#1 ++ @unpackMantissa Format.binary64 b).toNat =
          2 ^ 52 + (@unpackMantissa Format.binary64 b).toNat := by
        rw [BitVec.toNat_append, ← Nat.shiftLeft_add_eq_or_of_lt small]
        rfl
      have log : (1#1 ++ @unpackMantissa Format.binary64 b).toNat.log2 = 52 := by
        rw [leading, Nat.log2_eq_iff (by omega)]
        omega
      have biased : ((@unpackExponent Format.binary64 b).toNat - ((1023 : Nat) + (52 : Nat) : Int) +
          (1023 : Nat) + (52 : Nat)).toNat = (@unpackExponent Format.binary64 b).toNat := by
        omega
      unfold UnpackedFloat.pack
      simp only [bias]
      rw [biased, if_neg (by change ¬ 2048 ≤ _; omega), if_pos (by rw [log]; rfl)]
      refine packComponents_fields ?_ ?_
      · rw [← exponent]
        simp
      · rw [← mantissa, leading, BitVec.toNat_ofNat]
        omega

@[simp] theorem ofBits_toBits (x : Float) : Float.ofBits x.toBits = x := by
  obtain ⟨bits, valid⟩ := x
  have same : Float.Model.ofBits bits = ⟨bits, valid⟩ := by
    unfold Float.Model.ofBits Float.Model.pack
    congr
    exact pack_unpack valid
  exact congrArg Float.ofModel same

/-- Bits of a number or an infinity are kept. -/
theorem toBits_ofBits {bits : Nat} (word : bits < 2 ^ 64)
    (number : bits / leadingBit % 2048 ≠ 2047 ∨ bits % leadingBit = 0) :
    (Float.ofBits (UInt64.ofNat bits)).toBits.toNat = bits := by
  have toNat : (UInt64.ofNat bits).toBitVec.toNat = bits := UInt64.toNat_ofNat_of_lt word
  have valid : Format.binary64.Valid (UInt64.ofNat bits).toBitVec := by
    refine ⟨fun full nonzero => ?_⟩
    have exponent := congrArg BitVec.toNat full
    have mantissa : (@unpackMantissa Format.binary64 (UInt64.ofNat bits).toBitVec).toNat ≠ 0 :=
      fun zero => nonzero (BitVec.eq_of_toNat_eq zero)
    rw [unpackExponent_toNat, toNat] at exponent
    rw [unpackMantissa_toNat, toNat] at mantissa
    change _ = 2047 at exponent
    unfold leadingBit at number
    omega
  change (UInt64.ofBitVec (UnpackedFloat.pack Format.binary64
    (UnpackedFloat.unpack Format.binary64 (UInt64.ofNat bits).toBitVec))).toNat = bits
  rw [pack_unpack valid]
  exact toNat

end Lightboard.Number
