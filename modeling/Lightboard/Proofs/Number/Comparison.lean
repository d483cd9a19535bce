import Lightboard.Proofs.Number.Fields
import Mathlib.Algebra.Order.Field.Power
import Mathlib.Algebra.Order.Field.Rat
import Mathlib.Tactic.GCongr
import Mathlib.Tactic.Positivity
import Mathlib.Tactic.Ring

/-!
# Comparing floats

The operations on floats take them apart in their own way, into a sign, a mantissa and an exponent
with zero as a case of its own. `unpack_eq` says that these are the parts that `exact` gives. So
absolute values and comparisons can be read off the exact values.
-/

namespace Lightboard.Number

open Float.Model Float.Model.UnpackedFloat

def signOf (neg : Bool) : Sign := if neg then .negative else .positive

/-- An exact value as the operations on floats see it. -/
def Exact.unpacked : Exact → UnpackedFloat
  | .nan => .notANumber
  | .inf below => .infinity (signOf below)
  | .finite below m e => if h : 0 < m then .finite (signOf below) m e h else .zero (signOf below)

theorem unpackSign_eq (b : BitVec 64) :
    Sign.ofBitVec (@unpackSign Format.binary64 b) = signOf (decide (signBit ≤ b.toNat)) := by
  have sign := unpackSign_toNat b
  have bound := b.isLt
  unfold Sign.ofBitVec signOf signBit
  simp only [BitVec.toNat_eq, sign, decide_eq_true_eq]
  by_cases neg : 0x8000000000000000 ≤ b.toNat
  · rw [if_pos neg, if_neg]
    change ¬ b.toNat / 2 ^ 63 = 0
    omega
  · rw [if_neg neg, if_pos]
    change b.toNat / 2 ^ 63 = 0
    omega

theorem unpack_eq (x : Float) : x.toModel.unpack = (exact x).unpacked := by
  obtain ⟨b, same⟩ : ∃ b, x.toModel.toBits.toBitVec = b := ⟨_, rfl⟩
  have bits : x.toBits.toNat = b.toNat := congrArg BitVec.toNat same
  have exponent := unpackExponent_toNat b
  have mantissa := unpackMantissa_toNat b
  have sign := unpackSign_eq b
  have bias : Format.binary64.exponentBias = 1023 := rfl
  have width : Format.binary64.mantissaBitsWithoutImplicit = 52 := rfl
  have small : (@unpackMantissa Format.binary64 b).toNat < 2 ^ 52 := BitVec.isLt _
  have full : @unpackExponent Format.binary64 b = -1#_ ↔ b.toNat / leadingBit % 2048 = 2047 := by
    rw [BitVec.toNat_eq, exponent]
    rfl
  have empty : @unpackExponent Format.binary64 b = 0#_ ↔ b.toNat / leadingBit % 2048 = 0 := by
    rw [BitVec.toNat_eq, exponent]
    rfl
  have zero : @unpackMantissa Format.binary64 b = 0#_ ↔ b.toNat % leadingBit = 0 := by
    rw [BitVec.toNat_eq, mantissa]
    rfl
  unfold Float.Model.unpack UnpackedFloat.unpack exact
  simp only [same, bits, sign, full, empty, zero]
  split
  · split <;> rfl
  · split
    · split
      · next none =>
        rw [Exact.unpacked, dif_neg (by omega)]
      · next some =>
        rw [Exact.unpacked, dif_pos (by omega)]
        congr
        rw [exponent]
        change ((b.toNat / leadingBit % 2048 : Nat) : Int) - _ + 1 = _
        simp only [bias]
        omega
    · have leading : (1#1 ++ @unpackMantissa Format.binary64 b).toNat =
        leadingBit + b.toNat % leadingBit := by
        rw [BitVec.toNat_append, ← Nat.shiftLeft_add_eq_or_of_lt small, mantissa]
        rfl
      rw [Exact.unpacked, dif_pos (Nat.add_pos_left (by decide) _)]
      congr

/-- A float is determined by its exact value. -/
theorem exact_injective {x y : Float} (same : exact x = exact y) : x = y := by
  have parts : x.toModel.unpack = y.toModel.unpack := by rw [unpack_eq, unpack_eq, same]
  rw [← ofBits_toBits x, ← ofBits_toBits y]
  change Float.ofModel (Float.Model.pack x.toModel.unpack) =
    Float.ofModel (Float.Model.pack y.toModel.unpack)
  rw [parts]

theorem eq_notANumber {x : Float} (h : exact x = .nan) : x = notANumber :=
  exact_injective (h.trans (by decide +kernel))

theorem eq_infinity {x : Float} {below : Bool} (h : exact x = .inf below) :
    x = if below then negativeInfinity else positiveInfinity := by
  refine exact_injective (h.trans ?_)
  cases below <;> decide +kernel

theorem isInf_ofFields {m : Nat} {e : Int} (h : IsFinite m e) (neg : Bool) :
    (ofFields neg m e).isInf = false := by
  change (ofFields neg m e).toModel.unpack.isInf = false
  rw [unpack_eq, exact_ofFields h, Exact.unpacked]
  split <;> rfl

theorem abs_ofFields {m : Nat} {e : Int} (h : IsFinite m e) (neg : Bool) :
    (ofFields neg m e).abs = ofFields false m e := by
  have parts : (ofFields neg m e).toModel.unpack.abs = (ofFields false m e).toModel.unpack := by
    rw [unpack_eq, unpack_eq, exact_ofFields h, exact_ofFields h, Exact.unpacked, Exact.unpacked]
    split <;> rfl
  change Float.ofModel (Float.Model.pack (ofFields neg m e).toModel.unpack.abs) = _
  rw [parts]
  exact ofBits_toBits _

/-- Among positive floats the order is that of the values. -/
theorem lt_of_not_le {m n : Nat} {e f : Int} (h : IsFinite m e) (h' : IsFinite n f)
    (normal : 2 ^ 52 ≤ n)
    (less : ¬ ofFields false n f ≤ ofFields false m e) : (m * 2 ^ e : ℚ) < n * 2 ^ f := by
  have order : ((ofFields false n f).toModel.unpack.le (ofFields false m e).toModel.unpack) =
      false := by
    exact Bool.eq_false_iff.2 fun more => less (decide_eq_true more)
  rw [unpack_eq, unpack_eq, exact_ofFields h, exact_ofFields h', Exact.unpacked, Exact.unpacked,
    dif_pos (by omega)] at order
  have least : (2 ^ 52 : ℚ) ≤ n := by exact_mod_cast normal
  have mantissa : (m : ℚ) < 2 ^ 53 := by exact_mod_cast h.mantissa_lt
  split at order
  · simp only [signOf, Bool.false_eq_true, if_false, UnpackedFloat.le, UnpackedFloat.compare,
      Option.any_some]
      at order
    rcases Int.lt_trichotomy f e with above | same | below
    · rw [Int.compare_eq_lt.2 above] at order
      cases order
    · subst same
      rw [Int.compare_eq_eq.2 rfl] at order
      have fewer : m < n := by
        refine not_le.1 fun more => ?_
        have := Nat.isLE_compare.2 more
        change (compare n m).isLE = false at order
        rw [this] at order
        cases order
      have : (m : ℚ) < n := by exact_mod_cast fewer
      gcongr
    · calc (m * 2 ^ e : ℚ) < 2 ^ 53 * 2 ^ e := by gcongr
        _ = 2 ^ 52 * 2 ^ (e + 1) := by
            rw [zpow_add₀ (by norm_num)]
            ring
        _ ≤ n * 2 ^ f := by
            gcongr
            · norm_num
            · omega
  · next none =>
    have : m = 0 := by omega
    rw [this, Nat.cast_zero, zero_mul]
    positivity

/-- What is not at least `10 ^ 15` is less. -/
theorem lt_of_not_le_abs {x : Float} {neg : Bool} {m : Nat} {e : Int}
    (parts : exact x = .finite neg m e)
    (less : ¬ 1e15 ≤ x.abs) : (m * 2 ^ e : ℚ) < 10 ^ 15 := by
  obtain ⟨finite, rfl⟩ := exact_eq_finite parts
  have bound : exact 1e15 = .finite false 8000000000000000 (-3) := by decide +kernel
  obtain ⟨finite', same⟩ := exact_eq_finite bound
  rw [abs_ofFields finite, same] at less
  have := lt_of_not_le finite finite' (by decide) less
  norm_num at this ⊢
  exact this

end Lightboard.Number
