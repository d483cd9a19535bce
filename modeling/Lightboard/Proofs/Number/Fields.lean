import Lightboard.Proofs.Number.Bits

/-!
# The finite floats

A finite float is a sign, a mantissa and an exponent. The mantissa has 53 bits, except at the bottom
of the range, where it may have fewer. `ofFields` builds a float from these parts and `exact` takes
it apart.
-/

namespace Lightboard.Number

/-- The mantissas and exponents of finite floats. -/
structure IsFinite (m : Nat) (e : Int) : Prop where
  mantissa_lt : m < 2 ^ 53
  exponent_ge : -1074 ≤ e
  exponent_le : e ≤ 971
  leading : 2 ^ 52 ≤ m ∨ e = -1074

/-- The bits of a magnitude `m · 2 ^ e`. -/
def fieldBits (m : Nat) (e : Int) : Nat :=
  if m < leadingBit then m else (e + 1075).toNat * leadingBit + (m - leadingBit)

def signBits (neg : Bool) : Nat := if neg then signBit else 0

/-- The float `± m · 2 ^ e`. -/
def ofFields (neg : Bool) (m : Nat) (e : Int) : Float :=
  Float.ofBits (UInt64.ofNat (signBits neg + fieldBits m e))

theorem signBits_cases (neg : Bool) :
    neg = false ∧ signBits neg = 0 ∨ neg = true ∧ signBits neg = 2 ^ 63 := by
  cases neg
  · exact .inl ⟨rfl, rfl⟩
  · exact .inr ⟨rfl, rfl⟩

/-- The bits of a finite float: either a small mantissa, or the field of an exponent and what is
left of the mantissa without its leading bit. -/
theorem IsFinite.fieldBits_eq {m : Nat} {e : Int} (h : IsFinite m e) :
    (m < 2 ^ 52 ∧ e = -1074 ∧ fieldBits m e = m) ∨
      ∃ field fraction, 1 ≤ field ∧ field < 2047 ∧ fraction < 2 ^ 52 ∧ e = (field : Int) - 1075 ∧
        m = 2 ^ 52 + fraction ∧ fieldBits m e = field * 2 ^ 52 + fraction := by
  obtain ⟨small, low, high, leading⟩ := h
  unfold fieldBits leadingBit
  split
  · exact .inl ⟨by omega, by omega, rfl⟩
  · exact .inr ⟨(e + 1075).toNat, m - 2 ^ 52, by omega, by omega, by omega, by omega,
      by omega, by omega⟩

theorem fieldBits_lt {m : Nat} {e : Int} (h : IsFinite m e) : fieldBits m e < 2047 * 2 ^ 52 := by
  obtain ⟨small, -, same⟩ | ⟨field, fraction, -, fieldLt, fractionLt, -, -, same⟩ := h.fieldBits_eq
  · omega
  · omega

/-- A mantissa that grew by a bit is a power of two with the next exponent. -/
theorem fieldBits_carry {e : Int} (low : -1074 ≤ e) :
    fieldBits (2 ^ 53) e = fieldBits (2 ^ 52) (e + 1) := by
  unfold fieldBits leadingBit
  rw [if_neg (by decide), if_neg (by decide)]
  omega

theorem ofFields_bits {m : Nat} {e : Int} (h : IsFinite m e) (neg : Bool) :
    (ofFields neg m e).toBits.toNat = signBits neg + fieldBits m e := by
  have below := fieldBits_lt h
  have sign := signBits_cases neg
  refine toBits_ofBits (by omega) (.inl ?_)
  unfold leadingBit
  omega

/-- Taking a float apart gives the parts it was built from. -/
theorem exact_ofFields {m : Nat} {e : Int} (h : IsFinite m e) (neg : Bool) :
    exact (ofFields neg m e) = .finite neg m e := by
  have below := fieldBits_lt h
  unfold exact
  simp only [ofFields_bits h]
  have sign : decide (signBit ≤ signBits neg + fieldBits m e) = neg := by
    unfold signBit
    obtain ⟨rfl, same⟩ | ⟨rfl, same⟩ := signBits_cases neg
    · exact decide_eq_false (by omega)
    · exact decide_eq_true (by omega)
  have bits := signBits_cases neg
  rw [sign]
  unfold leadingBit
  obtain ⟨small, rfl, same⟩ | ⟨field, fraction, one, fieldLt, fractionLt, rfl, rfl, same⟩ :=
    h.fieldBits_eq
  · rw [if_neg (by omega), if_pos (by omega)]
    congr
    omega
  · rw [if_neg (by omega), if_neg (by omega)]
    congr
    · omega
    · omega

/-- Every finite float is built from the parts it is taken apart into. -/
theorem exact_eq_finite {x : Float} {neg : Bool} {m : Nat} {e : Int}
    (h : exact x = .finite neg m e) :
    IsFinite m e ∧ x = ofFields neg m e := by
  obtain ⟨bits, same⟩ : ∃ bits, x.toBits.toNat = bits := ⟨_, rfl⟩
  have word : bits < 2 ^ 64 := same ▸ x.toBits.toNat_lt
  unfold exact at h
  simp only [leadingBit, signBit, same] at h
  have parts : IsFinite m e ∧ bits = signBits neg + fieldBits m e := by
    unfold signBits fieldBits signBit leadingBit
    by_cases full : bits / 4503599627370496 % 2048 = 2047
    · rw [if_pos full] at h
      split at h <;> cases h
    · rw [if_neg full] at h
      by_cases empty : bits / 4503599627370496 % 2048 = 0
      · rw [if_pos empty] at h
        cases h
        refine ⟨⟨by omega, by omega, by omega, .inr rfl⟩, ?_⟩
        simp only [decide_eq_true_eq]
        split <;> split <;> omega
      · rw [if_neg empty] at h
        cases h
        refine ⟨⟨by omega, by omega, by omega, .inl (by omega)⟩, ?_⟩
        simp only [decide_eq_true_eq]
        split <;> split <;> omega
  refine ⟨parts.1, ?_⟩
  unfold ofFields
  rw [← parts.2, ← same, UInt64.ofNat_toNat, ofBits_toBits]

end Lightboard.Number
