import Lightboard.Proofs.Number.Rounding
import Mathlib.Data.Nat.Cast.Order.Field

/-!
# The shortest numeral of a float

`shortest` tries one more digit at a time until a decimal lies in the neighbourhood of the float.
The main result is `shortest_spec`: with 17 digits after the leading one it has found such a
decimal, so the digits it gives are those of a decimal that is rounded back to the float.
-/

namespace Lightboard.Number

theorem decimalLength_bounds {n : Nat} (positive : 0 < n) :
    10 ^ (decimalLength n - 1) ≤ n ∧ n < 10 ^ decimalLength n := by
  have some : 0 < decimalLength n := Nat.length_toDigits_pos
  refine ⟨?_, (Nat.length_toDigits_le_iff (by decide) some).1 le_rfl⟩
  obtain one | more : decimalLength n - 1 = 0 ∨ 0 < decimalLength n - 1 := by omega
  · rw [one]
    exact positive
  · refine not_lt.1 fun less => ?_
    have := (Nat.length_toDigits_le_iff (by decide) more).2 less
    change decimalLength n ≤ _ at this
    omega

theorem pow_leadingPlace_le {num den : Nat} (hn : 0 < num) (hd : 0 < den) :
    (10 : ℚ) ^ leadingPlace num den ≤ num / den := by
  unfold leadingPlace
  split
  · next whole =>
    have positive : 0 < num / den := Nat.div_pos whole hd
    have some : 0 < decimalLength (num / den) := Nat.length_toDigits_pos
    have exponent : (decimalLength (num / den) : Int) - 1 =
      (decimalLength (num / den) - 1 : Nat) := by omega
    rw [exponent, zpow_natCast]
    calc (10 : ℚ) ^ (decimalLength (num / den) - 1)
        ≤ (num / den : Nat) := by exact_mod_cast (decimalLength_bounds positive).1
      _ ≤ num / den := Nat.cast_div_le
  · next fraction =>
    -- The inverse, rounded up, is one more than the number whose digits are counted.
    have above : den ≤ num * ((den + num - 1) / num) := by
      have := Nat.lt_mul_div_succ (den + num - 1) hn
      rw [Nat.mul_add] at this
      omega
    have two : 1 < (den + num - 1) / num := by
      by_contra one
      have : num * ((den + num - 1) / num) ≤ num * 1 := Nat.mul_le_mul_left num (by omega)
      omega
    have below := (@decimalLength_bounds ((den + num - 1) / num - 1) (by omega)).2
    have inverse : den ≤ num * 10 ^ decimalLength ((den + num - 1) / num - 1) :=
      above.trans (Nat.mul_le_mul_left num (by omega))
    have denPos : (0 : ℚ) < den := by exact_mod_cast hd
    rw [zpow_neg, zpow_natCast, inv_le_iff_one_le_mul₀ (by positivity), div_mul_eq_mul_div,
      le_div_iff₀ denPos, one_mul]
    exact_mod_cast inverse

section

variable {m : Nat} {e : Int}

/-- The two sides compare a decimal, counted in quarters of the last place, with a bound. -/
theorem sides_le_iff (c : Nat) (k : Int) (b : Nat) (e : Int) :
    ((sides c k b e).1 ≤ (sides c k b e).2 ↔ (4 * (c * 10 ^ k * 2 ^ (-e)) : ℚ) ≤ b) ∧
      ((sides c k b e).2 ≤ (sides c k b e).1 ↔ (b : ℚ) ≤ 4 * (c * 10 ^ k * 2 ^ (-e))) := by
  have decimal := @quotient_eq 10 c k (by decide)
  have bound := @quotient_eq 2 b e (by decide)
  have cdPos : (0 : ℚ) < (quotient 10 c k).2 := by
    exact_mod_cast @quotient_den_pos 10 c k (by decide)
  have bdPos : (0 : ℚ) < (quotient 2 b e).2 := by exact_mod_cast @quotient_den_pos 2 b e (by decide)
  have power : (0 : ℚ) < 2 ^ e := by positivity
  unfold sides
  simp only [← Nat.cast_le (α := ℚ)]
  push_cast at *
  generalize ((quotient 10 c k).1 : ℚ) = cn at *
  generalize ((quotient 10 c k).2 : ℚ) = cd at *
  generalize ((quotient 2 b e).1 : ℚ) = bn at *
  generalize ((quotient 2 b e).2 : ℚ) = bd at *
  have scale : (4 * (c * 10 ^ k * 2 ^ (-e)) : ℚ) = 4 * (cn / cd) / 2 ^ e := by
    rw [decimal, zpow_neg]
    ring
  have value : (b : ℚ) = bn / bd / 2 ^ e := by
    rw [bound]
    field_simp
  have cross : 4 * (cn / cd) = cn * (4 * bd) / (cd * bd) := by field_simp
  have cross' : bn / bd = bn * cd / (cd * bd) := by field_simp
  rw [scale, value, div_le_div_iff_of_pos_right power, div_le_div_iff_of_pos_right power,
    cross, cross', div_le_div_iff_of_pos_right (by positivity),
      div_le_div_iff_of_pos_right (by positivity)]
  exact ⟨Iff.rfl, Iff.rfl⟩

theorem readsBack_iff (c : Nat) (k : Int) :
    readsBack m e c k = true ↔ (neighbourhood m e).Contains (4 * (c * 10 ^ k * 2 ^ (-e))) := by
  obtain ⟨highLow, low⟩ := sides_le_iff c k (neighbourhood m e).low e
  obtain ⟨high, lowHigh⟩ := sides_le_iff c k (neighbourhood m e).high e
  unfold readsBack Neighbourhood.Contains
  simp only
  split
  · rw [Bool.and_eq_true, decide_eq_true_eq, decide_eq_true_eq, low, high]
  · rw [Bool.and_eq_true, decide_eq_true_eq, decide_eq_true_eq, ← not_le, ← not_le, highLow,
      lowHigh, not_le, not_le]

theorem divEven_eq_or (num den : Nat) :
    divEven num den = num / den ∨ divEven num den = num / den + 1 := by
  unfold divEven
  simp only
  split
  · exact .inl rfl
  · split
    · exact .inr rfl
    · omega

theorem readsBack_of_candidate? {k : Int} {c : Nat} (h : candidate? m e k = some c) :
    readsBack m e c k = true := by
  unfold candidate? at h
  simp only at h
  split at h
  · next both =>
    obtain ⟨below, above⟩ := Bool.and_eq_true_iff.1 both
    obtain rfl := Option.some.inj h
    obtain same | next := divEven_eq_or (inUnits 10 (quotient 2 m e).1 (quotient 2 m e).2 k).1
      (inUnits 10 (quotient 2 m e).1 (quotient 2 m e).2 k).2
    · rwa [same]
    · rwa [next]
  · split at h
    · next below =>
      obtain rfl := Option.some.inj h
      exact below
    · split at h
      · next above =>
        obtain rfl := Option.some.inj h
        exact above
      · cases h

/-- A quarter of a step to each side belongs to the neighbourhood in any case. -/
theorem contains_of_near {y : ℚ} (hm : 0 < m) (low : m - 1 / 4 < y) (high : y < m + 1 / 4) :
    (neighbourhood m e).Contains (4 * y) := by
  have lowest : ((neighbourhood m e).low : ℚ) ≤ 4 * m - 1 := by
    have : (neighbourhood m e).low + 1 ≤ 4 * m := by
      simp only [neighbourhood]
      split <;> omega
    have cast : ((neighbourhood m e).low : ℚ) + 1 ≤ 4 * m := by exact_mod_cast this
    linarith
  have highest : ((neighbourhood m e).high : ℚ) = 4 * m + 2 := by simp [neighbourhood]
  unfold Neighbourhood.Contains
  split
  · constructor <;> linarith
  · constructor <;> linarith

/-- Seventeen digits after the leading one are enough. -/
theorem contains_of_seventeen (finite : IsFinite m e) (hm : 0 < m) {k : Int}
    (place : (10 : ℚ) ^ (k + 17) ≤ m * 2 ^ e) {num den : Nat} (hd : 0 < den)
    (value : (num / den : ℚ) = m * 2 ^ e * 10 ^ (-k)) :
    (neighbourhood m e).Contains (4 * (divEven num den * 10 ^ k * 2 ^ (-e))) := by
  obtain ⟨high, low, -⟩ := @divEven_spec num den hd
  have denPos : (0 : ℚ) < den := by exact_mod_cast hd
  have high' : (num / den : ℚ) ≤ divEven num den + 1 / 2 := by
    rw [div_le_iff₀ denPos]
    have : (2 * num : ℚ) ≤ (2 * divEven num den + 1) * den := by exact_mod_cast high
    linarith
  have low' : (divEven num den : ℚ) - 1 / 2 ≤ num / den := by
    rw [le_div_iff₀ denPos]
    have : (2 * divEven num den * den : ℚ) ≤ 2 * num + den := by exact_mod_cast low
    linarith
  rw [value] at high' low'
  have mantissa : (m : ℚ) < 2 ^ 53 := by exact_mod_cast finite.mantissa_lt
  have unitPos : (0 : ℚ) < 10 ^ k * 2 ^ (-e) := by positivity
  -- One unit of the last digit is less than a quarter of a step.
  have small : (10 : ℚ) ^ k * 2 ^ (-e) < 1 / 4 := by
    have scaled : (10 : ℚ) ^ k * 2 ^ (-e) * 10 ^ 17 ≤ m := by
      rw [zpow_add₀ (by norm_num)] at place
      calc (10 : ℚ) ^ k * 2 ^ (-e) * 10 ^ 17 = 10 ^ k * 10 ^ (17 : Int) * 2 ^ (-e) := by
            rw [show (10 : ℚ) ^ (17 : Int) = 10 ^ 17 from by norm_cast]
            ring
        _ ≤ m * 2 ^ e * 2 ^ (-e) := by gcongr
        _ = m := by rw [mul_assoc, ← zpow_add₀ (by norm_num)]; simp
    have enough : (2 : ℚ) ^ 53 < 10 ^ 17 / 4 := by norm_num
    linarith
  have unit : (m * 2 ^ e * 10 ^ (-k) : ℚ) * (10 ^ k * 2 ^ (-e)) = m := by
    have ten : (10 : ℚ) ^ (-k) * 10 ^ k = 1 := by rw [← zpow_add₀ (by norm_num)]; simp
    have two : (2 : ℚ) ^ e * 2 ^ (-e) = 1 := by rw [← zpow_add₀ (by norm_num)]; simp
    calc (m * 2 ^ e * 10 ^ (-k) : ℚ) * (10 ^ k * 2 ^ (-e))
        = m * (2 ^ e * 2 ^ (-e)) * (10 ^ (-k) * 10 ^ k) := by ring
      _ = m := by rw [ten, two, mul_one, mul_one]
  rw [mul_assoc (divEven num den : ℚ)]
  generalize (m * 2 ^ e * 10 ^ (-k) : ℚ) = v at *
  generalize (10 : ℚ) ^ k * 2 ^ (-e) = u at *
  refine contains_of_near hm ?_ ?_
  · nlinarith
  · nlinarith

theorem shortestFrom_spec (finite : IsFinite m e) (hm : 0 < m) {fuel : Nat} {k : Int}
    (place : (10 : ℚ) ^ (k - fuel + 17) ≤ m * 2 ^ e) :
    ∃ c k', shortestFrom m e fuel k = Digits.ofScaled c k' ∧
      (neighbourhood m e).Contains (4 * (c * 10 ^ k' * 2 ^ (-e))) := by
  induction fuel generalizing k with
  | zero =>
      rw [Nat.cast_zero, sub_zero] at place
      have positive := @quotient_den_pos 2 m e (by decide)
      have value := @inUnits_eq 10 (quotient 2 m e).1 (quotient 2 m e).2 k (by decide)
      rw [quotient_eq _ _ (by decide)] at value
      exact ⟨_, k, rfl,
        contains_of_seventeen finite hm place (inUnits_den_pos k (by decide) positive)
        (by exact_mod_cast value)⟩
  | succ fuel ih =>
      unfold shortestFrom
      split
      · next c found => exact ⟨c, k, rfl, (readsBack_iff c k).1 (readsBack_of_candidate? found)⟩
      · refine ih ?_
        convert place using 2
        push_cast
        ring

/-- The shortest digits of a float are those of a decimal in its neighbourhood. -/
theorem shortest_spec (finite : IsFinite m e) (hm : 0 < m) :
    ∃ c k, shortest m e = Digits.ofScaled c k ∧ 0 < c ∧
      (neighbourhood m e).Contains (4 * (c * 10 ^ k * 2 ^ (-e))) := by
  unfold shortest
  rw [if_neg hm.ne']
  have positive := @quotient_den_pos 2 m e (by decide)
  have value := @quotient_eq 2 m e (by decide)
  have numPos : 0 < (quotient 2 m e).1 := by
    have : (0 : ℚ) < m * 2 ^ e := by positivity
    refine Nat.pos_of_ne_zero fun zero => ?_
    rw [zero, Nat.cast_zero, zero_div, Nat.cast_ofNat] at value
    linarith
  have leading := pow_leadingPlace_le numPos positive
  rw [value] at leading
  obtain ⟨c, k, same, inside⟩ := @shortestFrom_spec m e finite hm 17
    (leadingPlace (quotient 2 m e).1 (quotient 2 m e).2) (by simpa using leading)
  refine ⟨c, k, same, Nat.pos_of_ne_zero fun zero => ?_, inside⟩
  obtain ⟨low, -⟩ := neighbourhood_bounds hm inside
  have one : (1 : ℚ) ≤ m := by exact_mod_cast hm
  rw [zero, Nat.cast_zero, zero_mul, zero_mul] at low
  linarith

end

end Lightboard.Number
