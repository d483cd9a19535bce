import Lightboard.Number.Decimal
import Lightboard.Proofs.Number.Fields
import Mathlib.Algebra.Order.Field.Power
import Mathlib.Algebra.Order.Field.Rat
import Mathlib.Tactic.FieldSimp
import Mathlib.Tactic.Linarith
import Mathlib.Tactic.Positivity
import Mathlib.Tactic.Ring

/-!
# Rounding to the nearest float

Rounding works on quotients of whole numbers. Here they are read as rationals: `nearest` finds the
last place of a rational and rounds to a whole number of such places. The main result is
`nearest_eq`: a rational that lies in the neighbourhood of a finite float is rounded to that float.
-/

namespace Lightboard.Number

section

variable {base : Nat}

theorem quotient_den_pos (m : Nat) (e : Int) (positive : 0 < base) : 0 < (quotient base m e).2 := by
  unfold quotient
  split
  · exact Nat.one_pos
  · exact Nat.pow_pos positive

theorem quotient_eq (m : Nat) (e : Int) (positive : 0 < base) :
    ((quotient base m e).1 / (quotient base m e).2 : ℚ) = m * (base : ℚ) ^ e := by
  have nonzero : (base : ℚ) ≠ 0 := by positivity
  unfold quotient
  split
  · next up =>
    have exponent : ((e.toNat : Nat) : Int) = e := Int.toNat_of_nonneg up
    conv_rhs => rw [← exponent, zpow_natCast]
    simp
  · next down =>
    have exponent : e = -(((-e).toNat : Nat) : Int) := by omega
    conv_rhs => rw [exponent, zpow_neg, zpow_natCast]
    simp [div_eq_mul_inv]

theorem inUnits_den_pos {num den : Nat} (e : Int) (positive : 0 < base) (hd : 0 < den) :
    0 < (inUnits base num den e).2 := by
  unfold inUnits
  split
  · exact Nat.mul_pos hd (Nat.pow_pos positive)
  · exact hd

theorem inUnits_eq (num den : Nat) (e : Int) (positive : 0 < base) :
    ((inUnits base num den e).1 / (inUnits base num den e).2 : ℚ) =
      num / den * (base : ℚ) ^ (-e) := by
  have nonzero : (base : ℚ) ≠ 0 := by positivity
  unfold inUnits
  split
  · next up =>
    have exponent : -e = -((e.toNat : Nat) : Int) := by omega
    conv_rhs => rw [exponent, zpow_neg, zpow_natCast]
    simp only [Nat.pow_eq, Nat.cast_mul, Nat.cast_pow]
    rw [div_mul_eq_div_div, div_eq_mul_inv (_ / _)]
  · next down =>
    have exponent : -e = (((-e).toNat : Nat) : Int) := by omega
    conv_rhs => rw [exponent, zpow_natCast]
    simp [div_mul_eq_mul_div]

end

/-- Rounding goes at most half a unit away, and by just half a unit to an even number only. -/
theorem divEven_spec {num den : Nat} (positive : 0 < den) :
    2 * num ≤ (2 * divEven num den + 1) * den ∧ 2 * divEven num den * den ≤ 2 * num + den ∧
      (divEven num den % 2 = 1 →
        2 * num < (2 * divEven num den + 1) * den ∧ 2 * divEven num den * den < 2 * num + den) := by
  have split := Nat.div_add_mod num den
  have small := Nat.mod_lt num positive
  unfold divEven
  simp only
  generalize num / den = q at *
  generalize num % den = r at *
  have expand : den * (q + 1) = den * q + den := by ring
  split
  · refine ⟨?_, ?_, fun _ => ⟨?_, ?_⟩⟩ <;> nlinarith
  · split
    · refine ⟨?_, ?_, fun _ => ⟨?_, ?_⟩⟩ <;> nlinarith
    · obtain even | odd := Nat.mod_two_eq_zero_or_one q
      · rw [even]
        refine ⟨?_, ?_, fun odd => ?_⟩
        · nlinarith
        · nlinarith
        · omega
      · rw [odd]
        refine ⟨?_, ?_, fun odd => ?_⟩
        · nlinarith
        · nlinarith
        · omega

/-- Rounding does not pass a whole number. -/
theorem divEven_between {num den a b : Nat} (positive : 0 < den) (low : a * den ≤ num)
    (high : num ≤ b * den) : a ≤ divEven num den ∧ divEven num den ≤ b := by
  obtain ⟨high', low', -⟩ := @divEven_spec num den positive
  have above : 2 * a ≤ 2 * divEven num den + 1 := Nat.le_of_mul_le_mul_right (by linarith) positive
  have below : 2 * divEven num den ≤ 2 * b + 1 := Nat.le_of_mul_le_mul_right (by linarith) positive
  omega

/-- At most one whole number is as near as that. -/
theorem divEven_eq {num den m : Nat} (positive : 0 < den)
    (high : 2 * num ≤ (2 * m + 1) * den) (low : 2 * m * den ≤ 2 * num + den)
    (tie : m % 2 = 1 → 2 * num < (2 * m + 1) * den ∧ 2 * m * den < 2 * num + den) :
    divEven num den = m := by
  obtain ⟨high', low', tie'⟩ := @divEven_spec num den positive
  generalize divEven num den = q at *
  rcases Nat.lt_trichotomy q m with below | same | above
  · have next : m ≤ q + 1 := Nat.le_of_mul_le_mul_right (by linarith) positive
    obtain rfl : m = q + 1 := by omega
    -- The quotient would be just between the two, one of which is odd.
    obtain odd | odd : q % 2 = 1 ∨ (q + 1) % 2 = 1 := by omega
    · linarith [(tie' odd).1]
    · linarith [(tie odd).2]
  · exact same
  · have next : q ≤ m + 1 := Nat.le_of_mul_le_mul_right (by linarith) positive
    obtain rfl : q = m + 1 := by omega
    obtain odd | odd : m % 2 = 1 ∨ (m + 1) % 2 = 1 := by omega
    · linarith [(tie odd).1]
    · linarith [(tie' odd).2]

/-- The same for a quotient given as a rational. -/
theorem divEven_eq_of_between {num den m : Nat} {y : ℚ} (positive : 0 < den)
    (value : (num / den : ℚ) = y)
    (low : m - 1 / 2 ≤ y) (high : y ≤ m + 1 / 2)
    (tie : m % 2 = 1 → m - 1 / 2 < y ∧ y < m + 1 / 2) : divEven num den = m := by
  have denPos : (0 : ℚ) < den := by exact_mod_cast positive
  have scaled : (num : ℚ) = y * den := by rw [← value, div_mul_cancel₀ _ denPos.ne']
  refine divEven_eq positive ?_ ?_ ?_
  · have : (2 * num : ℚ) ≤ (2 * m + 1) * den := by nlinarith
    exact_mod_cast this
  · have : (2 * m * den : ℚ) ≤ 2 * num + den := by nlinarith
    exact_mod_cast this
  · intro odd
    obtain ⟨low', high'⟩ := tie odd
    constructor
    · have : (2 * num : ℚ) < (2 * m + 1) * den := by nlinarith
      exact_mod_cast this
    · have : (2 * m * den : ℚ) < 2 * num + den := by nlinarith
      exact_mod_cast this

theorem log2_bounds {n : Nat} (positive : 0 < n) :
    (2 : ℚ) ^ (n.log2 : Int) ≤ n ∧ (n : ℚ) < 2 ^ ((n.log2 : Int) + 1) := by
  have low : 2 ^ n.log2 ≤ n := Nat.log2_self_le (by omega)
  have high : n < 2 ^ (n.log2 + 1) := Nat.lt_log2_self
  constructor
  · rw [zpow_natCast]
    exact_mod_cast low
  · rw [← Nat.cast_succ, zpow_natCast]
    exact_mod_cast high

/-- A quotient has 53 bits when counted in its last place, or fewer at the bottom of the range. -/
theorem lastPlace_spec {num den : Nat} (hn : 0 < num) (hd : 0 < den) :
    ∃ e, lastPlace num den = max e (-1074) ∧
      (2 : ℚ) ^ 52 ≤ num / den * 2 ^ (-e) ∧ (num / den * 2 ^ (-e) : ℚ) < 2 ^ 53 := by
  obtain ⟨numLow, numHigh⟩ := log2_bounds hn
  obtain ⟨denLow, denHigh⟩ := log2_bounds hd
  have denPos : (0 : ℚ) < den := by exact_mod_cast hd
  unfold lastPlace
  simp only
  generalize guessed : (num.log2 : Int) - den.log2 - 52 = guess
  have units := @inUnits_eq 2 num den guess (by decide)
  have unitsPos := @inUnits_den_pos 2 num den guess (by decide) hd
  -- The first guess has 52 or 53 bits.
  have scaled : (2 : ℚ) ^ 51 < num / den * 2 ^ (-guess) ∧
    (num / den * 2 ^ (-guess) : ℚ) < 2 ^ 53 := by
    have aPos : (0 : ℚ) < 2 ^ (num.log2 : Int) := by positivity
    have bPos : (0 : ℚ) < 2 ^ (den.log2 : Int) := by positivity
    have scale : (2 : ℚ) ^ (-guess) = 2 ^ 52 * 2 ^ (den.log2 : Int) / 2 ^ (num.log2 : Int) := by
      rw [← guessed, neg_sub, zpow_sub₀ (by norm_num), zpow_sub₀ (by norm_num), div_div_eq_mul_div]
      norm_num
    rw [zpow_add₀ (by norm_num), zpow_one] at numHigh denHigh
    rw [scale, div_mul_div_comm, lt_div_iff₀ (by positivity), div_lt_iff₀ (by positivity)]
    generalize (2 : ℚ) ^ (num.log2 : Int) = a at *
    generalize (2 : ℚ) ^ (den.log2 : Int) = b at *
    constructor <;> nlinarith
  generalize inUnits 2 num den guess = units' at *
  obtain ⟨n, d⟩ := units'
  simp only at *
  have floor : n / d < leadingBit ↔ (num / den * 2 ^ (-guess) : ℚ) < 2 ^ 52 := by
    rw [Nat.cast_ofNat] at units
    rw [← units, div_lt_iff₀ (by exact_mod_cast unitsPos), Nat.div_lt_iff_lt_mul unitsPos]
    unfold leadingBit
    norm_cast
  split
  · next low =>
    refine ⟨guess - 1, rfl, ?_⟩
    have double : (num / den * 2 ^ (-(guess - 1)) : ℚ) = 2 * (num / den * 2 ^ (-guess)) := by
      rw [neg_sub, sub_eq_add_neg, zpow_add₀ (by norm_num)]
      ring
    have := floor.1 low
    rw [double]
    constructor <;> linarith
  · next high =>
    refine ⟨guess, rfl, ?_, scaled.2⟩
    exact not_lt.1 fun low => high (floor.2 low)

theorem nearest_eq_ofFields (neg : Bool) {num den q : Nat} {e : Int} (hn : 0 < num)
    (place : lastPlace num den = e)
    (rounded : divEven (inUnits 2 num den e).1 (inUnits 2 num den e).2 = q)
    (below : fieldBits q e ≤ 2047 * leadingBit) : nearest neg num den = ofFields neg q e := by
  unfold nearest
  simp only [place, rounded]
  rw [if_neg (by omega)]
  change Float.ofBits (UInt64.ofNat (signBits neg + min (fieldBits q e) _)) = _
  rw [Nat.min_eq_left below]
  rfl

/-- A rational, counted in quarters of the last place, lies in a neighbourhood. -/
def Neighbourhood.Contains (n : Neighbourhood) (y : ℚ) : Prop :=
  if n.inclusive then n.low ≤ y ∧ y ≤ n.high else n.low < y ∧ y < n.high

/-- A neighbourhood reaches half a step to each side at most. -/
theorem neighbourhood_bounds {m : Nat} {e : Int} {y : ℚ} (hm : 0 < m)
    (inside : (neighbourhood m e).Contains (4 * y)) :
    m - 1 / 2 ≤ y ∧ y ≤ m + 1 / 2 ∧ (m % 2 = 1 → m - 1 / 2 < y ∧ y < m + 1 / 2) ∧
      (m = leadingBit → -1074 < e → m - 1 / 4 ≤ y) := by
  have low : (4 * m - 2 : ℚ) ≤ (neighbourhood m e).low := by
    have : 4 * m - 2 ≤ (neighbourhood m e).low := by
      simp only [neighbourhood]
      split <;> omega
    have cast : ((4 * m - 2 : Nat) : ℚ) = 4 * m - 2 := by
      rw [Nat.cast_sub (by omega)]
      push_cast
      ring
    rw [← cast]
    exact_mod_cast this
  have high : ((neighbourhood m e).high : ℚ) = 4 * m + 2 := by
    simp [neighbourhood]
  have closed : (neighbourhood m e).low ≤ 4 * y ∧ 4 * y ≤ (neighbourhood m e).high := by
    unfold Neighbourhood.Contains at inside
    split at inside
    · exact inside
    · exact ⟨inside.1.le, inside.2.le⟩
  refine ⟨by linarith, by linarith, ?_, ?_⟩
  · intro odd
    have isOpen : (neighbourhood m e).inclusive = false := by
      simp [neighbourhood, odd]
    rw [Neighbourhood.Contains, isOpen] at inside
    simp only [Bool.false_eq_true, if_false] at inside
    constructor <;> linarith
  · intro leading above
    have low' : (neighbourhood m e).low = 4 * m - 1 := by
      simp [neighbourhood, leading, above]
    have cast : ((4 * m - 1 : Nat) : ℚ) = 4 * m - 1 := by
      rw [Nat.cast_sub (by omega)]
      push_cast
      ring
    rw [low', cast] at closed
    linarith

theorem scaled_shift (x : ℚ) (e k : Int) : x * 2 ^ (-(e - k)) = x * 2 ^ (-e) * 2 ^ k := by
  rw [mul_assoc, ← zpow_add₀ (by norm_num)]
  congr 2
  ring

theorem scaled_back (x : ℚ) (e : Int) : x * 2 ^ (-e) * 2 ^ e = x := by
  rw [mul_assoc, ← zpow_add₀ (by norm_num), neg_add_cancel, zpow_zero, mul_one]

/-- A quotient just below a power of two is rounded up to it, though it is counted in steps half as
wide. -/
theorem nearest_eq_of_carry (neg : Bool) {num den : Nat} {e : Int} (finite : IsFinite leadingBit e)
    (hn : 0 < num) (hd : 0 < den) (above : -1074 < e) (below : lastPlace num den = e - 1)
    (low : (2 ^ 52 - 1 / 4 : ℚ) ≤ num / den * 2 ^ (-e))
    (high : (num / den * 2 ^ (-e) : ℚ) ≤ 2 ^ 52) :
    nearest neg num den = ofFields neg leadingBit e := by
  have carried : fieldBits (2 ^ 53) (e - 1) = fieldBits leadingBit e := by
    rw [fieldBits_carry (by omega)]
    congr
    omega
  have fits := fieldBits_lt finite
  rw [nearest_eq_ofFields neg hn below ?_ (by rw [carried]; exact fits.le)]
  · unfold ofFields
    rw [carried]
  · have units := @inUnits_eq 2 num den (e - 1) (by decide)
    have positive := @inUnits_den_pos 2 num den (e - 1) (by decide) hd
    refine divEven_eq_of_between positive (y := num / den * 2 ^ (-e) * 2) ?_ ?_ ?_ ?_
    · rw [units, Nat.cast_ofNat, scaled_shift, zpow_one]
    · push_cast
      linarith
    · push_cast
      linarith
    · intro odd
      norm_num at odd

/-- What lies in the neighbourhood of a finite float is rounded to it. -/
theorem nearest_eq (neg : Bool) {num den m : Nat} {e : Int} (finite : IsFinite m e) (hm : 0 < m)
    (hn : 0 < num) (hd : 0 < den)
    (inside : (neighbourhood m e).Contains (4 * (num / den * 2 ^ (-e)))) :
    nearest neg num den = ofFields neg m e := by
  obtain ⟨low, high, tie, leading⟩ := neighbourhood_bounds hm inside
  obtain ⟨e', place, low', high'⟩ := lastPlace_spec hn hd
  obtain ⟨k, rfl⟩ : ∃ k, e' = e - k := ⟨e - e', by ring⟩
  rw [scaled_shift] at low' high'
  have mantissa : (m : ℚ) ≤ 2 ^ 53 - 1 := by
    have next : ((m + 1 : Nat) : ℚ) ≤ 2 ^ 53 := by exact_mod_cast finite.mantissa_lt
    push_cast at next
    linarith
  have least : (1 : ℚ) ≤ m := by exact_mod_cast hm
  -- The last place of the quotient is not above that of the float,
  have notAbove : 0 ≤ k := by
    by_contra above
    have step : (2 : ℚ) ^ k ≤ 2 ^ (-1 : Int) := zpow_le_zpow_right₀ (by norm_num) (by omega)
    rw [zpow_neg_one] at step
    nlinarith
  by_cases same : lastPlace num den = e
  · -- and if it is the same, the quotient is rounded to the mantissa.
    refine nearest_eq_ofFields neg hn same ?_ (fieldBits_lt finite).le
    refine divEven_eq_of_between (@inUnits_den_pos 2 num den e (by decide) hd) ?_ low high tie
    rw [@inUnits_eq 2 num den e (by decide), Nat.cast_ofNat]
  · -- Otherwise the float is a power of two, and the quotient lies just below it.
    have above : -1074 < e ∧ 1 ≤ k := by
      have := finite.exponent_ge
      rcases max_choice (e - k) (-1074) with left | right
      · omega
      · omega
    have half : (num / den * 2 ^ (-e) : ℚ) < 2 ^ 52 := by
      have step : (2 : ℚ) ^ (1 : Int) ≤ 2 ^ k := zpow_le_zpow_right₀ (by norm_num) above.2
      rw [zpow_one] at step
      nlinarith
    obtain rfl : m = leadingBit := by
      have : m ≤ 2 ^ 52 := by
        have : (m : ℚ) < ((2 ^ 52 + 1 : Nat) : ℚ) := by
          push_cast
          linarith
        exact Nat.lt_succ_iff.1 (by exact_mod_cast this)
      have := finite.leading
      unfold leadingBit
      omega
    have value : ((leadingBit : Nat) : ℚ) = 2 ^ 52 := by norm_num [leadingBit]
    have near := leading rfl above.1
    rw [value] at near
    obtain rfl : k = 1 := by
      by_contra more
      have step : (2 : ℚ) ^ (2 : Int) ≤ 2 ^ k := zpow_le_zpow_right₀ (by norm_num) (by omega)
      norm_num at step
      nlinarith
    have below : lastPlace num den = e - 1 := by
      rw [place]
      omega
    exact nearest_eq_of_carry neg finite hn hd above.1 below near half.le

end Lightboard.Number
