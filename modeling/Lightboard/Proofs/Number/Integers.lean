import Lightboard.Proofs.Number.Rounding

/-!
# Integers as floats

An integer becomes the float with its 53 leading bits. So integers up to `2 ^ 53` are kept, and
beyond that an integer comes back as the multiple of its last place that it was rounded to.
-/

namespace Lightboard.Number

/-- A natural number rounded to 53 significant bits, a half going to the even neighbour. -/
def roundedNat (n : Nat) : Nat :=
  let place := 2 ^ (n.log2 - 52)
  divEven n place * place

/-- An integer rounded to 53 significant bits, a half going to the even neighbour. -/
def rounded (n : Int) : Int := n.sign * roundedNat n.natAbs

/-- An integer that a 64-bit word can hold. -/
def FitsWord (n : Int) : Prop := leastWord ≤ n ∧ n ≤ greatestWord

instance (n : Int) : Decidable (FitsWord n) := inferInstanceAs (Decidable (_ ∧ _))

theorem word_of_fits {n : Int} (h : FitsWord n) : word n = n := by
  unfold word word?
  rw [if_pos (by exact h)]
  rfl

theorem word_of_not_fits {n : Int} (h : ¬ FitsWord n) : word n = leastWord := by
  unfold word word?
  rw [if_neg (by exact h)]
  rfl

theorem divEven_mul {n place : Nat} (positive : 0 < place) (divides : place ∣ n) :
    divEven n place * place = n := by
  have none : n % place = 0 := Nat.mod_eq_zero_of_dvd divides
  unfold divEven
  simp only [none]
  rw [if_pos (by omega)]
  exact Nat.div_mul_cancel divides

theorem roundedNat_of_dvd {n : Nat} (divides : 2 ^ (n.log2 - 52) ∣ n) : roundedNat n = n :=
  divEven_mul (Nat.two_pow_pos _) divides

/-- A number of 53 bits with zeros behind them is kept. -/
theorem roundedNat_mul_pow {m : Nat} (small : m < 2 ^ 53) (k : Nat) :
    roundedNat (m * 2 ^ k) = m * 2 ^ k := by
  apply roundedNat_of_dvd
  have bound : (m * 2 ^ k).log2 - 52 ≤ k := by
    by_cases zero : m * 2 ^ k = 0
    · simp [zero]
    · have : (m * 2 ^ k).log2 < 53 + k := by
        rw [Nat.log2_lt zero, Nat.pow_add]
        exact Nat.mul_lt_mul_of_pos_right small (Nat.two_pow_pos k)
      omega
  exact Dvd.dvd.mul_left (Nat.pow_dvd_pow 2 bound) m

theorem roundedNat_of_le {n : Nat} (small : n ≤ 2 ^ 53) : roundedNat n = n := by
  obtain below | rfl : n < 2 ^ 53 ∨ n = 2 ^ 53 := by omega
  · simpa using roundedNat_mul_pow below 0
  · exact @roundedNat_mul_pow 1 (by decide) 53

theorem rounded_of_natAbs {n : Int} (kept : roundedNat n.natAbs = n.natAbs) : rounded n = n := by
  rw [rounded, kept]
  exact Int.sign_mul_natAbs n

/-- Integers up to `2 ^ 53` are kept. -/
theorem rounded_of_le {n : Int} (small : n.natAbs ≤ 2 ^ 53) : rounded n = n :=
  rounded_of_natAbs (roundedNat_of_le small)

theorem wholePart_eq {m : Nat} {e : Int} {v : Nat} (value : (m * 2 ^ e : ℚ) = v) :
    wholePart m e = v := by
  have positive := @quotient_den_pos 2 m e (by decide)
  have same := @quotient_eq 2 m e (by decide)
  unfold wholePart
  generalize quotient 2 m e = q at *
  obtain ⟨num, den⟩ := q
  simp only at *
  rw [Nat.cast_ofNat, value, div_eq_iff (by exact_mod_cast positive.ne')] at same
  have whole : num = v * den := by exact_mod_cast same
  rw [whole, Nat.mul_div_cancel v positive]

/-- A natural number with a sign. -/
def signed (neg : Bool) (v : Nat) : Int := if neg then -v else v

theorem truncate_ofFields {neg : Bool} {m : Nat} {e : Int} (finite : IsFinite m e) {v : Nat}
    (value : (m * 2 ^ e : ℚ) = v) (fits : FitsWord (signed neg v)) :
    truncate (ofFields neg m e) = signed neg v := by
  unfold truncate
  rw [exact_ofFields finite]
  simp only [wholePart_eq value]
  exact word_of_fits fits

theorem lastPlace_nat {n : Nat} (positive : 0 < n) : lastPlace n 1 = (n.log2 : Int) - 52 := by
  obtain ⟨e, place, low, high⟩ := lastPlace_spec positive Nat.one_pos
  obtain ⟨low', high'⟩ := log2_bounds positive
  rw [Nat.cast_one, div_one, zpow_neg, ← div_eq_mul_inv] at low high
  rw [le_div_iff₀ (by positivity), ← zpow_natCast, ← zpow_add₀ (by norm_num)] at low
  rw [div_lt_iff₀ (by positivity), ← zpow_natCast, ← zpow_add₀ (by norm_num)] at high
  have below := (zpow_lt_zpow_iff_right₀ (by norm_num : (1 : ℚ) < 2)).1 (low.trans_lt high')
  have above := (zpow_lt_zpow_iff_right₀ (by norm_num : (1 : ℚ) < 2)).1 (low'.trans_lt high)
  push_cast at below above
  rw [place]
  omega

/-- Counted in its last place, a natural number is rounded to a mantissa. -/
theorem divEven_lastPlace {n : Nat} (positive : 0 < n) :
    let units := inUnits 2 n 1 ((n.log2 : Int) - 52)
    2 ^ 52 ≤ divEven units.1 units.2 ∧ divEven units.1 units.2 ≤ 2 ^ 53 ∧
      (divEven units.1 units.2 * 2 ^ ((n.log2 : Int) - 52) : ℚ) = roundedNat n := by
  have low : 2 ^ n.log2 ≤ n := Nat.log2_self_le (by omega)
  have high : n < 2 ^ (n.log2 + 1) := Nat.lt_log2_self
  unfold inUnits
  split
  · next up =>
    obtain ⟨p, exponent⟩ : ∃ p : Nat, n.log2 = 52 + p := ⟨n.log2 - 52, by omega⟩
    have place : ((n.log2 : Int) - 52) = (p : Int) := by omega
    have place' : n.log2 - 52 = p := by omega
    rw [exponent, Nat.pow_add] at low
    rw [exponent, Nat.add_right_comm, Nat.pow_add] at high
    have between := divEven_between (Nat.two_pow_pos p) low high.le
    simp only [roundedNat, place, place', Int.toNat_natCast, Nat.one_mul, zpow_natCast, Nat.pow_eq]
    exact ⟨between.1, between.2, by push_cast; rfl⟩
  · next down =>
    obtain ⟨p, exponent⟩ : ∃ p : Nat, n.log2 + p = 52 := ⟨52 - n.log2, by omega⟩
    have place : ((n.log2 : Int) - 52) = -(p : Int) := by omega
    have whole : divEven (n * 2 ^ p) 1 = n * 2 ^ p := by
      simpa using divEven_mul Nat.one_pos (one_dvd (n * 2 ^ p))
    have small : n < 2 ^ 53 := by
      refine lt_of_lt_of_le high (Nat.pow_le_pow_right (by decide) (by omega))
    simp only [place, neg_neg, Int.toNat_natCast, Nat.pow_eq, whole]
    refine ⟨?_, ?_, ?_⟩
    · rw [← exponent, Nat.pow_add]
      exact Nat.mul_le_mul_right _ low
    · have : 2 ^ 53 = 2 ^ (n.log2 + 1) * 2 ^ p := by
        rw [← Nat.pow_add]
        congr 1
        omega
      rw [this]
      exact Nat.mul_le_mul_right _ high.le
    · rw [roundedNat_of_le small.le, zpow_neg, zpow_natCast]
      push_cast
      field_simp

/-- The float nearest to a natural number that is not too large has its rounded value. -/
theorem truncate_nearest_nat (neg : Bool) {n : Nat} (positive : 0 < n)
    (fits : FitsWord (signed neg (roundedNat n))) :
    truncate (nearest neg n 1) = signed neg (roundedNat n) := by
  obtain ⟨low, high, value⟩ := divEven_lastPlace positive
  have place := lastPlace_nat positive
  have least : -52 ≤ (n.log2 : Int) - 52 := by omega
  generalize rounds : divEven (inUnits 2 n 1 ((n.log2 : Int) - 52)).1
    (inUnits 2 n 1 ((n.log2 : Int) - 52)).2 = q at *
  generalize (n.log2 : Int) - 52 = e at *
  have greatest : e ≤ 11 := by
    have bound : roundedNat n ≤ 2 ^ 63 := by
      unfold FitsWord signed leastWord greatestWord at fits
      split at fits <;> omega
    have bound' : (roundedNat n : ℚ) ≤ 2 ^ 52 * 2 ^ (11 : Int) := by
      norm_num
      exact_mod_cast bound
    have low' : (2 ^ 52 : ℚ) ≤ q := by exact_mod_cast low
    have power : (0 : ℚ) < 2 ^ e := by positivity
    rw [← value] at bound'
    refine (zpow_le_zpow_iff_right₀ (by norm_num : (1 : ℚ) < 2)).1 ?_
    nlinarith
  -- Rounding up may give one bit too many; then the float has the next exponent.
  obtain below | rfl : q < 2 ^ 53 ∨ q = 2 ^ 53 := by omega
  · have finite : IsFinite q e := ⟨below, by omega, by omega, .inl low⟩
    rw [nearest_eq_ofFields neg positive place rounds (fieldBits_lt finite).le]
    exact truncate_ofFields finite value fits
  · have finite : IsFinite (2 ^ 52) (e + 1) := ⟨by decide, by omega, by omega, .inl le_rfl⟩
    have carry := @fieldBits_carry e (by omega)
    rw [nearest_eq_ofFields neg positive place rounds
      (by rw [carry]; exact (fieldBits_lt finite).le)]
    unfold ofFields
    rw [carry]
    refine truncate_ofFields finite ?_ fits
    rw [← value, zpow_add₀ (by norm_num)]
    push_cast
    ring

/-- An integer comes back from a float as what it was rounded to. -/
theorem truncate_ofInt {n : Int} (fits : FitsWord (rounded n)) :
    truncate (ofInt n) = rounded n := by
  rcases Int.lt_trichotomy n 0 with below | rfl | above
  · have sign : rounded n = signed true (roundedNat n.natAbs) := by
      rw [rounded, Int.sign_eq_neg_one_of_neg below, neg_one_mul]
      rfl
    rw [sign] at fits ⊢
    unfold ofInt
    rw [decide_eq_true below]
    exact truncate_nearest_nat true (by omega) fits
  · have finite : IsFinite 0 (-1074) := ⟨by decide, le_rfl, by decide, .inr rfl⟩
    exact @truncate_ofFields false 0 _ finite 0 (by simp) (by decide)
  · have sign : rounded n = signed false (roundedNat n.natAbs) := by
      rw [rounded, Int.sign_eq_one_of_pos above, one_mul]
      rfl
    rw [sign] at fits ⊢
    unfold ofInt
    rw [decide_eq_false (by omega)]
    exact truncate_nearest_nat false (by omega) fits

theorem fits_word (n : Int) : FitsWord (word n) := by
  by_cases fits : FitsWord n
  · rwa [word_of_fits fits]
  · rw [word_of_not_fits fits]
    decide

theorem fits_truncate (x : Float) : FitsWord (truncate x) := by
  unfold truncate
  split
  · exact fits_word _
  · decide

theorem roundedNat_wholePart {m : Nat} (small : m < 2 ^ 53) (e : Int) :
    roundedNat (wholePart m e) = wholePart m e := by
  unfold wholePart quotient
  simp only
  split
  · simpa using roundedNat_mul_pow small e.toNat
  · exact roundedNat_of_le ((Nat.div_le_self m _).trans small.le)

/-- An integer that comes from a float is not rounded any more. -/
theorem rounded_truncate (x : Float) : rounded (truncate x) = truncate x := by
  have least : rounded leastWord = leastWord :=
    rounded_of_natAbs (@roundedNat_mul_pow 1 (by decide) 63)
  unfold truncate
  split
  · next neg m e parts =>
    obtain ⟨finite, -⟩ := exact_eq_finite parts
    change rounded (word (signed neg (wholePart m e))) = word (signed neg (wholePart m e))
    by_cases fits : FitsWord (signed neg (wholePart m e))
    · rw [word_of_fits fits]
      refine rounded_of_natAbs ?_
      have magnitude : (signed neg (wholePart m e)).natAbs = wholePart m e := by
        cases neg <;> simp [signed]
      rw [magnitude]
      exact roundedNat_wholePart finite.mantissa_lt e
    · rw [word_of_not_fits fits]
      exact least
  · exact least

end Lightboard.Number
