import Lightboard.Units
import Mathlib.Data.Rat.Floor
import Mathlib.Tactic.Linarith
import Mathlib.Tactic.NormNum
import Mathlib.Tactic.Ring

/-!
# Unit conversions on rational numbers

With exact arithmetic the conversions between logical and raw colors lose at most half a raw step, and
only the first time: a raw color of whole numbers comes back as it was. Times that are whole
milliseconds are converted without loss.
-/

namespace Lightboard

/-- The integer left when the fraction of a rational number is cut off. -/
def cutOff (x : ℚ) : ℤ := if x < 0 then ⌈x⌉ else ⌊x⌋

/-- The nearest integer, a half going away from zero. -/
def nearestWhole (x : ℚ) : ℤ := if x < 0 then -⌊-x + 1 / 2⌋ else ⌊x + 1 / 2⌋

instance : Scalar ℚ where
  ofNat n := n
  add := (· + ·)
  sub := (· - ·)
  mul := (· * ·)
  div := (· / ·)
  abs x := |x|
  round x := nearestWhole x
  remainder x y := x - y * cutOff (x / y)
  least := min
  greatest := max
  lt x y := x < y
  le x y := x ≤ y
  same x y := x = y
  whole := cutOff

section

variable (x y : ℚ)

@[simp] theorem scalar_ofNat (n : Nat) : (Scalar.ofNat n : ℚ) = n := rfl
@[simp] theorem scalar_add : Scalar.add x y = x + y := rfl
@[simp] theorem scalar_mul : Scalar.mul x y = x * y := rfl
@[simp] theorem scalar_div : Scalar.div x y = x / y := rfl
@[simp] theorem scalar_round : Scalar.round x = (nearestWhole x : ℚ) := rfl
@[simp] theorem scalar_remainder : Scalar.remainder x y = x - y * cutOff (x / y) := rfl
@[simp] theorem scalar_lt : Scalar.lt x y = decide (x < y) := rfl
@[simp] theorem scalar_whole : Scalar.whole x = cutOff x := rfl

end

theorem nearestWhole_intCast (n : ℤ) : nearestWhole n = n := by
  have half : ⌊(1 / 2 : ℚ)⌋ = 0 := by norm_num
  unfold nearestWhole
  split
  · rw [← Int.cast_neg, Int.floor_intCast_add, half]
    ring
  · rw [Int.floor_intCast_add, half, add_zero]

theorem abs_nearestWhole_sub_le (x : ℚ) : |(nearestWhole x : ℚ) - x| ≤ 1 / 2 := by
  unfold nearestWhole
  rw [abs_le]
  split
  · have low := Int.floor_le (-x + 1 / 2)
    have high := Int.lt_floor_add_one (-x + 1 / 2)
    push_cast
    constructor <;> linarith
  · have low := Int.floor_le (x + 1 / 2)
    have high := Int.lt_floor_add_one (x + 1 / 2)
    constructor <;> linarith

theorem nearestWhole_nonneg {x : ℚ} (h : 0 ≤ x) : 0 ≤ nearestWhole x := by
  unfold nearestWhole
  rw [if_neg (not_lt.mpr h)]
  exact Int.floor_nonneg.mpr (by linarith)

theorem cutOff_of_nonneg {x : ℚ} (h : 0 ≤ x) : cutOff x = ⌊x⌋ := if_neg (not_lt.mpr h)

theorem cutOff_of_proper {x : ℚ} (nonneg : 0 ≤ x) (below : x < 1) : cutOff x = 0 := by
  rw [cutOff_of_nonneg nonneg, Int.floor_eq_zero_iff]
  exact ⟨nonneg, below⟩

theorem cutOff_intCast (n : ℤ) : cutOff n = n := by
  unfold cutOff
  split
  · exact Int.ceil_intCast n
  · exact Int.floor_intCast n

namespace Units

theorem normalHue_eq (h : ℚ) : normalHue h =
    if h - 360 * cutOff (h / 360) < 0 then h - 360 * cutOff (h / 360) + 360
    else h - 360 * cutOff (h / 360) := by
  simp only [normalHue, turn, scalar_remainder, scalar_lt, scalar_add, scalar_ofNat, Nat.cast_ofNat,
    Nat.cast_zero, decide_eq_true_eq]

/-- A hue is brought into one turn by whole turns. -/
theorem normalHue_spec (h : ℚ) :
    0 ≤ normalHue h ∧ normalHue h < 360 ∧ ∃ k : ℤ, normalHue h = h - 360 * k := by
  rw [normalHue_eq]
  have turns : h = 360 * (h / 360) := by ring
  by_cases below : h / 360 < 0
  · have cut : cutOff (h / 360) = ⌈h / 360⌉ := if_pos below
    have high := Int.le_ceil (h / 360)
    have low := Int.ceil_lt_add_one (h / 360)
    rw [cut]
    split
    · refine ⟨by linarith, by linarith, ⌈h / 360⌉ - 1, ?_⟩
      push_cast
      ring
    · exact ⟨by linarith, by linarith, ⌈h / 360⌉, rfl⟩
  · have cut : cutOff (h / 360) = ⌊h / 360⌋ := if_neg below
    have low := Int.floor_le (h / 360)
    have high := Int.lt_floor_add_one (h / 360)
    rw [cut, if_neg (by linarith)]
    exact ⟨by linarith, by linarith, ⌊h / 360⌋, rfl⟩

theorem normalHue_of_mem {h : ℚ} (nonneg : 0 ≤ h) (below : h < 360) : normalHue h = h := by
  have none : cutOff (h / 360) = 0 := cutOff_of_proper (by positivity) (by linarith)
  rw [normalHue_eq, none, Int.cast_zero, mul_zero, sub_zero, if_neg (not_lt.mpr nonneg)]

/-- A raw color of whole numbers, with the hue within one turn. -/
structure IsWhole (c : Channels ℚ) : Prop where
  first : ∃ n : Nat, n < 65536 ∧ c.first = n
  second : ∃ n : ℤ, c.second = n
  third : ∃ n : ℤ, c.third = n
  kelvin : ∃ n : ℤ, c.kelvin = n

theorem logicalToRaw_eq (c : Channels ℚ) : logicalToRaw c =
    { first := nearestWhole (normalHue c.first / 360 * 65536) -
        65536 * cutOff (nearestWhole (normalHue c.first / 360 * 65536) / 65536)
      second := nearestWhole (c.second / 100 * 65535)
      third := nearestWhole (c.third / 100 * 65535)
      kelvin := nearestWhole c.kelvin } := by
  simp only [logicalToRaw, turn, hueSteps, rawMax, percent, scalar_remainder, scalar_round, scalar_mul,
    scalar_div, scalar_ofNat, Nat.cast_ofNat]

theorem rawToLogical_eq (c : Channels ℚ) : rawToLogical c =
    { first := c.first / 65536 * 360
      second := c.second / 65535 * 100
      third := c.third / 65535 * 100
      kelvin := c.kelvin } := by
  simp only [rawToLogical, turn, hueSteps, rawMax, percent, scalar_mul, scalar_div, scalar_ofNat,
    Nat.cast_ofNat]

/-- The step that completes a turn is the first one again. -/
theorem wrap_spec {n : ℤ} (nonneg : 0 ≤ n) (le : n ≤ 65536) :
    ∃ k : Nat, k < 65536 ∧ (n : ℚ) - 65536 * cutOff (n / 65536) = k ∧ ∃ w : ℤ, n = k + 65536 * w := by
  have nonneg' : (0 : ℚ) ≤ n := by exact_mod_cast nonneg
  obtain below | rfl := lt_or_eq_of_le le
  · have below' : (n : ℚ) < 65536 := by exact_mod_cast below
    have none : cutOff ((n : ℚ) / 65536) = 0 := cutOff_of_proper (by positivity) (by linarith)
    refine ⟨n.toNat, by omega, ?_, 0, by omega⟩
    rw [none, Int.cast_zero, mul_zero, sub_zero]
    exact_mod_cast (Int.toNat_of_nonneg nonneg).symm
  · have one : cutOff (((65536 : ℤ) : ℚ) / 65536) = 1 := by
      have := cutOff_intCast 1
      norm_num at this ⊢
      exact this
    exact ⟨0, by decide, by rw [one]; norm_num, 1, by norm_num⟩

theorem nearestStep_le {x : ℚ} (below : x < 65536) : nearestWhole x ≤ 65536 := by
  have close := (abs_le.mp (abs_nearestWhole_sub_le x)).2
  have bound : (nearestWhole x : ℚ) < 65537 := by linarith
  have bound' : nearestWhole x < 65537 := by exact_mod_cast bound
  omega

/-- A hue of the logical kind as a step of the raw one, up to whole turns. -/
theorem rawHue_spec (c : Channels ℚ) : ∃ n : Nat, n < 65536 ∧ (logicalToRaw c).first = n ∧
    ∃ k : ℤ, |(n : ℚ) / 65536 * 360 - c.first - 360 * k| ≤ 180 / 65536 := by
  obtain ⟨nonneg, below, k, turns⟩ := normalHue_spec c.first
  have nonneg' : 0 ≤ normalHue c.first / 360 * 65536 := by positivity
  have below' : normalHue c.first / 360 * 65536 < 65536 := by linarith
  obtain ⟨n, small, wrapped, w, step⟩ := wrap_spec (nearestWhole_nonneg nonneg') (nearestStep_le below')
  refine ⟨n, small, by rw [logicalToRaw_eq]; exact wrapped, -k - w, ?_⟩
  have close := abs_nearestWhole_sub_le (normalHue c.first / 360 * 65536)
  have step' : (nearestWhole (normalHue c.first / 360 * 65536) : ℚ) = n + 65536 * w := by
    exact_mod_cast step
  rw [step', turns, abs_le] at close
  rw [abs_le]
  push_cast
  constructor <;> linarith [close.1, close.2]

theorem isWhole_logicalToRaw (c : Channels ℚ) : IsWhole (logicalToRaw c) := by
  obtain ⟨n, small, hue, -⟩ := rawHue_spec c
  rw [logicalToRaw_eq] at hue ⊢
  exact ⟨⟨n, small, hue⟩, ⟨_, rfl⟩, ⟨_, rfl⟩, ⟨_, rfl⟩⟩

/-- A raw color of whole numbers comes back from logical units as it was. -/
theorem logicalToRaw_rawToLogical {c : Channels ℚ} (h : IsWhole c) :
    logicalToRaw (rawToLogical c) = c := by
  obtain ⟨first, second, third, kelvin⟩ := c
  obtain ⟨⟨n, small, rfl⟩, ⟨s, rfl⟩, ⟨b, rfl⟩, ⟨k, rfl⟩⟩ := h
  have small' : (n : ℚ) < 65536 := by exact_mod_cast small
  have hue : normalHue ((n : ℚ) / 65536 * 360) = n / 65536 * 360 :=
    normalHue_of_mem (by positivity) (by linarith)
  have steps : (n : ℚ) / 65536 * 360 / 360 * 65536 = ((n : ℤ) : ℚ) := by
    push_cast
    ring
  have percent (x : ℤ) : (x : ℚ) / 65535 * 100 / 100 * 65535 = x := by ring
  have none : cutOff (((n : ℤ) : ℚ) / 65536) = 0 := by
    push_cast
    exact cutOff_of_proper (by positivity) (by linarith)
  rw [logicalToRaw_eq, rawToLogical_eq]
  simp only [hue, steps, percent, nearestWhole_intCast, none]
  simp

/-- Colors that differ by no more than half a raw step: on the circle of hues, and in percent. -/
structure IsNear (c c' : Channels ℚ) : Prop where
  hue : ∃ k : ℤ, |c'.first - c.first - 360 * k| ≤ 180 / 65536
  saturation : |c'.second - c.second| ≤ 50 / 65535
  brightness : |c'.third - c.third| ≤ 50 / 65535

theorem isNear_refl (c : Channels ℚ) : IsNear c c :=
  ⟨⟨0, by norm_num⟩, by norm_num, by norm_num⟩

theorem abs_percent_sub_le (x : ℚ) :
    |(nearestWhole (x / 100 * 65535) : ℚ) / 65535 * 100 - x| ≤ 50 / 65535 := by
  have close := abs_le.mp (abs_nearestWhole_sub_le (x / 100 * 65535))
  rw [abs_le]
  constructor <;> linarith [close.1, close.2]

theorem isNear_rawToLogical (c : Channels ℚ) : IsNear c (rawToLogical (logicalToRaw c)) := by
  obtain ⟨n, -, hue, near⟩ := rawHue_spec c
  rw [rawToLogical_eq]
  refine ⟨by rwa [hue], ?_, ?_⟩
  · rw [logicalToRaw_eq]
    exact abs_percent_sub_le c.second
  · rw [logicalToRaw_eq]
    exact abs_percent_sub_le c.third

theorem toWord16_natCast (w : UInt16) : toWord16 (w.toNat : ℚ) = w := by
  have nonneg : ¬ (((w.toNat : ℤ) : ℚ) < 0) := by
    push_cast
    exact not_lt.mpr (by positivity)
  have small : ¬ ((65535 : ℚ) < ((w.toNat : ℤ) : ℚ)) := by
    have bound := w.toNat_lt
    rw [not_lt]
    exact_mod_cast (by omega : w.toNat ≤ 65535)
  have rounded : nearestWhole (w.toNat : ℚ) = w.toNat := by exact_mod_cast nearestWhole_intCast w.toNat
  simp only [toWord16, rawMax, scalar_round, scalar_lt, scalar_ofNat, scalar_whole, rounded,
    Nat.cast_zero, Nat.cast_ofNat, nonneg, small, cutOff_intCast, decide_false, Bool.false_eq_true,
    if_false]
  have bound := w.toNat_lt
  rw [UInt16.ofInt, Int.emod_eq_of_lt (by omega) (by omega), Int.toNat_natCast, UInt16.ofNat_toNat]

theorem seconds_eq (mode : UnitMode) (t : ℚ) :
    seconds mode t = if mode = .raw then t / 1000 else t := by
  simp only [seconds, second, scalar_div, scalar_ofNat, Nat.cast_ofNat]

/-- A time in some mode is a whole number of milliseconds. -/
def IsWholeMillis (mode : UnitMode) (t : ℚ) : Prop := ∃ n : ℤ, 1000 * seconds mode t = n

/-- Whole milliseconds mean the same in every mode. -/
theorem seconds_convertTime {start : UnitMode} (goal : UnitMode) {t : ℚ}
    (whole : IsWholeMillis start t) : seconds goal (convertTime start goal t) = seconds start t := by
  obtain ⟨n, whole⟩ := whole
  rw [seconds_eq] at whole
  unfold convertTime
  split
  · next same => rw [same]
  · next different =>
    split
    · next raw =>
      rw [if_neg fun start => different (start.trans raw.symm)] at whole
      rw [raw, seconds_eq, seconds_eq, if_pos rfl, if_neg fun start => different (start.trans raw.symm)]
      simp only [second, scalar_round, scalar_mul, scalar_ofNat, Nat.cast_ofNat]
      rw [mul_comm t, whole, nearestWhole_intCast, ← whole]
      ring
    · next notRaw =>
      rw [seconds_eq, seconds_eq, if_neg notRaw]
      split
      · simp only [second, scalar_div, scalar_ofNat, Nat.cast_ofNat]
      · rfl

end Units

end Lightboard
