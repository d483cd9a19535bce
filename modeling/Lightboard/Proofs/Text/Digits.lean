import Lightboard.Text.Basic
import Mathlib.Data.List.Induction
import Mathlib.Data.List.TakeWhile
import Mathlib.Tactic.Ring

/-!
# Decimal digits

Digits write a number (`Text.value`), and `Text.readDigits?` reads it. The numeral of a number
writes that number and does not begin with a zero, unless it is the numeral of zero.
-/

namespace Lightboard.Text

/-- The number that decimal digits write. -/
def value (t : Text) : Nat := t.foldl (fun n b => n * 10 + digitValue b) 0

theorem isDigit_iff (b : UInt8) : isDigit b = true ↔ 48 ≤ b.toNat ∧ b.toNat ≤ 57 := by
  unfold isDigit
  rw [Bool.and_eq_true, decide_eq_true_eq, decide_eq_true_eq, UInt8.le_iff_toNat_le,
    UInt8.le_iff_toNat_le]
  rfl

/-- The byte of a digit. -/
def ofDigit (d : Nat) : UInt8 := UInt8.ofNat (48 + d)

theorem ofDigit_spec : ∀ d < 10, isDigit (ofDigit d) = true ∧ digitValue (ofDigit d) = d ∧
    (Nat.digitChar d).toUInt8 = ofDigit d ∧ (ofDigit d = ascii '0' → d = 0) := by
  decide

theorem value_foldl (start : Nat) (t : Text) :
    t.foldl (fun n b => n * 10 + digitValue b) start = start * 10 ^ t.length + value t := by
  unfold value
  induction t generalizing start with
  | nil => simp
  | cons b t ih =>
      rw [List.foldl_cons, List.foldl_cons, ih, ih (0 * 10 + digitValue b), List.length_cons,
        Nat.pow_succ]
      ring

theorem value_append (s t : Text) : value (s ++ t) = value s * 10 ^ t.length + value t := by
  conv_lhs => rw [value, List.foldl_append, value_foldl]
  rfl

theorem value_replicate_zero (n : Nat) : value (List.replicate n (ascii '0')) = 0 := by
  induction n with
  | zero => rfl
  | succ n ih =>
      rw [List.replicate_succ', value_append, ih]
      rfl

/-- Digits are read as the number they write. -/
theorem readDigits?_eq {t : Text} (digits : ∀ b ∈ t, isDigit b = true) :
    readDigits? 10 t = some (value t) := by
  have step : ∀ (t : Text) (n : Nat), (∀ b ∈ t, isDigit b = true) →
      t.foldl (fun (acc : Option Nat) b => do
        let n ← acc
        let d ← digit? b
        if d < 10 then some (n * 10 + d) else none) (some n) =
      some (t.foldl (fun n b => n * 10 + digitValue b) n) := by
    intro t
    induction t with
    | nil => exact fun n _ => rfl
    | cons b t ih =>
        intro n digits
        have digit := digits b (by simp)
        have range := (isDigit_iff b).1 digit
        have small : digitValue b < 10 := by
          unfold digitValue
          omega
        rw [List.foldl_cons, List.foldl_cons, ← ih _ fun c mem => digits c (by simp [mem])]
        congr 1
        simp only [digit?, digit, if_true, Option.bind_eq_bind, Option.bind_some, if_pos small]
  exact step t 0 digits

/-- Whatever the base is, a number is only read from digits. -/
theorem digit?_of_readDigits? {base n : Nat} {t : Text} (read : readDigits? base t = some n)
    {b : UInt8} (among : b ∈ t) : ∃ d, digit? b = some d := by
  induction t using List.reverseRecOn generalizing n with
  | nil => cases among
  | append_singleton t c ih =>
      rw [readDigits?, List.foldl_append] at read
      obtain ⟨m, front, last⟩ := Option.bind_eq_some_iff.mp read
      obtain ⟨d, digit, -⟩ := Option.bind_eq_some_iff.mp last
      obtain earlier | here := List.mem_append.mp among
      · exact ih front earlier
      · exact ⟨d, List.mem_singleton.mp here ▸ digit⟩

theorem ofNat_eq (n : Nat) :
    ofNat n = (if n < 10 then [] else ofNat (n / 10)) ++ [ofDigit (n % 10)] := by
  unfold ofNat numeral
  rw [Nat.toDigits_eq_if (by decide)]
  split
  · next small =>
    obtain ⟨-, -, byte, -⟩ := ofDigit_spec n small
    rw [Nat.mod_eq_of_lt small, ← byte]
    rfl
  · obtain ⟨-, -, byte, -⟩ := ofDigit_spec (n % 10) (Nat.mod_lt n (by decide))
    rw [List.map_append, ← byte]
    rfl

/-- What holds of the numeral of `n / 10` and is kept when a digit is added holds of all
numerals. -/
theorem ofNat_induction {P : Nat → Text → Prop} (digit : ∀ d < 10, P d [ofDigit d])
    (step : ∀ n d, 0 < n → d < 10 → P n (ofNat n) → P (n * 10 + d) (ofNat n ++ [ofDigit d]))
    (n : Nat) :
    P n (ofNat n) := by
  induction n using Nat.strongRecOn with
  | ind n ih =>
      rw [ofNat_eq]
      split
      · next small =>
        rw [Nat.mod_eq_of_lt small]
        exact digit n small
      · next large =>
        have split := Nat.div_add_mod' n 10
        have := step (n / 10) (n % 10) (by omega) (Nat.mod_lt n (by decide))
          (ih (n / 10) (by omega))
        rwa [split] at this

theorem value_ofNat (n : Nat) : value (ofNat n) = n := by
  refine ofNat_induction (P := fun n t => value t = n) ?_ ?_ n
  · intro d small
    exact (Nat.zero_add _).trans (ofDigit_spec d small).2.1
  · intro n d _ small ih
    rw [value_append, ih]
    congr 1
    exact (Nat.zero_add _).trans (ofDigit_spec d small).2.1

theorem isDigit_of_mem_ofNat (n : Nat) : ∀ b ∈ ofNat n, isDigit b = true := by
  refine ofNat_induction (P := fun _ t => ∀ b ∈ t, isDigit b = true) ?_ ?_ n
  · intro d small b mem
    rw [List.mem_singleton.1 mem]
    exact (ofDigit_spec d small).1
  · intro n d _ small ih b mem
    obtain mem | mem := List.mem_append.1 mem
    · exact ih b mem
    · rw [List.mem_singleton.1 mem]
      exact (ofDigit_spec d small).1

/-- Only the numeral of zero begins with a zero. -/
theorem ofNat_leading (n : Nat) : ∃ b t, ofNat n = b :: t ∧ (b = ascii '0' → n = 0) := by
  refine ofNat_induction (P := fun n t => ∃ b s, t = b :: s ∧ (b = ascii '0' → n = 0)) ?_ ?_ n
  · intro d small
    exact ⟨ofDigit d, [], rfl, (ofDigit_spec d small).2.2.2⟩
  · rintro n d positive - ⟨b, s, same, leading⟩
    rw [same]
    refine ⟨b, s ++ [ofDigit d], rfl, fun zero => ?_⟩
    have := leading zero
    omega

/-- Without the zeros at its end, a text writes the same number up to a power of ten. -/
theorem dropZeros_spec (t : Text) :
    ∃ n, t = (t.reverse.dropWhile (· == ascii '0')).reverse ++ List.replicate n (ascii '0') := by
  have zeros : t.reverse.takeWhile (· == ascii '0') =
      List.replicate (t.reverse.takeWhile (· == ascii '0')).length (ascii '0') := by
    refine List.eq_replicate_of_mem fun b mem => ?_
    simpa using List.mem_takeWhile_imp mem
  refine ⟨(t.reverse.takeWhile (· == ascii '0')).length, ?_⟩
  conv_lhs => rw [← t.reverse_reverse,
    ← @List.takeWhile_append_dropWhile _ (· == ascii '0') t.reverse, List.reverse_append, zeros,
      List.reverse_replicate]

end Lightboard.Text
