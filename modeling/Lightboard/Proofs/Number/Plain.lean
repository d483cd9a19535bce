import Lightboard.Proofs.Number.Numerals

/-!
# Plain numerals read back

The plain numeral of a float, or the word it has for one that is infinite or not a number, is read
back as that float, the two zeros included.
-/

namespace Lightboard.Number

/-- A finite float is written as a numeral that is read as the float. -/
theorem plain_spelled {x : Float} {neg : Bool} {m : Nat} {e : Int}
    (parts : exact x = .finite neg m e) :
    ∃ s : Spelled, s.IsNumeral ∧ s.text = plain x ∧ readFloat? s.text = some x := by
  obtain ⟨finite, same⟩ := exact_eq_finite parts
  obtain rfl | hm := Nat.eq_zero_or_pos m
  · obtain rfl : e = -1074 := by
      have := finite.leading
      omega
    have zero : (⟨neg, [ascii '0'], [], none⟩ : Spelled).IsNumeral :=
      ⟨by simp; rfl, by simp, ⟨_, [], rfl, fun _ => rfl⟩⟩
    refine ⟨_, zero, ?_, ?_⟩
    · rw [plain, numeral, parts]
      rfl
    · rw [same]
      cases neg <;> rfl
  · obtain ⟨c, k, shortest, positive, inside⟩ := shortest_spec finite hm
    have writes := Digits.ofScaled_writes positive k
    rw [← shortest] at writes
    obtain ⟨s, isNumeral, sign, body, value, -⟩ := Digits.positional_spelled writes neg
    refine ⟨s, isNumeral, ?_, ?_⟩
    · rw [Spelled.text, body, sign, plain, numeral, parts]
      rfl
    · rw [Spelled.readFloat?_text isNumeral finite hm (value ▸ inside), sign, same]

/-- Behind its sign a numeral begins with a digit, so it is none of the words. -/
theorem readAny?_of_isNumeral {s : Spelled} (h : s.IsNumeral) :
    readAny? s.text = readFloat? s.text := by
  obtain ⟨b, t, whole, -⟩ := h.leading
  have digit : Text.isDigit b = true := h.whole_digits b (by simp [whole])
  have small : ¬ (ascii 'A' ≤ b ∧ b ≤ ascii 'Z') := by
    rintro ⟨capital, -⟩
    have low := ((Text.isDigit_iff b).mp digit).2
    have high : 65 ≤ b.toNat := capital
    omega
  have body : s.body =
      b :: (t ++ (Spelled.pointText s.fraction ++ Spelled.exponentText s.exponent)) := by
    rw [Spelled.body, whole, List.cons_append]
  have noWord {c : UInt8} {rest word : Text} (letter : Text.isDigit c = false) :
      b :: rest ≠ c :: word := fun same =>
    Text.ne_of_isDigit digit letter (List.cons.inj same).1
  unfold readAny?
  simp only [Spelled.splitSign_text h, body, List.map_cons, if_neg small]
  rw [if_neg, if_neg]
  · exact fun nan => noWord rfl nan.2
  · rintro (inf | infinity)
    · exact noWord rfl inf
    · exact noWord rfl infinity

/-- A float is read back from its plain numeral. -/
theorem readAny?_plain (x : Float) : readAny? (plain x) = some x := by
  cases parts : exact x with
  | nan =>
      rw [plain, numeral, parts, eq_notANumber parts]
      rfl
  | inf below =>
      rw [plain, numeral, parts, eq_infinity parts]
      cases below <;> rfl
  | finite neg m e =>
      obtain ⟨s, isNumeral, text, read⟩ := plain_spelled parts
      rw [← text, readAny?_of_isNumeral isNumeral, read]

end Lightboard.Number
