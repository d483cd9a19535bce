import Lightboard.Proofs.Assembly.Words
import Lightboard.Proofs.Toml.Arrays
import Lightboard.Proofs.Toml.Scalars

/-!
# Operands come back from their notation

Each operand of a loaded program is written as one scalar of a document, and reading that scalar
gives the operand back. There is one exception: a zero with a sign is written without point or
exponent, so it is read as the integer zero, which has no sign (`settled`).
-/

namespace Lightboard

namespace Number

/-- The zero with a minus sign. -/
def IsNegativeZero (x : Float) : Prop := exact x = .finite true 0 (-1074)

instance (x : Float) : Decidable (IsNegativeZero x) := inferInstanceAs (Decidable (_ = _))

/-- The number without the sign of a zero. -/
def settled (x : Float) : Float := if IsNegativeZero x then ofInt 0 else x

theorem settled_of_not {x : Float} {parts : Exact} (h : exact x = parts)
    (other : parts ≠ .finite true 0 (-1074)) :
    settled x = x := if_neg fun negative => other (h.symm.trans negative)

end Number

namespace Toml

theorem denotes_true : Denotes "true" (.boolean true) 1 :=
  denotes_scalar rfl (by decide) (by decide) (.bytes (by decide)) fun _ _ _ => rfl

theorem denotes_false : Denotes "false" (.boolean false) 1 :=
  denotes_scalar rfl (by decide) (by decide) (.bytes (by decide)) fun _ _ _ => rfl

theorem denotes_nan : Denotes "nan" (.float Number.notANumber) 1 :=
  denotes_scalar rfl (by decide) (by decide) (.bytes (by decide)) fun _ _ _ => rfl

theorem denotes_inf : Denotes "inf" (.float Number.positiveInfinity) 1 :=
  denotes_scalar rfl (by decide) (by decide) (.bytes (by decide)) fun _ _ _ => rfl

theorem denotes_minus_inf : Denotes "-inf" (.float Number.negativeInfinity) 1 :=
  denotes_scalar rfl (by decide) (by decide) (.bytes (by decide)) fun _ _ _ => rfl

/-- A byte at which a value is taken for a number. -/
def StartsNumber (b : UInt8) : Prop := Text.isDigit b = true ∨ b = ascii '-'

theorem readTerm_of_startsNumber {b : UInt8} (starts : StartsNumber b) (fuel : Nat) (t : Text) :
    readTerm (fuel + 1) (b :: t) = readNumber (b :: t) := by
  obtain digit | rfl := starts
  · have other : ∀ c, Text.isDigit c = false → ¬ b = c :=
      fun c plain => Text.ne_of_isDigit digit plain
    have space : isSpace b = false := by
      simp [isSpace, other (ascii ' ') rfl, other (ascii '\t') rfl]
    have skip : skipSpace (b :: t) = b :: t := List.dropWhile_cons_of_neg (by simp [space])
    have word : ∀ (w : Text) (c : UInt8), w.head? = some c → Text.isDigit c = false →
        ¬ w.isPrefixOf (b :: t) = true := by
      intro w c first plain found
      cases w with
      | nil => cases first
      | cons d w =>
          obtain rfl := Option.some.inj first
          simp only [List.isPrefixOf, Bool.and_eq_true, beq_iff_eq] at found
          exact other d plain found.1.symm
    have special := Spelled.readSpecial_of_digit digit false t
    rw [readTerm]
    simp only [skip, other (ascii '[') rfl, other (ascii '\x7b') rfl, other (ascii '"') rfl,
      other (ascii '\'') rfl, if_false, or_self, special, digit, true_or, if_true]
    rw [if_neg (word "true" (ascii 't') rfl rfl), if_neg (word "false" (ascii 'f') rfl rfl)]
  · rfl

/-- A numeral denotes the integer or float that it spells. -/
theorem denotes_spelled {s : Number.Spelled} (h : s.IsNumeral) {v : Term}
    (value : Spelled.denoted s = some v) :
    Denotes s.text v 1 := by
  obtain ⟨b, t, same, starts⟩ : ∃ b t, s.text = b :: t ∧ StartsNumber b := by
    obtain ⟨b, t, same, -⟩ := h.leading
    rw [Spelled.text_eq]
    obtain sign | sign := Spelled.signText_cases s.neg
    · rw [sign, same]
      exact ⟨b, _, rfl, .inl (h.whole_digits b (by simp [same]))⟩
    · rw [sign]
      exact ⟨ascii '-', _, rfl, .inr rfl⟩
  have ends : EndsGap b ∧ b ≠ ascii ']' := by
    obtain digit | rfl := starts
    · have other : ∀ c, Text.isDigit c = false → b ≠ c :=
        fun c plain => Text.ne_of_isDigit digit plain
      refine ⟨⟨?_, ?_, other _ rfl⟩, other _ rfl⟩
      · simp [isSpace, other (ascii ' ') rfl, other (ascii '\t') rfl]
      · simp [isLineEnd, other (ascii '\n') rfl, other (ascii '\r') rfl]
    · decide
  have clean : IsClean s.text := by
    refine .bytes fun b mem => ?_
    obtain digit | rfl | rfl | rfl | rfl := Spelled.mem_text h mem
    · have := (Text.isDigit_iff b).1 digit
      exact .inr (by omega)
    all_goals decide
  refine denotes_scalar same ends.1 ends.2 clean fun fuel tail after => ?_
  rw [same, List.cons_append, readTerm_of_startsNumber starts, ← List.cons_append, ← same,
    Spelled.readNumber_text h after, value]
  rfl

theorem readTerm_of_isBasicString {t word : Text} (basic : IsBasicString t word) {tail : Text}
    (other : tail.head? ≠ some (ascii '"')) (fuel : Nat) :
    readTerm (fuel + 1) (t ++ tail) = some (.text word, tail) := by
  have read := readString_of_isBasicString basic other
  obtain ⟨body, cs, rfl, -, -⟩ := basic
  rw [List.cons_append] at read ⊢
  have skip : skipSpace (ascii '"' :: (body ++ [ascii '"'] ++ tail)) = _ :=
    List.dropWhile_cons_of_neg (by decide)
  rw [readTerm]
  simp only [skip]
  rw [if_neg (by decide), if_neg (by decide), if_pos (.inl trivial), read]
  rfl

/-- A basic string denotes the text that it stands for. -/
theorem denotes_of_isBasicString {t word : Text} (basic : IsBasicString t word) :
    Denotes t (.text word) 1 := by
  obtain ⟨body, cs, same, -, -⟩ := id basic
  refine denotes_scalar same (by decide) (by decide) (isClean_of_isBasicString basic)
    fun fuel tail after => readTerm_of_isBasicString basic ?_ fuel
  obtain ⟨b, rest, rfl, rfl | rfl⟩ := after
  · exact fun same => absurd (Option.some.inj same) (by decide)
  · exact fun same => absurd (Option.some.inj same) (by decide)

/-- A quoted text denotes the text, with replacement characters for stray bytes. -/
theorem denotes_quote (t : Text) : Denotes (Assembly.Operand.quote t) (.text t.repaired) 1 :=
  denotes_of_isBasicString (Assembly.Operand.isBasicString_quote t)

end Toml

namespace Assembly.Operand

open Number Toml

/-- A finite number is written as a numeral near it, and without exponent only below `10 ^ 15`. -/
theorem writeNumber_spelled {x : Float} {neg : Bool} {m : Nat} {e : Int}
    (parts : exact x = .finite neg m e)
    (hm : 0 < m) :
    ∃ s : Number.Spelled, s.IsNumeral ∧ s.neg = neg ∧ s.text = writeNumber x ∧
      (neighbourhood m e).Contains (4 * (s.value * 2 ^ (-e))) ∧
      (s.exponent = none → (m * 2 ^ e : ℚ) < 10 ^ 15) := by
  obtain ⟨finite, -⟩ := exact_eq_finite parts
  obtain ⟨c, k, same, positive, inside⟩ := shortest_spec finite hm
  have writes := Digits.ofScaled_writes positive k
  rw [← same] at writes
  unfold writeNumber
  simp only [parts]
  split
  · obtain ⟨s, numeral, sign, body, value, exponent⟩ := Digits.scientific_spelled writes neg
    refine ⟨s, numeral, sign, ?_, value ▸ inside, fun none => absurd none exponent⟩
    rw [Spelled.text, body, sign, Number.numeral, parts]
    rfl
  · next less =>
    obtain ⟨s, numeral, sign, body, value, -⟩ := Digits.positional_spelled writes neg
    refine ⟨s, numeral, sign, ?_, value ▸ inside, fun _ => lt_of_not_le_abs parts less⟩
    rw [Spelled.text, body, sign, Number.plain, Number.numeral, parts]
    rfl

/-- A whole number near a float is rounded to it. -/
theorem ofInt_signed {neg : Bool} {m n : Nat} {e : Int} (finite : IsFinite m e)
    (hm : 0 < m) (hn : 0 < n)
    (inside : (neighbourhood m e).Contains (4 * (n * 2 ^ (-e)))) :
    ofInt (signed neg n) = ofFields neg m e := by
  have sign : decide (signed neg n < 0) = neg := by
    cases neg
    · simp [signed]
    · simp [signed, hn]
  have magnitude : (signed neg n).natAbs = n := by
    cases neg
    · simp [signed]
    · simp [signed]
  unfold ofInt
  rw [sign, magnitude]
  refine nearest_eq neg finite hm hn Nat.one_pos ?_
  rwa [Nat.cast_one, div_one]

theorem denotes_writeNumber_finite {x : Float} {neg : Bool} {m : Nat} {e : Int}
    (parts : exact x = .finite neg m e) (hm : 0 < m) :
    ∃ s : Scalar, Denotes (writeNumber x) s.term 1 ∧ read s.datum = .ok (.number x) := by
  obtain ⟨finite, same⟩ := exact_eq_finite parts
  obtain ⟨s, numeral, sign, text, inside, small⟩ := writeNumber_spelled parts hm
  obtain ⟨positive, -⟩ := Number.Spelled.scale_bounds finite hm inside
  rw [← text]
  by_cases whole : s.fraction = [] ∧ s.exponent = none
  · -- The numeral is an integer, which is small enough for a word.
    have value : s.value = s.number := by simp [Spelled.value, Spelled.scale, whole]
    rw [value] at inside
    have fits : FitsWord (signed neg s.number) := by
      obtain ⟨-, high, -, -⟩ := neighbourhood_bounds hm inside
      have one : (1 : ℚ) ≤ m := by exact_mod_cast hm
      have less := small whole.2
      have power : (0 : ℚ) < 2 ^ e := by positivity
      have bound : (s.number : ℚ) < 2 * 10 ^ 15 := by
        rw [← scaled_back s.number e]
        nlinarith
      have bound' : s.number < 2 * 10 ^ 15 := by exact_mod_cast bound
      unfold FitsWord signed leastWord greatestWord
      split <;> omega
    refine ⟨.integer (signed neg s.number), denotes_spelled numeral ?_, ?_⟩
    · rw [Toml.Spelled.denoted, if_pos whole, sign, word?, if_pos (by exact fits)]
      rfl
    · change Except.ok (Value.number (ofInt (signed neg s.number))) = _
      rw [ofInt_signed finite hm positive inside, same]
  · refine ⟨.float x, denotes_spelled numeral ?_, rfl⟩
    rw [Toml.Spelled.denoted, if_neg whole, Spelled.readFloat?_text numeral finite hm inside,
      sign, ← same]
    rfl

theorem denotes_writeNumber_zero {x : Float} {neg : Bool} {e : Int}
    (parts : exact x = .finite neg 0 e) :
    Denotes (writeNumber x) (.integer 0) 1 := by
  have below : ¬ 1e15 ≤ x.abs := by
    obtain ⟨finite, rfl⟩ := exact_eq_finite parts
    obtain rfl : e = -1074 := by
      have := finite.leading
      omega
    cases neg <;> decide +kernel
  have text : writeNumber x = (⟨neg, [ascii '0'], [], none⟩ : Number.Spelled).text := by
    unfold writeNumber
    simp only [parts]
    rw [if_neg below, Number.plain, Number.numeral, parts]
    rfl
  rw [text]
  refine denotes_spelled ⟨?_, by simp, ⟨ascii '0', [], rfl, fun _ => rfl⟩⟩ ?_
  · intro b mem
    rw [List.mem_singleton.1 mem]
    rfl
  · cases neg <;> rfl

/-- A number is read back, but for the sign of a zero. -/
theorem denotes_writeNumber (x : Float) :
    ∃ s : Scalar, Denotes (writeNumber x) s.term 1 ∧ read s.datum = .ok (.number (settled x)) := by
  cases parts : exact x with
  | nan =>
      refine ⟨.float notANumber, ?_, ?_⟩
      · rw [writeNumber, parts]
        exact denotes_nan
      · rw [settled_of_not parts (by simp), eq_notANumber parts]
        rfl
  | inf below =>
      refine ⟨.float (if below then negativeInfinity else positiveInfinity), ?_, ?_⟩
      · rw [writeNumber, parts]
        cases below with
        | true => exact denotes_minus_inf
        | false => exact denotes_inf
      · rw [settled_of_not parts (by simp), eq_infinity parts]
        rfl
  | finite neg m e =>
      obtain ⟨finite, same⟩ := exact_eq_finite parts
      obtain rfl | hm := Nat.eq_zero_or_pos m
      · refine ⟨.integer 0, denotes_writeNumber_zero parts, ?_⟩
        obtain rfl : e = -1074 := by
          have := finite.leading
          omega
        cases neg with
        | true =>
            rw [settled, if_pos (show IsNegativeZero x from parts)]
            rfl
        | false =>
            rw [settled_of_not parts (by simp), same]
            rfl
      · obtain ⟨s, denotes, value⟩ := denotes_writeNumber_finite parts hm
        refine ⟨s, denotes, ?_⟩
        rw [settled_of_not parts (by simp; omega), value]

end Assembly.Operand

namespace Value

/-- The values that assembly text has a notation for. -/
def HasNotation : Value → Prop
  | .str t => t.IsUtf8
  | .symbol name => name ≠ [] ∧ name.IsUtf8
  | .loopVar n => 0 ≤ n ∧ n ≤ Number.greatestWord
  | .pattern p => p ≠ .empty
  | v => v.IsNamed

/-- The value without the sign of a zero. -/
def settled : Value → Value
  | .number x => .number (Number.settled x)
  | v => v

end Value

namespace Assembly.Operand

open Toml

theorem isQuoted_of_hasNotation {v : Value} (h : v.HasNotation) (other : ∀ x, v ≠ .number x)
    (other' : ∀ b, v ≠ .bool b) : v.IsQuoted := by
  cases v with
  | number x => exact other x rfl
  | bool b => exact other' b rfl
  | str t => trivial
  | symbol name => exact h.1
  | pattern p => exact ⟨p.text, TimePattern.read_text h⟩
  | _ => exact h

theorem isUtf8_of_hasNotation {v : Value} (h : v.HasNotation) : v.IsUtf8 := by
  cases v with
  | str t => exact h
  | symbol name => exact h.2
  | _ => trivial

/-- An operand is read back, but for the sign of a zero. -/
theorem denotes_write {v : Value} (h : v.HasNotation) :
    ∃ s : Scalar, Denotes (write v) s.term 1 ∧ read s.datum = .ok v.settled := by
  by_cases quoted : v.IsQuoted
  · have settled : v.settled = v := by
      cases v with
      | number x => exact quoted.elim
      | _ => rfl
    refine ⟨.text (wordOf v).repaired, ?_, ?_⟩
    · rw [write_of_isQuoted quoted]
      exact denotes_quote _
    · rw [settled]
      have same := (Value.repaired_eq_iff v).mpr (isUtf8_of_hasNotation h)
      exact (readWord_wordOf quoted).trans (congrArg _ same)
  · cases v with
    | number x => exact denotes_writeNumber x
    | bool b =>
        cases b with
        | true => exact ⟨.boolean true, denotes_true, rfl⟩
        | false => exact ⟨.boolean false, denotes_false, rfl⟩
    | _ => exact absurd (isQuoted_of_hasNotation h (by simp) (by simp)) quoted

end Assembly.Operand

end Lightboard
