import Lightboard.Number.Read
import Lightboard.Proofs.Number.Comparison
import Lightboard.Proofs.Number.Shortest
import Lightboard.Proofs.Text.Digits

/-!
# Numerals and their values

A numeral is taken apart into its sign, the digits before and after the point, and its exponent
(`Spelled`). Reading gives these parts back as a whole number and a power of ten, and the layouts of
the shortest digits are numerals of a value in the neighbourhood of the float.
-/

namespace Lightboard

theorem Text.ne_of_isDigit {b c : UInt8} (digit : isDigit b = true)
    (other : isDigit c = false) : b ≠ c := by
  rintro rfl
  rw [digit] at other
  cases other

namespace Number

/-- The parts of a numeral. -/
structure Spelled where
  neg : Bool
  whole : Text
  fraction : Text
  exponent : Option Int

namespace Spelled

def pointText (fraction : Text) : Text := if fraction.isEmpty then [] else ascii '.' :: fraction

def signText (neg : Bool) : Text := if neg then [ascii '-'] else []

def exponentSign (x : Int) : UInt8 := ascii (if x < 0 then '-' else '+')

/-- The digits of an exponent, at least two of them. -/
def exponentDigits (x : Int) : Text := Text.padLeft (ascii '0') 2 (Text.ofNat x.natAbs)

def exponentText : Option Int → Text
  | none => []
  | some x => ascii 'e' :: exponentSign x :: exponentDigits x

/-- The numeral without its sign. -/
def body (s : Spelled) : Text := s.whole ++ (pointText s.fraction ++ exponentText s.exponent)

def text (s : Spelled) : Text := signText s.neg ++ s.body

/-- The number that all digits write, as if there were no point. -/
def number (s : Spelled) : Nat := Text.value (s.whole ++ s.fraction)

/-- The power of ten that the number is scaled by. -/
def scale (s : Spelled) : Int := s.exponent.getD 0 - s.fraction.length

/-- The magnitude a numeral writes. -/
def value (s : Spelled) : ℚ := s.number * 10 ^ s.scale

/-- All digits are digits, there are some before the point, and a zero stands in front of no
others. -/
structure IsNumeral (s : Spelled) : Prop where
  whole_digits : ∀ b ∈ s.whole, Text.isDigit b = true
  fraction_digits : ∀ b ∈ s.fraction, Text.isDigit b = true
  leading : ∃ b t, s.whole = b :: t ∧ (b = ascii '0' → t = [])

end Spelled

theorem splitSign_of_digit {b : UInt8} (digit : Text.isDigit b = true) (t : Text) :
    splitSign (b :: t) = (false, b :: t) := by
  simp only [splitSign]
  rw [if_neg (Text.ne_of_isDigit digit rfl), if_neg (Text.ne_of_isDigit digit rfl)]

namespace Spelled

theorem exponentDigits_spec (x : Int) : (∀ b ∈ exponentDigits x, Text.isDigit b = true) ∧
    exponentDigits x ≠ [] ∧ Text.value (exponentDigits x) = x.natAbs := by
  obtain ⟨b, t, same, -⟩ := Text.ofNat_leading x.natAbs
  unfold exponentDigits Text.padLeft
  refine ⟨?_, by simp [same], ?_⟩
  · intro b mem
    obtain mem | mem := List.mem_append.1 mem
    · rw [(List.mem_replicate.1 mem).2]
      rfl
    · exact Text.isDigit_of_mem_ofNat _ b mem
  · rw [Text.value_append, Text.value_replicate_zero, Text.value_ofNat]
    omega

theorem readExponent?_text (x : Int) :
    readExponent? (exponentSign x :: exponentDigits x) = some x := by
  obtain ⟨digits, some, value⟩ := exponentDigits_spec x
  generalize exponentDigits x = ds at *
  have read := Text.readDigits?_eq digits
  have all : ds.all Text.isDigit = true := List.all_eq_true.2 digits
  have nonempty : ds.isEmpty = false := by simpa using some
  unfold exponentSign
  by_cases below : x < 0
  · have sign : splitSign (ascii '-' :: ds) = (true, ds) := rfl
    simp only [below, if_true, readExponent?, sign, nonempty, all, read, value]
    simp only [Bool.false_eq_true, if_false, Option.bind_eq_bind, Option.bind_some,
      Option.some.injEq]
    omega
  · have sign : splitSign (ascii '+' :: ds) = (false, ds) := rfl
    simp only [below, if_false, readExponent?, sign, nonempty, all, read, value]
    simp only [Bool.false_eq_true, if_false, if_true, Option.bind_eq_bind, Option.bind_some,
      Option.some.injEq]
    omega

variable {s : Spelled}

theorem splitSign_text (h : s.IsNumeral) : splitSign s.text = (s.neg, s.body) := by
  obtain ⟨b, t, same, -⟩ := h.leading
  unfold text
  cases s.neg with
  | true => rfl
  | false =>
      have body : s.body = b :: (t ++ (pointText s.fraction ++ exponentText s.exponent)) := by
        rw [Spelled.body, same]
        rfl
      rw [signText, if_neg (by decide), List.nil_append, body]
      exact splitSign_of_digit (h.whole_digits b (by simp [same])) _

/-- A numeral is read by its parts. -/
theorem readDecimal?_text (h : s.IsNumeral) :
    readDecimal? s.text = some (s.neg, s.number, s.scale) := by
  obtain ⟨b, t, same, -⟩ := h.leading
  have digits : ∀ b ∈ s.whole ++ s.fraction, Text.isDigit b = true := by
    intro b mem
    obtain mem | mem := List.mem_append.1 mem
    · exact h.whole_digits b mem
    · exact h.fraction_digits b mem
  have mantissa : s.body.takeWhile (fun b => b != ascii 'e' && b != ascii 'E') =
      s.whole ++ pointText s.fraction := by
    have inside : ∀ b ∈ s.whole ++ pointText s.fraction,
      (b != ascii 'e' && b != ascii 'E') = true := by
      intro b mem
      have cases : Text.isDigit b = true ∨ b = ascii '.' := by
        unfold pointText at mem
        grind
      obtain digit | rfl := cases
      · simp only [Bool.and_eq_true, bne_iff_ne]
        exact ⟨Text.ne_of_isDigit digit rfl, Text.ne_of_isDigit digit rfl⟩
      · rfl
    rw [body, ← List.append_assoc, List.takeWhile_append_of_pos inside]
    cases s.exponent with
    | none => simp [exponentText]
    | some x => simp [exponentText]
  have rest : s.body.drop (s.whole ++ pointText s.fraction).length = exponentText s.exponent := by
    rw [body, ← List.append_assoc, List.drop_left]
  have whole : (s.whole ++ pointText s.fraction).takeWhile (· != ascii '.') = s.whole := by
    have inside : ∀ b ∈ s.whole, (b != ascii '.') = true := by
      intro b mem
      exact bne_iff_ne.2 (Text.ne_of_isDigit (h.whole_digits b mem) rfl)
    rw [List.takeWhile_append_of_pos inside]
    unfold pointText
    split <;> simp
  have fraction : ((s.whole ++ pointText s.fraction).drop s.whole.length).drop 1 = s.fraction := by
    rw [List.drop_left]
    unfold pointText
    split
    · next empty => simpa using empty
    · rfl
  have nonempty : (s.whole ++ s.fraction).isEmpty = false := by simp [same]
  have all : (s.whole ++ s.fraction).all Text.isDigit = true := List.all_eq_true.2 digits
  unfold readDecimal?
  simp only [splitSign_text h, mantissa, rest, whole, fraction, nonempty, all,
    Text.readDigits?_eq digits, Option.bind_eq_bind, Option.bind_some, Bool.not_true, Bool.or_self,
    Bool.false_eq_true, if_false]
  unfold number scale
  cases s.exponent with
  | none => rfl
  | some x =>
      simp only [exponentText, readExponent?_text]
      rfl

/-- Near a finite float, the powers of ten stay within the bound that reading sets. -/
theorem scale_bounds {m : Nat} {e : Int} (finite : IsFinite m e) (hm : 0 < m)
    (inside : (neighbourhood m e).Contains (4 * (s.value * 2 ^ (-e)))) :
    0 < s.number ∧ s.scale ≤ exponentBound s.number ∧ -exponentBound s.number ≤ s.scale := by
  obtain ⟨low, high, -, -⟩ := neighbourhood_bounds hm inside
  have one : (1 : ℚ) ≤ m := by exact_mod_cast hm
  have mantissa : (m : ℚ) + 1 ≤ 2 ^ 53 := by exact_mod_cast finite.mantissa_lt
  have power : (0 : ℚ) < 2 ^ e := by positivity
  have back := scaled_back s.value e
  have least : (10 : ℚ) ^ (-324 : Int) ≤ s.value := by
    have smallest : (10 : ℚ) ^ (-324 : Int) ≤ 2 ^ (-1075 : Int) := by
      rw [zpow_neg, zpow_neg]
      refine inv_anti₀ (by positivity) ?_
      exact_mod_cast (by decide +kernel : 2 ^ 1075 ≤ 10 ^ 324)
    calc (10 : ℚ) ^ (-324 : Int) ≤ 2 ^ (-1075 : Int) := smallest
      _ = 1 / 2 * 2 ^ (-1074 : Int) := by
          rw [show (-1075 : Int) = -1 + -1074 from rfl, zpow_add₀ (by norm_num),
            zpow_neg_one, one_div]
      _ ≤ 1 / 2 * 2 ^ e := by
          have := zpow_le_zpow_right₀ (by norm_num : (1 : ℚ) ≤ 2) finite.exponent_ge
          linarith
      _ ≤ s.value * 2 ^ (-e) * 2 ^ e := by
          refine mul_le_mul_of_nonneg_right ?_ power.le
          linarith
      _ = s.value := back
  have most : s.value < (10 : ℚ) ^ (309 : Int) := by
    calc s.value = s.value * 2 ^ (-e) * 2 ^ e := back.symm
      _ ≤ 2 ^ 53 * 2 ^ (971 : Int) := by
          have := zpow_le_zpow_right₀ (by norm_num : (1 : ℚ) ≤ 2) finite.exponent_le
          gcongr
          linarith
      _ = 2 ^ (1024 : Int) := by
          rw [show (1024 : Int) = 53 + 971 from rfl, zpow_add₀ (by norm_num)]
          rfl
      _ < 10 ^ (309 : Int) := by exact_mod_cast (by decide +kernel : 2 ^ 1024 < 10 ^ 309)
  have scalePos : (0 : ℚ) < 10 ^ s.scale := by positivity
  have positive : 0 < s.number := by
    refine Nat.pos_of_ne_zero fun zero => ?_
    rw [value, zero, Nat.cast_zero, zero_mul] at least
    have : (0 : ℚ) < 10 ^ (-324 : Int) := by positivity
    linarith
  have unit : (1 : ℚ) ≤ s.number := by exact_mod_cast positive
  have digits : (s.number : ℚ) < 10 ^ ((s.number.log2 : Int) + 1) := by
    calc (s.number : ℚ) < 2 ^ ((s.number.log2 : Int) + 1) := (log2_bounds positive).2
      _ ≤ 10 ^ ((s.number.log2 : Int) + 1) :=
        zpow_le_zpow_left₀ (by omega) (by norm_num) (by norm_num)
  have upper : s.scale < 309 := by
    refine (zpow_lt_zpow_iff_right₀ (by norm_num : (1 : ℚ) < 10)).1 (lt_of_le_of_lt ?_ most)
    unfold value
    nlinarith
  have lower : -324 < s.number.log2 + 1 + s.scale := by
    refine (zpow_lt_zpow_iff_right₀ (by norm_num : (1 : ℚ) < 10)).1 (lt_of_le_of_lt least ?_)
    rw [zpow_add₀ (by norm_num)]
    unfold value
    gcongr
  refine ⟨positive, ?_, ?_⟩
  · unfold exponentBound exponentBound.decimalBits
    omega
  · unfold exponentBound exponentBound.decimalBits
    omega

/-- A numeral of a value near a finite float is read as that float. -/
theorem readFloat?_text (h : s.IsNumeral) {m : Nat} {e : Int} (finite : IsFinite m e) (hm : 0 < m)
    (inside : (neighbourhood m e).Contains (4 * (s.value * 2 ^ (-e)))) :
    readFloat? s.text = some (ofFields s.neg m e) := by
  obtain ⟨positive, upper, lower⟩ := scale_bounds finite hm inside
  have den := @quotient_den_pos 10 s.number s.scale (by decide)
  have quotient := @quotient_eq 10 s.number s.scale (by decide)
  rw [Nat.cast_ofNat] at quotient
  have num : 0 < (Number.quotient 10 s.number s.scale).1 := by
    have : (0 : ℚ) < s.number * 10 ^ s.scale := by positivity
    refine Nat.pos_of_ne_zero fun zero => ?_
    rw [zero, Nat.cast_zero, zero_div] at quotient
    linarith
  have rounded : ofDecimal s.neg s.number s.scale = ofFields s.neg m e := by
    have inside' := inside
    rw [value, ← quotient] at inside'
    exact nearest_eq s.neg finite hm num den inside'
  unfold readFloat?
  simp only [readDecimal?_text h, Option.bind_eq_bind, Option.bind_some]
  rw [if_neg (by omega), if_neg (by omega), if_neg (by omega), rounded, isInf_ofFields finite]
  rfl

end Spelled

/-- Digits write a value, and begin with another digit than zero. -/
structure Digits.Writes (d : Digits) (y : ℚ) : Prop where
  digits : ∀ b ∈ d.text, Text.isDigit b = true
  leading : ∃ b t, d.text = b :: t ∧ b ≠ ascii '0'
  value : (Text.value d.text * 10 ^ (d.point - d.count) : ℚ) = y

/-- The digits of `c · 10 ^ k` write it. -/
theorem Digits.ofScaled_writes {c : Nat} (positive : 0 < c) (k : Int) :
    (Digits.ofScaled c k).Writes (c * 10 ^ k) := by
  obtain ⟨zeros, same⟩ := Text.dropZeros_spec (Text.ofNat c)
  obtain ⟨b, t, leading, nonzero⟩ := Text.ofNat_leading c
  have digits := Text.isDigit_of_mem_ofNat c
  have value := Text.value_ofNat c
  unfold ofScaled
  rw [if_neg positive.ne']
  simp only
  generalize ((Text.ofNat c).reverse.dropWhile (· == ascii '0')).reverse = kept at *
  have nonempty : kept ≠ [] := by
    rintro rfl
    rw [same, List.nil_append, Text.value_replicate_zero] at value
    omega
  refine ⟨?_, ?_, ?_⟩
  · intro b mem
    exact digits b (by rw [same]; exact List.mem_append_left _ mem)
  · obtain ⟨b', t', rfl⟩ := List.exists_cons_of_ne_nil nonempty
    rw [leading] at same
    obtain ⟨rfl, -⟩ := List.cons.inj same
    refine ⟨b, t', rfl, fun zero => ?_⟩
    have := nonzero zero
    omega
  · have scaled : Text.value kept * 10 ^ zeros = c := by
      rw [← value, same, Text.value_append, Text.value_replicate_zero, List.length_replicate]
      rfl
    have exponent : ((Text.ofNat c).length : Int) + k - kept.length = zeros + k := by
      rw [same, List.length_append, List.length_replicate]
      push_cast
      ring
    simp only [count, exponent]
    rw [zpow_add₀ (by norm_num), zpow_natCast, ← mul_assoc, ← scaled]
    push_cast
    rfl

namespace Digits

variable {d : Digits} {y : ℚ}

/-- The scientific layout with all digits. -/
theorem scientific_spelled (h : d.Writes y) (neg : Bool) :
    ∃ s : Spelled, s.IsNumeral ∧ s.neg = neg ∧
      s.body = d.scientific (d.count - 1) 'e' ∧ s.value = y ∧
      s.exponent ≠ none := by
  obtain ⟨b, t, text, nonzero⟩ := h.leading
  have digits := h.digits
  have value := h.value
  have count : d.count = t.length + 1 := by rw [Digits.count, text, List.length_cons]
  rw [text] at digits value
  refine ⟨⟨neg, [b], t, some (d.point - 1)⟩, ⟨?_, ?_, ⟨b, [], rfl, fun _ => rfl⟩⟩, rfl, ?_,
    ?_, by simp⟩
  · intro c mem
    exact digits c (List.mem_cons.2 (.inl (List.mem_singleton.1 mem)))
  · intro c mem
    exact digits c (List.mem_cons_of_mem b mem)
  · have more : Text.padRight (ascii '0') t.length (t.take t.length) = t := by simp [Text.padRight]
    unfold Digits.scientific Spelled.body Spelled.pointText Spelled.exponentText
      Spelled.exponentSign
      Spelled.exponentDigits
    simp only [count, text, Nat.add_sub_cancel, List.headD_cons, List.drop_succ_cons,
      List.drop_zero, more, List.isEmpty_cons, Bool.false_eq_true, if_false, List.isEmpty_iff,
        List.length_eq_zero_iff]
    simp
  · rw [← value, count]
    simp only [Spelled.value, Spelled.number, Spelled.scale, Option.getD_some,
      List.singleton_append]
    congr 2
    push_cast
    ring

/-- The digits behind the point. -/
theorem range_atPlace (h : d.point ≤ d.count) :
    (List.range (d.count - d.point).toNat).map (fun (i : Nat) => d.atPlace i) =
      List.replicate (-d.point).toNat (ascii '0') ++ d.text.drop d.point.toNat := by
  refine List.ext_getElem? fun i => ?_
  unfold count at *
  simp only [List.getElem?_map, List.getElem?_append, List.getElem?_replicate,
    List.length_replicate, List.getElem?_drop, atPlace]
  by_cases inside : i < (d.text.length - d.point).toNat
  · rw [List.getElem?_range inside, Option.map_some]
    by_cases before : i < (-d.point).toNat
    · rw [if_pos before, if_pos before, if_neg (by omega)]
    · have place : (d.point + i).toNat = d.point.toNat + (i - (-d.point).toNat) := by omega
      rw [if_neg before, if_pos (by omega), place, List.getD_eq_getElem?_getD,
        List.getElem?_eq_getElem (by omega), Option.getD_some]
  · rw [List.getElem?_eq_none (by simpa using inside), Option.map_none, if_neg (by omega),
      List.getElem?_eq_none (by omega)]

theorem pointText_of_length {fraction : Text} {n : Nat} (same : fraction.length = n) :
    Spelled.pointText fraction = if n = 0 then [] else ascii '.' :: fraction := by
  unfold Spelled.pointText
  simp only [List.isEmpty_iff, ← same, List.length_eq_zero_iff]

/-- All digits, and zeros after them, stand before the point. -/
theorem positional_whole (h : d.Writes y) (neg : Bool) (all : (d.count : Int) ≤ d.point) :
    ∃ s : Spelled, s.IsNumeral ∧ s.neg = neg ∧ s.body = d.positional (d.count - d.point).toNat ∧
      s.value = y ∧ s.exponent = none := by
  obtain ⟨b, t, text, nonzero⟩ := h.leading
  have digits := h.digits
  have places : (d.count - d.point).toNat = 0 := by omega
  have whole : Text.padRight (ascii '0') d.point.toNat (d.text.take d.point.toNat) =
      d.text ++ List.replicate (d.point - d.count).toNat (ascii '0') := by
    unfold Text.padRight count at *
    rw [List.take_of_length_le (by omega)]
    congr 2
    omega
  refine ⟨⟨neg, d.text ++ List.replicate (d.point - d.count).toNat (ascii '0'), [], none⟩,
    ⟨?_, by simp, ⟨b, _, by rw [text]; rfl, fun zero => absurd zero nonzero⟩⟩, rfl, ?_, ?_, rfl⟩
  · intro c mem
    obtain mem | mem := List.mem_append.1 mem
    · exact digits c mem
    · rw [(List.mem_replicate.1 mem).2]
      rfl
  · have some : 0 < d.point := by
      rw [count, text, List.length_cons] at all
      omega
    simp only [Spelled.body, Spelled.pointText, Spelled.exponentText, positional, places, whole,
      if_pos some]
    simp
  · rw [← h.value]
    simp only [Spelled.value, Spelled.number, Spelled.scale, Option.getD_none, List.append_nil,
      List.length_nil, Text.value_append, Text.value_replicate_zero, List.length_replicate]
    rw [← Int.toNat_of_nonneg (by omega : 0 ≤ d.point - d.count), zpow_natCast]
    simp

/-- The point stands among the digits. -/
theorem positional_amid (h : d.Writes y) (neg : Bool) (some : 0 < d.point)
    (more : d.point < d.count) :
    ∃ s : Spelled, s.IsNumeral ∧ s.neg = neg ∧ s.body = d.positional (d.count - d.point).toNat ∧
      s.value = y ∧ s.exponent = none := by
  obtain ⟨b, t, text, nonzero⟩ := h.leading
  have digits := h.digits
  have fraction := range_atPlace more.le
  have zeros : (-d.point).toNat = 0 := by omega
  rw [zeros, List.replicate_zero, List.nil_append] at fraction
  have length : (d.text.drop d.point.toNat).length = (d.count - d.point).toNat := by
    rw [List.length_drop, count]
    omega
  have places : (d.count - d.point).toNat ≠ 0 := by omega
  obtain ⟨p, point⟩ : ∃ p, d.point.toNat = p + 1 := ⟨d.point.toNat - 1, by omega⟩
  refine ⟨⟨neg, d.text.take d.point.toNat, d.text.drop d.point.toNat, none⟩,
    ⟨fun c mem => digits c (List.mem_of_mem_take mem),
      fun c mem => digits c (List.mem_of_mem_drop mem), ⟨b, t.take p, by rw [text, point]; rfl,
        fun zero => absurd zero nonzero⟩⟩, rfl, ?_, ?_, rfl⟩
  · have whole : Text.padRight (ascii '0') d.point.toNat (d.text.take d.point.toNat) =
        d.text.take d.point.toNat := by
      unfold Text.padRight count at *
      rw [List.length_take, Nat.min_eq_left (by omega), Nat.sub_self]
      simp
    simp only [Spelled.body, Spelled.exponentText, pointText_of_length length, positional,
      if_pos some, whole, fraction, if_neg places, List.append_nil]
  · rw [← h.value]
    simp only [Spelled.value, Spelled.number, Spelled.scale, Option.getD_none,
      List.take_append_drop, length]
    congr 2
    omega

/-- All digits, and zeros before them, stand behind the point. -/
theorem positional_behind (h : d.Writes y) (neg : Bool) (point : d.point ≤ 0) :
    ∃ s : Spelled, s.IsNumeral ∧ s.neg = neg ∧ s.body = d.positional (d.count - d.point).toNat ∧
      s.value = y ∧ s.exponent = none := by
  obtain ⟨b, t, text, -⟩ := h.leading
  have some : 0 < d.count := by
    rw [count, text, List.length_cons]
    omega
  have fraction := range_atPlace (by omega : d.point ≤ d.count)
  have zero : d.point.toNat = 0 := by omega
  rw [zero, List.drop_zero] at fraction
  have length : (List.replicate (-d.point).toNat (ascii '0') ++ d.text).length =
    (d.count - d.point).toNat := by
    rw [List.length_append, List.length_replicate, count]
    omega
  have places : (d.count - d.point).toNat ≠ 0 := by omega
  refine ⟨⟨neg, [ascii '0'], List.replicate (-d.point).toNat (ascii '0') ++ d.text, none⟩,
    ⟨?_, ?_, ⟨ascii '0', [], rfl, fun _ => rfl⟩⟩, rfl, ?_, ?_, rfl⟩
  · intro c mem
    rw [List.mem_singleton.1 mem]
    rfl
  · intro c mem
    obtain mem | mem := List.mem_append.1 mem
    · rw [(List.mem_replicate.1 mem).2]
      rfl
    · exact h.digits c mem
  · simp only [Spelled.body, Spelled.exponentText, pointText_of_length length, positional,
      if_neg (by omega : ¬ 0 < d.point), fraction, if_neg places, List.append_nil]
  · have none : Text.value [ascii '0'] = 0 := rfl
    rw [← h.value]
    simp only [Spelled.value, Spelled.number, Spelled.scale, Option.getD_none, length]
    rw [Text.value_append, Text.value_append, Text.value_replicate_zero, none, Nat.zero_mul,
      Nat.zero_mul, Nat.zero_add, Nat.zero_add]
    congr 2
    omega

/-- The positional layout with all digits. -/
theorem positional_spelled (h : d.Writes y) (neg : Bool) :
    ∃ s : Spelled, s.IsNumeral ∧ s.neg = neg ∧ s.body = d.positional (d.count - d.point).toNat ∧
      s.value = y ∧ s.exponent = none := by
  by_cases all : (d.count : Int) ≤ d.point
  · exact positional_whole h neg all
  · by_cases some : 0 < d.point
    · exact positional_amid h neg some (by omega)
    · exact positional_behind h neg (by omega)

end Digits

end Number

end Lightboard
