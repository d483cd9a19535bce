import Lightboard.Proofs.Number.Integers
import Lightboard.Proofs.Number.Numerals
import Lightboard.Toml.Reader

/-!
# Numbers in documents

A numeral that stands before a comma or a closing bracket is cut off as a whole and read: as an
integer if it has neither point nor exponent, else as a float.
-/

namespace Lightboard.Toml

open Number

section

variable {p : UInt8 → Bool} {body rest : Text}

theorem takeWhile_append (inside : ∀ b ∈ body, p b = true) (stops : ∀ b ∈ rest.head?, p b = false) :
    (body ++ rest).takeWhile p = body := by
  rw [List.takeWhile_append_of_pos inside]
  cases rest with
  | nil => simp
  | cons b t => rw [List.takeWhile_cons_of_neg (by simp [stops b rfl]), List.append_nil]

theorem dropWhile_append (inside : ∀ b ∈ body, p b = true) (stops : ∀ b ∈ rest.head?, p b = false) :
    (body ++ rest).dropWhile p = rest := by
  rw [List.dropWhile_append_of_pos inside]
  cases rest with
  | nil => rfl
  | cons b t => rw [List.dropWhile_cons_of_neg (by simp [stops b rfl])]

theorem span_append (inside : ∀ b ∈ body, p b = true) (stops : ∀ b ∈ rest.head?, p b = false) :
    span p (body ++ rest) = (body, rest) := by
  unfold span
  rw [takeWhile_append inside stops, dropWhile_append inside stops]

end

/-- What follows an item of an array. -/
def AfterItem (t : Text) : Prop := ∃ b rest, t = b :: rest ∧ (b = ascii ',' ∨ b = ascii ']')

theorem underscoresFit_go {ds : Text} (digits : ∀ b ∈ ds, Text.isDigit b = true) (after : Bool) :
    underscoresFit.go after ds = (after || !ds.isEmpty) := by
  induction ds generalizing after with
  | nil => simp [underscoresFit.go]
  | cons b ds ih =>
      have digit := digits b (by simp)
      have range := (Text.isDigit_iff b).1 digit
      have small : Text.digitValue b < 16 := by
        unfold Text.digitValue
        omega
      have other : ¬ b = ascii '_' := Text.ne_of_isDigit digit rfl
      rw [underscoresFit.go, if_neg (by simp [other]), ih fun c mem => digits c (by simp [mem])]
      simp [Text.digit?, digit, small]

/-- Digits, with or without a sign before them. -/
theorem underscoresFit_digits {sign ds : Text}
    (signs : sign = [] ∨ ∃ b, sign = [b] ∧ (b = ascii '-' ∨ b = ascii '+'))
    (digits : ∀ b ∈ ds, Text.isDigit b = true) (some : ds ≠ []) :
    underscoresFit (sign ++ ds) = true := by
  have nonempty : ds.isEmpty = false := by simpa using some
  have plain := underscoresFit_go digits false
  rw [nonempty] at plain
  obtain rfl | ⟨b, rfl, rfl | rfl⟩ := signs
  · exact plain
  · exact plain
  · exact plain

namespace Spelled

open Number.Spelled

variable {s : Spelled}

theorem signText_cases (neg : Bool) : signText neg = [] ∨ signText neg = [ascii '-'] := by
  cases neg
  · exact .inl rfl
  · exact .inr rfl

theorem exponentSign_cases (x : Int) : exponentSign x = ascii '-' ∨ exponentSign x = ascii '+' := by
  unfold exponentSign
  split
  · exact .inl rfl
  · exact .inr rfl

theorem text_eq (s : Spelled) :
    s.text = signText s.neg ++ s.whole ++ (pointText s.fraction ++ exponentText s.exponent) :=
  (List.append_assoc _ _ _).symm

/-- The bytes of a numeral before its point. -/
theorem mem_front (h : s.IsNumeral) {b : UInt8} (mem : b ∈ signText s.neg ++ s.whole) :
    Text.isDigit b = true ∨ b = ascii '-' := by
  obtain mem | mem := List.mem_append.1 mem
  · obtain sign | sign := signText_cases s.neg
    · simp [sign] at mem
    · rw [sign] at mem
      exact .inr (List.mem_singleton.1 mem)
  · exact .inl (h.whole_digits b mem)

theorem mem_pointText (h : s.IsNumeral) {b : UInt8} (mem : b ∈ pointText s.fraction) :
    Text.isDigit b = true ∨ b = ascii '.' := by
  unfold pointText at mem
  split at mem
  · cases mem
  · obtain rfl | mem := List.mem_cons.1 mem
    · exact .inr rfl
    · exact .inl (h.fraction_digits b mem)

theorem mem_exponent {x : Int} {b : UInt8} (mem : b ∈ exponentSign x :: exponentDigits x) :
    Text.isDigit b = true ∨ b = ascii '-' ∨ b = ascii '+' := by
  obtain rfl | mem := List.mem_cons.1 mem
  · exact .inr (exponentSign_cases x)
  · exact .inl ((exponentDigits_spec x).1 b mem)

theorem mem_exponentText {x : Option Int} {b : UInt8} (mem : b ∈ exponentText x) :
    Text.isDigit b = true ∨ b = ascii 'e' ∨ b = ascii '-' ∨ b = ascii '+' := by
  cases x with
  | none => cases mem
  | some x =>
      obtain rfl | mem := List.mem_cons.1 mem
      · exact .inr (.inl rfl)
      · obtain digit | sign := mem_exponent mem
        · exact .inl digit
        · exact .inr (.inr sign)

/-- The bytes of a numeral. -/
theorem mem_text (h : s.IsNumeral) {b : UInt8} (mem : b ∈ s.text) :
    Text.isDigit b = true ∨ b = ascii '-' ∨ b = ascii '.' ∨ b = ascii 'e' ∨ b = ascii '+' := by
  rw [text_eq, List.mem_append, List.mem_append (t := exponentText s.exponent)] at mem
  obtain front | point | exponent := mem
  · obtain digit | sign := mem_front h front
    · exact .inl digit
    · exact .inr (.inl sign)
  · obtain digit | point := mem_pointText h point
    · exact .inl digit
    · exact .inr (.inr (.inl point))
  · obtain digit | mark | sign | sign := mem_exponentText exponent
    · exact .inl digit
    · exact .inr (.inr (.inr (.inl mark)))
    · exact .inr (.inl sign)
    · exact .inr (.inr (.inr (.inr sign)))

/-- The bytes between the pieces of a numeral. -/
def isCut (b : UInt8) : Bool := b == ascii '.' || b == ascii 'e' || b == ascii 'E'

theorem isCut_of_isDigit {b : UInt8} (digit : Text.isDigit b = true) : isCut b = false := by
  have point : b ≠ ascii '.' := Text.ne_of_isDigit digit rfl
  have lower : b ≠ ascii 'e' := Text.ne_of_isDigit digit rfl
  have upper : b ≠ ascii 'E' := Text.ne_of_isDigit digit rfl
  simp [isCut, point, lower, upper]

theorem pieces_append {a : Text} (plain : ∀ b ∈ a, isCut b = false) (some : a ≠ []) {c : UInt8}
    (cut : isCut c = true) (rest : Text) : pieces (a ++ c :: rest) = a :: pieces rest := by
  have nonempty : a.isEmpty = false := by simpa using some
  change (List.splitOnP isCut (a ++ c :: rest)).filter (!·.isEmpty) = _
  rw [List.splitOnP_append_cons a rest cut, List.splitOnP_eq_singleton plain, List.singleton_append,
    List.filter_cons_of_pos (by simp [nonempty])]
  rfl

theorem pieces_of_plain {a : Text} (plain : ∀ b ∈ a, isCut b = false) (some : a ≠ []) :
    pieces a = [a] := by
  have nonempty : a.isEmpty = false := by simpa using some
  change (List.splitOnP isCut a).filter (!·.isEmpty) = _
  rw [List.splitOnP_eq_singleton plain, List.filter_cons_of_pos (by simp [nonempty])]
  rfl

/-- The pieces of a numeral: the digits before the point with the sign, those behind it, and the
exponent. -/
theorem pieces_text (h : s.IsNumeral) :
    pieces s.text =
      (signText s.neg ++ s.whole) :: ((if s.fraction.isEmpty then [] else [s.fraction]) ++
      match s.exponent with
      | none => []
      | some x => [exponentSign x :: exponentDigits x]) := by
  obtain ⟨b, t, same, -⟩ := h.leading
  have front : ∀ b ∈ signText s.neg ++ s.whole, isCut b = false := by
    intro b mem
    obtain digit | rfl := mem_front h mem
    · exact isCut_of_isDigit digit
    · rfl
  have frontSome : signText s.neg ++ s.whole ≠ [] := by simp [same]
  have fraction : ∀ b ∈ s.fraction, isCut b = false :=
    fun b mem => isCut_of_isDigit (h.fraction_digits b mem)
  have exponent : ∀ x, pieces (exponentSign x :: exponentDigits x) =
    [exponentSign x :: exponentDigits x] := by
    intro x
    refine pieces_of_plain (fun b mem => ?_) (by simp)
    obtain digit | rfl | rfl := mem_exponent mem
    · exact isCut_of_isDigit digit
    · rfl
    · rfl
  rw [text_eq]
  unfold pointText
  split
  · cases s.exponent with
    | none =>
        rw [exponentText, List.append_nil, List.append_nil, pieces_of_plain front frontSome]
        rfl
    | some x =>
        rw [exponentText, List.nil_append, pieces_append front frontSome rfl, exponent]
        rfl
  · next some =>
    have fractionSome : s.fraction ≠ [] := by simpa using some
    rw [List.cons_append, pieces_append front frontSome rfl]
    cases s.exponent with
    | none =>
        rw [exponentText, List.append_nil, pieces_of_plain fraction fractionSome]
        rfl
    | some x =>
        rw [exponentText, pieces_append fraction fractionSome rfl, exponent]
        rfl

/-- No piece of a numeral is refused. -/
theorem pieces_fit (h : s.IsNumeral) : (pieces s.text).all underscoresFit = true := by
  obtain ⟨b, t, same, -⟩ := h.leading
  rw [List.all_eq_true, pieces_text h]
  intro piece mem
  obtain rfl | mem := List.mem_cons.1 mem
  · refine underscoresFit_digits ?_ h.whole_digits (by simp [same])
    obtain sign | sign := signText_cases s.neg
    · exact .inl sign
    · exact .inr ⟨_, sign, .inl rfl⟩
  · obtain mem | mem := List.mem_append.1 mem
    · split at mem
      · cases mem
      · next some =>
        obtain rfl := List.mem_singleton.1 mem
        exact @underscoresFit_digits [] _ (.inl rfl) h.fraction_digits (by simpa using some)
    · revert mem
      cases s.exponent with
      | none => simp
      | some x =>
          intro mem
          obtain rfl := List.mem_singleton.1 mem
          obtain ⟨digits, some, -⟩ := exponentDigits_spec x
          exact @underscoresFit_digits [exponentSign x] _
            (.inr ⟨_, rfl, exponentSign_cases x⟩) digits some

/-- No zero stands before other digits. -/
theorem hasLeadingZero_front (h : s.IsNumeral) :
    hasLeadingZero (signText s.neg ++ s.whole) = false := by
  obtain ⟨b, t, same, zero⟩ := h.leading
  have digit := h.whole_digits b (by simp [same])
  rw [same]
  obtain sign | sign := signText_cases s.neg
  · rw [sign, List.nil_append]
    cases t with
    | nil => rfl
    | cons c t =>
        have other : ¬ b = ascii '0' := fun same => by cases zero same
        have minus : b ≠ ascii '-' := Text.ne_of_isDigit digit rfl
        have plus : b ≠ ascii '+' := Text.ne_of_isDigit digit rfl
        simp [hasLeadingZero, other, minus, plus]
  · rw [sign]
    by_cases zero' : b = ascii '0'
    · rw [zero', zero zero']
      rfl
    · have minus : ¬ ascii '-' = ascii '0' := by decide
      simp [hasLeadingZero, zero', minus]

theorem pointsFit_append {a : Text} (absent : ascii '.' ∉ a) (rest : Text) :
    pointsFit (a ++ rest) = pointsFit rest := by
  induction a with
  | nil => rfl
  | cons b a ih =>
      simp only [List.mem_cons, not_or] at absent
      have other : (b != ascii '.') = true := bne_iff_ne.2 fun same => absent.1 same.symm
      rw [List.cons_append, pointsFit, other, Bool.true_or, Bool.true_and, ih absent.2]

/-- A digit stands behind the point of a numeral. -/
theorem pointsFit_text (h : s.IsNumeral) : pointsFit s.text = true := by
  have exponent : pointsFit (exponentText s.exponent) = true := by
    have absent : ascii '.' ∉ exponentText s.exponent := by
      intro mem
      have := mem_exponentText mem
      revert this
      decide
    rw [← List.append_nil (exponentText s.exponent), pointsFit_append absent]
    rfl
  have front : ascii '.' ∉ signText s.neg ++ s.whole := by
    intro mem
    have := mem_front h mem
    revert this
    decide
  have fraction : ascii '.' ∉ s.fraction :=
    fun mem => Text.ne_of_isDigit (h.fraction_digits _ mem) rfl rfl
  rw [text_eq, pointsFit_append front]
  unfold pointText
  split
  · exact exponent
  · next some =>
    obtain ⟨d, ds, same⟩ := List.exists_cons_of_ne_nil (by simpa using some : s.fraction ≠ [])
    have digit := h.fraction_digits d (by simp [same])
    rw [List.cons_append, pointsFit, pointsFit_append fraction, exponent, same]
    simp [digit]

/-- A numeral is read as a float as it stands. -/
theorem float?_text (h : s.IsNumeral) : float? s.text = readFloat? s.text := by
  have clean : s.text.filter (· != ascii '_') = s.text := by
    refine List.filter_eq_self.2 fun b mem => bne_iff_ne.2 ?_
    rintro rfl
    have := mem_text h mem
    revert this
    decide
  have leading : ((pieces s.text).head?.any hasLeadingZero) = false := by
    rw [pieces_text h, List.head?_cons, Option.any_some, hasLeadingZero_front h]
  unfold float?
  simp only [pieces_fit h, leading, pointsFit_text h, clean]
  rfl

/-- Digits are read as an integer, if it fits. -/
theorem readInteger?_front (h : s.IsNumeral) :
    readInteger? (signText s.neg ++ s.whole) = word? (signed s.neg (Text.value s.whole)) := by
  obtain ⟨b, t, same, zero⟩ := h.leading
  have digit := h.whole_digits b (by simp [same])
  have digits : ∀ b ∈ s.whole, (b != ascii '_') = true :=
    fun b mem => bne_iff_ne.2 (Text.ne_of_isDigit (h.whole_digits b mem) rfl)
  have sign : splitSign (signText s.neg ++ s.whole) = (s.neg, s.whole) := by
    cases s.neg with
    | true => rfl
    | false =>
        rw [same]
        exact splitSign_of_digit digit t
  have base : splitBase s.whole = (10, false, s.whole) := by
    rw [same]
    by_cases zero' : b = ascii '0'
    · rw [zero', zero zero']
      rfl
    · simp [splitBase, zero']
  have clean : s.whole.filter (· != ascii '_') = s.whole := List.filter_eq_self.2 digits
  have nonempty : s.whole.isEmpty = false := by simp [same]
  have marks : Number.underscoresFit false s.whole = true := by
    have step : ∀ (ds : Text) (after : Bool), (∀ b ∈ ds, (b != ascii '_') = true) →
        Number.underscoresFit.go after ds = true := by
      intro ds
      induction ds with
      | nil => exact fun _ _ => rfl
      | cons d ds ih =>
          intro after digits
          have other := bne_iff_ne.1 (digits d (by simp))
          simp only [Number.underscoresFit.go, if_neg other]
          exact ih true fun c mem => digits c (by simp [mem])
    exact step _ _ digits
  unfold readInteger?
  simp only [sign, base, clean, nonempty, marks, Text.readDigits?_eq h.whole_digits]
  rfl

theorem integer?_front (h : s.IsNumeral) :
    integer? (signText s.neg ++ s.whole) = word? (signed s.neg (Text.value s.whole)) := by
  have fit : underscoresFit (signText s.neg ++ s.whole) = true :=
    List.all_eq_true.1 (pieces_fit h) _ (by rw [pieces_text h]; exact List.mem_cons_self)
  unfold integer?
  rw [fit, hasLeadingZero_front h, ← readInteger?_front h]
  rfl

/-- What follows the digits before the point of a numeral in an array. -/
theorem head_rest (tail : Text) (closes : AfterItem tail) (s : Spelled) :
    ∀ b ∈ (pointText s.fraction ++ exponentText s.exponent ++ tail).head?,
      b = ascii '.' ∨ b = ascii 'e' ∨ b = ascii ',' ∨ b = ascii ']' := by
  obtain ⟨c, t, rfl, close⟩ := closes
  intro b mem
  unfold pointText at mem
  split at mem
  · cases exponent : s.exponent with
    | none =>
        rw [exponent] at mem
        obtain rfl := Option.some.inj mem
        exact .inr (.inr close)
    | some x =>
        rw [exponent] at mem
        obtain rfl := Option.some.inj mem
        exact .inr (.inl rfl)
  · obtain rfl := Option.some.inj mem
    exact .inl rfl

theorem isFloatByte_of_mem (h : s.IsNumeral) {b : UInt8}
    (mem : b ∈ pointText s.fraction ++ exponentText s.exponent) : isFloatByte b = true := by
  have cases : Text.isDigit b = true ∨ b = ascii '-' ∨ b = ascii '.' ∨ b = ascii 'e' ∨ b =
    ascii '+' :=
    mem_text h (by rw [text_eq]; exact List.mem_append_right _ mem)
  obtain digit | rfl | rfl | rfl | rfl := cases
  · simp [isFloatByte, isDecimalByte, digit]
  all_goals rfl

/-- What a numeral denotes in a document. -/
def denoted (s : Spelled) : Option Term :=
  if s.fraction = [] ∧ s.exponent = none then (word? (signed s.neg s.number)).map .integer
  else (readFloat? s.text).map .float

theorem readDecimal_text (h : s.IsNumeral) {tail : Text} (closes : AfterItem tail) :
    readDecimal (signText s.neg) (s.body ++ tail) = (denoted s).map (·, tail) := by
  have cut : span isDecimalByte (s.body ++ tail) =
      (s.whole, pointText s.fraction ++ exponentText s.exponent ++ tail) := by
    rw [body, List.append_assoc]
    refine span_append ?_ ?_
    · intro b mem
      simp [isDecimalByte, h.whole_digits b mem]
    · intro b mem
      obtain rfl | rfl | rfl | rfl := head_rest tail closes s b mem <;> rfl
  have text : signText s.neg ++ s.whole ++
    (pointText s.fraction ++ exponentText s.exponent) = s.text :=
    (text_eq s).symm
  unfold readDecimal denoted
  rw [cut]
  by_cases whole : s.fraction = [] ∧ s.exponent = none
  · obtain ⟨b, t, rfl, close⟩ := closes
    have plain : startsFraction (b :: t) = false := by
      obtain rfl | rfl := close <;> rfl
    simp only [whole, pointText, exponentText, List.isEmpty_nil, if_true, List.nil_append, plain,
      Bool.false_eq_true, if_false, integer?_front h, number, List.append_nil, and_self,
        Option.map_map]
    rfl
  · have starts : startsFraction
      (pointText s.fraction ++ exponentText s.exponent ++ tail) = true := by
      unfold pointText
      split
      · next none =>
        cases exponent : s.exponent with
        | none => exact absurd ⟨by simpa using none, exponent⟩ whole
        | some x => rfl
      · rfl
    have more : span isFloatByte (pointText s.fraction ++ exponentText s.exponent ++ tail) =
        (pointText s.fraction ++ exponentText s.exponent, tail) := by
      refine span_append (fun b mem => isFloatByte_of_mem h mem) ?_
      obtain ⟨b, t, rfl, close⟩ := closes
      intro c mem
      obtain rfl := Option.some.inj mem
      obtain rfl | rfl := close <;> rfl
    simp only [starts, if_true, more, text, float?_text h, if_neg whole, Option.map_map]
    rfl

theorem readSpecial_of_digit {b : UInt8} (digit : Text.isDigit b = true) (neg : Bool) (t : Text) :
    readSpecial neg (b :: t) = none := by
  have inf : ("inf" : Text) = ascii 'i' :: ("nf" : Text) := rfl
  have nan : ("nan" : Text) = ascii 'n' :: ("an" : Text) := rfl
  have i : (ascii 'i' == b) = false := beq_false_of_ne (Text.ne_of_isDigit digit rfl).symm
  have n : (ascii 'n' == b) = false := beq_false_of_ne (Text.ne_of_isDigit digit rfl).symm
  simp only [readSpecial, inf, nan, List.isPrefixOf, i, n, Bool.false_and,
    Bool.false_eq_true, if_false]

/-- A numeral in an array is read whole. -/
theorem readNumber_text (h : s.IsNumeral) {tail : Text} (closes : AfterItem tail) :
    readNumber (s.text ++ tail) = (denoted s).map (·, tail) := by
  have decimal := readDecimal_text h closes
  obtain ⟨b, t, same, zero⟩ := h.leading
  have digit := h.whole_digits b (by simp [same])
  have digits : ∀ c ∈ t, Text.isDigit c = true :=
    fun c mem => h.whole_digits c (by simp [same, mem])
  have head := head_rest tail closes s
  have front : s.body ++ tail =
    b :: (t ++ (pointText s.fraction ++ exponentText s.exponent ++ tail)) := by
    rw [body, same, List.append_assoc]
    rfl
  generalize pointText s.fraction ++ exponentText s.exponent ++ tail = rest at head front
  cases neg : s.neg with
  | true =>
      have text : s.text ++ tail = ascii '-' :: (s.body ++ tail) := by
        rw [Number.Spelled.text, neg]
        rfl
      rw [neg, front] at decimal
      rw [text, front]
      unfold readNumber
      simp only [readSpecial_of_digit digit, List.head?_cons, Option.any_some, digit,
        if_true, or_true]
      exact decimal
  | false =>
      have text : s.text ++ tail = s.body ++ tail := by
        rw [Number.Spelled.text, neg]
        rfl
      rw [neg, front] at decimal
      rw [text, front]
      -- No base mark and no mark of a date or time follows.
      have next : ∀ c ∈ (t ++ rest).head?,
          Text.isDigit c = true ∨ c = ascii '.' ∨ c = ascii 'e' ∨ c = ascii ',' ∨ c =
            ascii ']' := by
        intro c mem
        cases t with
        | nil => exact .inr (head c mem)
        | cons d t =>
            obtain rfl := Option.some.inj mem
            exact .inl (digits _ List.mem_cons_self)
      have base : ∀ c, Text.isDigit c = false →
        c ∉ ([ascii '.', ascii 'e', ascii ',', ascii ']'] : Text) →
          ¬ (t ++ rest).head? = some c := by
        intro c plain other found
        obtain digit | mark := next c found
        · rw [plain] at digit
          cases digit
        · exact other (by simpa using mark)
      have after : (b :: (t ++ rest)).dropWhile Text.isDigit = rest := by
        rw [← List.cons_append]
        refine dropWhile_append ?_ ?_
        · intro c mem
          obtain rfl | mem := List.mem_cons.1 mem
          · exact digit
          · exact digits c mem
        · intro c mem
          obtain rfl | rfl | rfl | rfl := head c mem <;> rfl
      have plain : (rest.head?.any fun c => c == ascii '-' || c == ascii ':') = false := by
        cases first : rest.head? with
        | none => rfl
        | some c => obtain rfl | rfl | rfl | rfl := head c first <;> rfl
      have plus : ¬ b = ascii '+' := Text.ne_of_isDigit digit rfl
      have minus : ¬ b = ascii '-' := Text.ne_of_isDigit digit rfl
      unfold readNumber
      simp only [plus, minus, or_self, if_false, base (ascii 'x') rfl (by decide),
        base (ascii 'o') rfl (by decide), base (ascii 'b') rfl (by decide), and_false, span, after,
          plain, Bool.false_eq_true]
      exact decimal

end Spelled

end Lightboard.Toml
