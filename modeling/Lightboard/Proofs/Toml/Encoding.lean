import Lightboard.Proofs.Text.Characters
import Lightboard.Proofs.Text.Digits
import Lightboard.Toml.Document

/-!
# Reading keeps characters whole

A document is UTF-8, and everything its readers look for is ASCII. So a reader never cuts a
character: the texts it takes are UTF-8, and so is what it leaves.
-/

namespace Lightboard.Toml

open Text (IsUtf8)

theorem small_of_isSpace {b : UInt8} (h : isSpace b = true) : b.toNat < 128 := by
  simp only [isSpace, Bool.or_eq_true, beq_iff_eq] at h
  obtain rfl | rfl := h <;> decide

theorem small_of_isLineEnd {b : UInt8} (h : isLineEnd b = true) : b.toNat < 128 := by
  simp only [isLineEnd, Bool.or_eq_true, beq_iff_eq] at h
  obtain rfl | rfl := h <;> decide

theorem small_of_white {b : UInt8} (h : (isSpace b || isLineEnd b) = true) : b.toNat < 128 := by
  obtain space | line := Bool.or_eq_true_iff.1 h
  · exact small_of_isSpace space
  · exact small_of_isLineEnd line

theorem small_of_isDigit {b : UInt8} (h : Text.isDigit b = true) : b.toNat < 128 := by
  have := (Text.isDigit_iff b).1 h
  omega

theorem small_of_digit? {b : UInt8} {d : Nat} (h : Text.digit? b = some d) : b.toNat < 128 := by
  unfold Text.digit? at h
  split at h
  · next digit => exact small_of_isDigit digit
  · split at h
    · next letter =>
      have : b.toNat ≤ (ascii 'z').toNat := letter.2
      exact lt_of_le_of_lt this (by decide)
    · split at h
      · next letter =>
        have : b.toNat ≤ (ascii 'Z').toNat := letter.2
        exact lt_of_le_of_lt this (by decide)
      · cases h

theorem small_of_isDecimalByte {b : UInt8} (h : isDecimalByte b = true) : b.toNat < 128 := by
  simp only [isDecimalByte, Bool.or_eq_true, beq_iff_eq] at h
  obtain digit | rfl := h
  · exact small_of_isDigit digit
  · decide

theorem small_of_isFloatByte {b : UInt8} (h : isFloatByte b = true) : b.toNat < 128 := by
  simp only [isFloatByte, Bool.or_eq_true, beq_iff_eq] at h
  obtain ((((decimal | rfl) | rfl) | rfl) | rfl) | rfl := h
  · exact small_of_isDecimalByte decimal
  all_goals decide

theorem small_of_isMomentByte {b : UInt8} (h : isMomentByte b = true) : b.toNat < 128 := by
  simp only [isMomentByte, Bool.or_eq_true] at h
  obtain digit | mark := h
  · exact small_of_isDigit digit
  · have all : Text.IsAscii "-:Tt .Zz+" := by decide
    exact all b (List.contains_iff_mem.1 mark)

theorem small_of_isBareByte {b : UInt8} (h : isBareByte b = true) : b.toNat < 128 := by
  simp only [isBareByte, Bool.or_eq_true, Bool.and_eq_true, decide_eq_true_eq, beq_iff_eq] at h
  obtain (((digit | ⟨-, letter⟩) | ⟨-, letter⟩) | rfl) | rfl := h
  · exact small_of_isDigit digit
  · exact lt_of_le_of_lt (show b.toNat ≤ (ascii 'z').toNat from letter) (by decide)
  · exact lt_of_le_of_lt (show b.toNat ≤ (ascii 'Z').toNat from letter) (by decide)
  · decide
  · decide

theorem isUtf8_skipSpace {t : Text} (h : IsUtf8 t) :
    IsUtf8 (skipSpace t) := h.dropWhile fun _ => small_of_isSpace

theorem isUtf8_skipLine {t : Text} (h : IsUtf8 t) : IsUtf8 (skipLine t) := by
  refine h.dropUntil fun b stop => ?_
  rw [Bool.not_eq_false'] at stop
  exact small_of_isLineEnd stop

theorem isUtf8_skipBlank (fuel : Nat) {t : Text} (h : IsUtf8 t) : IsUtf8 (skipBlank fuel t) := by
  induction fuel generalizing t with
  | zero => exact h
  | succ fuel ih =>
      have rest := h.dropWhile fun b => @small_of_white b
      rw [skipBlank]
      split
      · next b u same =>
        split
        · exact ih (isUtf8_skipLine (same ▸ rest))
        · exact same ▸ rest
      · exact .nil

theorem small_of_readDigits? {base : Nat} {ds : Text} {n : Nat}
    (h : Text.readDigits? base ds = some n) : ds.IsAscii := by
  intro b mem
  obtain ⟨d, digit⟩ := Text.digit?_of_readDigits? h mem
  exact small_of_digit? digit

/-- An escape is ASCII, and it stands for a character. -/
theorem escape?_spec {t out rest : Text} (h : escape? t = some (out, rest)) :
    ∃ front, t = front ++ rest ∧ front.IsAscii ∧ IsUtf8 out := by
  cases t with
  | nil => cases h
  | cons b t =>
      have point : ∀ n, b.toNat < 128 → (codePoint? (t.take n)).map (·, t.drop n) =
        some (out, rest) →
          ∃ front : Text, b :: t = front ++ rest ∧ front.IsAscii ∧ IsUtf8 out := by
        intro n small h
        obtain ⟨u, code, same⟩ := Option.map_eq_some_iff.1 h
        cases same
        simp only [codePoint?, Option.bind_eq_bind, Option.bind_eq_some_iff] at code
        obtain ⟨m, digits, c, -, same⟩ := code
        cases same
        exact ⟨b :: t.take n, by simp, .cons small (small_of_readDigits? digits), .char c⟩
      have one : ∀ c : UInt8, b.toNat < 128 → c.toNat < 128 → some ([c], t) = some (out, rest) →
          ∃ front : Text, b :: t = front ++ rest ∧ front.IsAscii ∧ IsUtf8 out := by
        intro c small value h
        cases h
        exact ⟨[b], rfl, .cons small .nil, .byte value⟩
      rw [escape?] at h
      repeat' split at h
      -- Each escape begins with a letter or mark of its own.
      all_goals try (subst b; exact one _ (by decide) (by decide) h)
      · next code => exact point 4 (by rw [code.1]; decide) h
      · next code => exact point 8 (by rw [code.1]; decide) h
      · cases h

/-- Escapes are replaced between characters; `front` is what is already done of the one at hand. -/
theorem isUtf8_unescapeFrom {t u : Text} (front : Text) {skip : Nat}
    (h : IsUtf8 (front ++ t.drop skip))
    (value : unescapeFrom skip t = some u) : IsUtf8 (front ++ u) := by
  induction t generalizing front skip u with
  | nil =>
      obtain rfl := Option.some.inj value
      rwa [List.drop_nil] at h
  | cons b t ih =>
      cases skip with
      | succ k => exact ih front h value
      | zero =>
          rw [unescapeFrom] at value
          split at value
          · next same =>
            subst b
            obtain ⟨⟨out, rest⟩, escape, value⟩ := Option.bind_eq_some_iff.1 value
            obtain ⟨more, behind, value⟩ := Option.bind_eq_some_iff.1 value
            obtain rfl := Option.some.inj value
            obtain ⟨taken, rfl, small, hout⟩ := escape?_spec escape
            obtain ⟨hfront, ht⟩ := h.cut (by decide)
            have hrest : IsUtf8 rest := ht.of_append small
            have skipped : (taken ++ rest).drop ((taken ++ rest).length - rest.length) =
              rest := by simp
            exact hfront.append (hout.append (ih [] (by rwa [skipped]) behind))
          · obtain ⟨more, behind, rfl⟩ := Option.map_eq_some_iff.1 value
            have := ih (front ++ [b]) (by simpa using h) behind
            simpa using this

theorem isUtf8_unescape {t u : Text} (h : IsUtf8 t) (value : unescape t = some u) : IsUtf8 u :=
  @isUtf8_unescapeFrom t u [] 0 h value

theorem isUtf8_joinLines (front t : Text) {skip : Nat} (escaped : Bool)
    (h : IsUtf8 (front ++ t.drop skip)) :
    IsUtf8 (front ++ joinLines skip escaped t) := by
  induction t generalizing front skip escaped with
  | nil => rwa [List.drop_nil] at h
  | cons b t ih =>
      cases skip with
      | succ k => exact ih front false h
      | zero =>
          have next : ∀ e, IsUtf8 (front ++ b :: joinLines 0 e t) := by
            intro e
            have := @ih (front ++ [b]) 0 e (by simpa using h)
            simpa using this
          rw [joinLines]
          split
          · exact next false
          · split
            · next same =>
              subst b
              split
              · obtain ⟨hfront, ht⟩ := h.cut (by decide)
                refine hfront.append (ih [] false ?_)
                have behind := ht.dropWhile fun b => @small_of_white b
                have whole := @List.takeWhile_append_dropWhile _
                  (fun c => isSpace c || isLineEnd c) t
                have skipped := @List.drop_left _ (t.takeWhile fun c => isSpace c || isLineEnd c)
                  (t.dropWhile fun c => isSpace c || isLineEnd c)
                rw [whole] at skipped
                rwa [List.nil_append, skipped]
              · exact next true
            · exact next false

theorem scanBasic_eq {escaped : Bool} {t s rest : Text} (h : scanBasic escaped t = some (s, rest)) :
    t = s ++ ascii '"' :: rest := by
  induction t generalizing escaped s with
  | nil => cases h
  | cons b t ih =>
      rw [scanBasic] at h
      split at h
      · cases h
      · split at h
        · next mark =>
          cases h
          simp only [Bool.and_eq_true, beq_iff_eq] at mark
          rw [mark.2]
          rfl
        · obtain ⟨⟨s', rest'⟩, behind, same⟩ := Option.map_eq_some_iff.1 h
          cases same
          rw [ih behind]
          rfl

theorem scanLiteral_eq {t s rest : Text} (h : scanLiteral t = some (s, rest)) :
    t = s ++ ascii '\'' :: rest := by
  induction t generalizing s with
  | nil => cases h
  | cons b t ih =>
      rw [scanLiteral] at h
      split at h
      · cases h
      · split at h
        · next mark =>
          cases h
          rw [mark]
          rfl
        · obtain ⟨⟨s', rest'⟩, behind, same⟩ := Option.map_eq_some_iff.1 h
          cases same
          rw [ih behind]
          rfl

theorem scanLines_eq {mark before : UInt8} {escapes escaped : Bool} {run : Nat} {t s rest : Text}
    (h : scanLines mark escapes escaped before run t = some (s, rest)) :
    t = s ++ mark :: mark :: mark :: rest := by
  induction t generalizing escaped before run s with
  | nil => cases h
  | cons b t ih =>
      have next : ∀ {escaped before run}, (scanLines mark escapes escaped before run t).map
          (fun p => (b :: p.1, p.2)) = some (s, rest) →
          b :: t = s ++ mark :: mark :: mark :: rest := by
        intro escaped before run h
        obtain ⟨⟨s', rest'⟩, behind, same⟩ := Option.map_eq_some_iff.1 h
        cases same
        rw [ih behind]
        rfl
      rw [scanLines] at h
      split at h
      · next first =>
        split at h
        · next last =>
          cases h
          simp only [Bool.and_eq_true, beq_iff_eq] at first
          obtain ⟨c, d, u, rfl⟩ : ∃ c d u, t = c :: d :: u := by
            cases t with
            | nil => cases last
            | cons c t =>
              cases t with
              | nil => cases last
              | cons d u => exact ⟨c, d, u, rfl⟩
          simp only [closes, Bool.and_eq_true, beq_iff_eq] at last
          rw [first.2, last.1.1, last.1.2]
          rfl
        · split at h
          · cases h
          · exact next h
      · exact next h

theorem isUtf8_dropFirstLineEnd {t : Text} (h : IsUtf8 t) : IsUtf8 (dropFirstLineEnd t) := by
  fun_cases dropFirstLineEnd t with
  | case1 t => exact h.tail (by decide)
  | case2 t => exact (h.tail (by decide)).tail (by decide)
  | case3 => exact h
  | case4 => exact h
  | case5 => exact h
  | case6 => exact h

/-- On UTF-8, a reader takes only what `P` says and leaves UTF-8. -/
def Keeps {α : Type} (P : α → Prop) (r : Reader α) : Prop :=
  ∀ {t a rest}, IsUtf8 t → r t = some (a, rest) → P a ∧ IsUtf8 rest

theorem scanBasic_keeps (escaped : Bool) : Keeps IsUtf8 (scanBasic escaped) := by
  intro t s rest ht h
  rw [scanBasic_eq h] at ht
  exact ht.cut (by decide)

theorem scanLiteral_keeps : Keeps IsUtf8 scanLiteral := by
  intro t s rest ht h
  rw [scanLiteral_eq h] at ht
  exact ht.cut (by decide)

theorem scanLines_keeps {mark : UInt8} (small : mark.toNat < 128) (escapes escaped : Bool)
    (before : UInt8)
    (run : Nat) : Keeps IsUtf8 (scanLines mark escapes escaped before run) := by
  intro t s rest ht h
  rw [scanLines_eq h] at ht
  obtain ⟨hs, hrest⟩ := ht.cut small
  exact ⟨hs, (hrest.tail small).tail small⟩

theorem readString_keeps : Keeps IsUtf8 readString := by
  intro t s rest ht h
  cases t with
  | nil => cases h
  | cons q t =>
      have opened : q.toNat < 128 → ([q, q] : Text).isPrefixOf t = true → IsUtf8 (t.drop 2) := by
        intro small begins
        obtain ⟨u, rfl⟩ := List.isPrefixOf_iff_prefix.1 begins
        exact ((ht.tail small).tail small).tail small
      rw [readString] at h
      split at h
      · next same =>
        subst q
        split at h
        · next begins =>
          obtain ⟨⟨raw, t'⟩, scan, h⟩ := Option.bind_eq_some_iff.1 h
          obtain ⟨u, value, h⟩ := Option.bind_eq_some_iff.1 h
          cases h
          obtain ⟨hraw, hrest⟩ :=
            scanLines_keeps (by decide) _ _ _ _ (opened (by decide) begins) scan
          have joined := @isUtf8_joinLines [] (dropFirstLineEnd raw) 0 false
            (isUtf8_dropFirstLineEnd hraw)
          exact ⟨isUtf8_unescape joined value, hrest⟩
        · obtain ⟨⟨raw, t'⟩, scan, h⟩ := Option.bind_eq_some_iff.1 h
          obtain ⟨u, value, h⟩ := Option.bind_eq_some_iff.1 h
          cases h
          obtain ⟨hraw, hrest⟩ := scanBasic_keeps false (ht.tail (by decide)) scan
          exact ⟨isUtf8_unescape hraw value, hrest⟩
      · split at h
        · next same =>
          subst q
          split at h
          · next begins =>
            obtain ⟨⟨raw, t'⟩, scan, same⟩ := Option.map_eq_some_iff.1 h
            cases same
            obtain ⟨hraw, hrest⟩ :=
              scanLines_keeps (by decide) _ _ _ _ (opened (by decide) begins) scan
            exact ⟨isUtf8_dropFirstLineEnd hraw, hrest⟩
          · exact scanLiteral_keeps (ht.tail (by decide)) h
        · cases h

/-- A term whose texts are UTF-8, keys aside. -/
inductive Term.IsUtf8 : Term → Prop where
  | text {t : Text} : t.IsUtf8 → Term.IsUtf8 (.text t)
  | integer (n : Int) : Term.IsUtf8 (.integer n)
  | float (x : Float) : Term.IsUtf8 (.float x)
  | boolean (b : Bool) : Term.IsUtf8 (.boolean b)
  | moment (m : Moment) : Term.IsUtf8 (.moment m)
  | array {items : List Term} : (∀ v ∈ items, Term.IsUtf8 v) → Term.IsUtf8 (.array items)
  | table {pairs : List (Path × Term)} : (∀ p ∈ pairs, Term.IsUtf8 p.2) → Term.IsUtf8 (.table pairs)

theorem readDecimal_keeps (sign : Text) : Keeps Term.IsUtf8 (readDecimal sign) := by
  intro t v rest ht h
  have behind := ht.dropWhile fun b => @small_of_isDecimalByte b
  change (if startsFraction (t.dropWhile isDecimalByte) = true then _ else _) = _ at h
  split at h
  · obtain ⟨x, -, same⟩ := Option.map_eq_some_iff.1 h
    cases same
    exact ⟨.float x, behind.dropWhile fun b => @small_of_isFloatByte b⟩
  · obtain ⟨n, -, same⟩ := Option.map_eq_some_iff.1 h
    cases same
    exact ⟨.integer n, behind⟩

/-- What is left after a word of ASCII. -/
theorem isUtf8_drop {w t : Text} (small : w.IsAscii) (ht : IsUtf8 t)
    (begins : w.isPrefixOf t = true) :
    IsUtf8 (t.drop w.length) := by
  obtain ⟨u, rfl⟩ := List.isPrefixOf_iff_prefix.1 begins
  rw [List.drop_left]
  exact ht.of_append small

theorem readSpecial_keeps (neg : Bool) : Keeps Term.IsUtf8 (readSpecial neg) := by
  intro t v rest ht h
  rw [readSpecial] at h
  split at h
  · next begins =>
    cases h
    exact ⟨.float _, @isUtf8_drop "inf" t (by decide) ht begins⟩
  · split at h
    · next begins =>
      cases h
      exact ⟨.float _, @isUtf8_drop "nan" t (by decide) ht begins⟩
    · cases h

theorem readBased_keeps (base : Nat) (mark : UInt8) : Keeps Term.IsUtf8 (readBased base mark) := by
  intro t v rest ht h
  simp only [readBased, span] at h
  split at h
  · obtain ⟨n, -, same⟩ := Option.map_eq_some_iff.1 h
    cases same
    refine ⟨.integer n, ht.dropWhile fun b inside => ?_⟩
    simp only [Bool.or_eq_true, beq_iff_eq] at inside
    obtain digit | rfl := inside
    · obtain ⟨d, found, -⟩ := (Option.any_eq_true _ _).1 digit
      exact small_of_digit? found
    · decide
  · cases h

theorem readNumber_keeps : Keeps Term.IsUtf8 readNumber := by
  intro t v rest ht h
  cases t with
  | nil => cases h
  | cons b t =>
      have based : ∀ {base : Nat} {c mark : UInt8}, c.toNat < 128 → b = ascii '0' ∧
        t.head? = some c →
          readBased base mark (t.drop 1) = some (v, rest) → v.IsUtf8 ∧ IsUtf8 rest := by
        rintro base c mark small ⟨rfl, first⟩ h
        cases t with
        | nil => cases first
        | cons d t =>
            obtain rfl := Option.some.inj first
            exact readBased_keeps base mark ((ht.tail (by decide)).tail small) h
      rw [readNumber] at h
      split at h
      · next sign =>
        have small : b.toNat < 128 := by obtain rfl | rfl := sign <;> decide
        split at h
        · next r special =>
          obtain rfl := Option.some.inj h
          exact readSpecial_keeps _ (ht.tail small) special
        · split at h
          · exact readDecimal_keeps _ (ht.tail small) h
          · cases h
      · split at h
        · next mark => exact based (by decide) mark h
        · split at h
          · next mark => exact based (by decide) mark h
          · split at h
            · next mark => exact based (by decide) mark h
            · change (if (((b :: t).dropWhile Text.isDigit).head?.any _) =
                true then _ else _) = _ at h
              split at h
              · obtain ⟨m, -, same⟩ := Option.map_eq_some_iff.1 h
                cases same
                exact ⟨.moment m, ht.dropWhile fun b => @small_of_isMomentByte b⟩
              · exact readDecimal_keeps [] ht h

theorem readKeyPart_keeps : Keeps (fun _ => True) readKeyPart := by
  intro t part rest ht h
  cases t with
  | nil => cases h
  | cons b t =>
      rw [readKeyPart] at h
      split at h
      · next same =>
        subst b
        obtain ⟨⟨raw, t'⟩, scan, h⟩ := Option.bind_eq_some_iff.1 h
        obtain ⟨u, -, h⟩ := Option.bind_eq_some_iff.1 h
        cases h
        exact ⟨trivial, (scanBasic_keeps false (ht.tail (by decide)) scan).2⟩
      · split at h
        · next same =>
          subst b
          exact ⟨trivial, (scanLiteral_keeps (ht.tail (by decide)) h).2⟩
        · change (if ((b :: t).takeWhile isBareByte).isEmpty = true then none else some _) = _ at h
          split at h
          · cases h
          · cases h
            exact ⟨trivial, ht.dropWhile fun b => @small_of_isBareByte b⟩

theorem readKey_keeps (fuel : Nat) : Keeps (fun _ => True) (readKey fuel) := by
  induction fuel with
  | zero =>
      intro t key rest ht h
      cases h
  | succ fuel ih =>
      intro t key rest ht h
      rw [readKey] at h
      obtain ⟨⟨part, t'⟩, read, h⟩ := Option.bind_eq_some_iff.1 h
      have ht' := isUtf8_skipSpace (readKeyPart_keeps (isUtf8_skipSpace ht) read).2
      simp only at h
      split at h
      · next b u same =>
        rw [same] at ht'
        split at h
        · next dot =>
          subst b
          obtain ⟨⟨parts, t''⟩, more, h⟩ := Option.bind_eq_some_iff.1 h
          cases h
          exact ⟨trivial, (ih (ht'.tail (by decide)) more).2⟩
        · cases h
          exact ⟨trivial, ht'⟩
      · cases h
        exact ⟨trivial, .nil⟩

theorem isUtf8_readByte? {c : Char} (small : (ascii c).toNat < 128) {t rest : Text} (ht : IsUtf8 t)
    (h : Instant.readByte? c t = some rest) : IsUtf8 rest := by
  cases t with
  | nil => cases h
  | cons b t =>
      rw [Instant.readByte?] at h
      split at h
      · next same =>
        cases h
        subst b
        exact ht.tail small
      · cases h

theorem readAssigned_keeps : Keeps (fun _ => True) readAssigned := by
  intro t key rest ht h
  obtain ⟨⟨parts, t'⟩, read, h⟩ := Option.bind_eq_some_iff.1 h
  obtain ⟨t'', sign, h⟩ := Option.bind_eq_some_iff.1 h
  cases h
  exact ⟨trivial, isUtf8_readByte? (by decide) (readKey_keeps _ ht read).2 sign⟩

end Lightboard.Toml
