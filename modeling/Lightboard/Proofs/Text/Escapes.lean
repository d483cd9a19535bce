import Lightboard.Proofs.Text.Characters
import Lightboard.Proofs.Text.Digits
import Lightboard.Text.Quoted

/-!
# Quoted texts can be told apart

In a quoted text each character is written so that it can be read back whatever comes behind it
(`unquote?_quoteRune`), and none is written with a quotation mark in front. So a quoted text ends
where it ends: if two of them begin the same longer text, they are the same (`quoted_cut`).
-/

namespace Lightboard.Text

/-- A hexadecimal digit counts for what it stands for. -/
theorem digit?_digitChar : ∀ d < 16, digit? (Nat.digitChar d).toUInt8 = some d := by
  decide

/-- One more digit behind others. -/
theorem readDigits?_concat (base : Nat) (t : Text) (b : UInt8) :
    readDigits? base (t ++ [b]) =
      (readDigits? base t).bind fun n =>
        (digit? b).bind fun d => if d < base then some (n * base + d) else none := by
  rw [readDigits?, List.foldl_append]
  rfl

theorem readDigits?_numeral (n : Nat) : readDigits? 16 (numeral 16 n) = some n := by
  induction n using Nat.strongRecOn with
  | ind n ih =>
      have split := Nat.div_add_mod' n 16
      have low : n % 16 < 16 := Nat.mod_lt n (by decide)
      unfold numeral at ih ⊢
      rw [Nat.toDigits_eq_if (by decide)]
      split
      · next small =>
        have single := readDigits?_concat 16 [] (Nat.digitChar n).toUInt8
        rw [digit?_digitChar n small] at single
        refine single.trans ?_
        simp [readDigits?, small]
      · next large =>
        rw [List.map_append, List.map_singleton, readDigits?_concat, ih (n / 16) (by omega),
          digit?_digitChar _ low]
        simp [low, split]

theorem readDigits?_padLeft (base width : Nat) (positive : 0 < base) (t : Text) :
    readDigits? base (padLeft (ascii '0') width t) = readDigits? base t := by
  have zeros (k : Nat) : readDigits? base (List.replicate k (ascii '0')) = some 0 := by
    induction k with
    | zero => rfl
    | succ k ih =>
        rw [List.replicate_succ', readDigits?_concat, ih]
        simp [show digit? (ascii '0') = some 0 from rfl, positive]
  have padding := zeros (width - t.length)
  unfold readDigits? at padding ⊢
  rw [padLeft, List.foldl_append, padding]

/-- A padded number is read back from its digits, if there are enough of them. -/
theorem hex_spec {width n : Nat} (positive : 0 < width) (fits : n < 16 ^ width) :
    (hex width n).length = width ∧ readDigits? 16 (hex width n) = some n := by
  have short : (numeral 16 n).length ≤ width := by
    rw [numeral, List.length_map]
    exact (Nat.length_toDigits_le_iff (by decide) positive).mpr fits
  refine ⟨?_, ?_⟩
  · rw [hex, padLeft, List.length_append, List.length_replicate]
    omega
  · rw [hex, readDigits?_padLeft 16 width (by decide), readDigits?_numeral]

/-- The digits that an escape takes behind its letter, if it takes any. -/
def escapeWidth? (b : UInt8) : Option Nat :=
  if b = ascii 'x' then some 2
  else if b = ascii 'u' then some 4
  else if b = ascii 'U' then some 8
  else none

/-- The characters that are escaped by one letter or mark, each with its own. -/
def escapeTable : List (UInt8 × Char) :=
  [(ascii '"', '"'), (ascii '\\', '\\'), (ascii 'a', '\x07'), (ascii 'b', '\x08'),
   (ascii 'f', '\x0c'), (ascii 'n', '\n'), (ascii 'r', '\r'), (ascii 't', '\t'),
   (ascii 'v', '\x0b')]

/-- Reads the rest of an escape behind its backslash. -/
def unescape? : Text → Option (Char × Text)
  | [] => none
  | b :: t =>
    match escapeWidth? b with
    | some width => do
      let n ← readDigits? 16 (t.take width)
      let c ← scalar? n
      some (c, t.drop width)
    | none => (escapeTable.lookup b).map (·, t)

/-- Reads one character as it is written between quotation marks. -/
def unquote? : Text → Option (Char × Text)
  | [] => none
  | b :: t =>
    if b = ascii '\\' then unescape? t else (leading? b t).map fun (c, k) => (c, t.drop k)

theorem unescape?_hex {b : UInt8} {width : Nat} (takes : escapeWidth? b = some width)
    (positive : 0 < width) (c : Char) (fits : c.toNat < 16 ^ width) (rest : Text) :
    unescape? (b :: (hex width c.toNat ++ rest)) = some (c, rest) := by
  obtain ⟨length, value⟩ := hex_spec positive fits
  have front : (hex width c.toNat ++ rest).take width = hex width c.toNat := by
    rw [List.take_append_of_le_length length.ge, List.take_of_length_le length.le]
  have back : (hex width c.toNat ++ rest).drop width = rest := by
    rw [List.drop_append_of_le_length length.ge, List.drop_of_length_le length.le, List.nil_append]
  simp only [unescape?, takes, front, back, value, Option.bind_eq_bind, Option.bind_some,
    scalar?_toNat]

theorem unescape?_letter {n : Nat} {l : Char} (letter : escapeLetter? n = some l) {c : Char}
    (point : c.toNat = n) (rest : Text) : unescape? (ascii l :: rest) = some (c, rest) := by
  obtain rfl : c = Char.ofNat n := point ▸ (Char.ofNat_toNat c).symm
  unfold escapeLetter? at letter
  split at letter
  all_goals cases letter
  all_goals rfl

/-- A character whose bytes begin with an ASCII byte is the character of that byte. -/
theorem toNat_of_bytes {c : Char} {b : UInt8} {t : Text} (bytes : String.utf8EncodeChar c = b :: t)
    (small : b.toNat < 128) : c.toNat = b.toNat := by
  obtain ⟨least, single⟩ | ⟨-, large⟩ := utf8EncodeChar_cases c
  · rw [← (List.cons.inj (single.symm.trans bytes)).1, toNat_ofNat_byte (by omega)]
  · have := large b (by simp [bytes])
    omega

/-- A character that needs no escape is written with other marks than the ones of quoting. -/
theorem first_of_unmarked {c : Char} (unmarked : ¬ (c = '"' ∨ c = '\\')) {b : UInt8} {t : Text}
    (bytes : String.utf8EncodeChar c = b :: t) : b ≠ ascii '"' ∧ b ≠ ascii '\\' := by
  refine ⟨?_, ?_⟩
  · rintro rfl
    exact unmarked (.inl (Char.toNat_inj.mp (toNat_of_bytes bytes (by decide))))
  · rintro rfl
    exact unmarked (.inr (Char.toNat_inj.mp (toNat_of_bytes bytes (by decide))))

/-- Each character is read back from how it is written, whatever comes behind it. -/
theorem unquote?_quoteRune (c : Char) (rest : Text) :
    unquote? (quoteRune '"' false (.char c) ++ rest) = some (c, rest) := by
  simp only [quoteRune]
  split
  · next marked =>
    obtain rfl | rfl := marked <;> rfl
  · next unmarked =>
    split
    · obtain ⟨b, t, bytes, found⟩ := leading?_utf8EncodeChar c
      have unescaped := (first_of_unmarked unmarked bytes).2
      rw [bytes, List.cons_append, unquote?, if_neg unescaped, found rest]
      simp
    · split
      · next letter => exact unescape?_letter letter rfl rest
      · split
        · next control =>
          exact unescape?_hex (b := ascii 'x') rfl (by decide) c (by omega) rest
        · split
          · next narrow =>
            exact unescape?_hex (b := ascii 'u') rfl (by decide) c (by omega) rest
          · have bound := point_lt c
            exact unescape?_hex (b := ascii 'U') rfl (by decide) c (by omega) rest

theorem quoteRune_first (c : Char) :
    ∃ b t, quoteRune '"' false (.char c) = b :: t ∧ b ≠ ascii '"' := by
  simp only [quoteRune]
  split
  · exact ⟨_, _, rfl, by decide⟩
  · next unmarked =>
    split
    · obtain ⟨b, t, bytes, -⟩ := leading?_utf8EncodeChar c
      exact ⟨b, t, bytes, (first_of_unmarked unmarked bytes).1⟩
    · split
      · exact ⟨_, _, rfl, by decide⟩
      · split
        · exact ⟨_, _, rfl, by decide⟩
        · split
          · exact ⟨_, _, rfl, by decide⟩
          · exact ⟨_, _, rfl, by decide⟩

theorem quoted_ofChars (cs : List Char) :
    quoted (ofChars cs) =
      ascii '"' :: (cs.flatMap (fun c => quoteRune '"' false (.char c)) ++ [ascii '"']) := by
  rw [quoted, runes_ofChars, List.flatMap_map]

/-- The closing mark is the first mark that does not belong to a character. -/
theorem quoted_characters_cut {cs ds : List Char} {r r' : Text}
    (same : cs.flatMap (fun c => quoteRune '"' false (.char c)) ++ ascii '"' :: r =
      ds.flatMap (fun c => quoteRune '"' false (.char c)) ++ ascii '"' :: r') :
    cs = ds ∧ r = r' := by
  induction cs generalizing ds with
  | nil =>
      cases ds with
      | nil => exact ⟨rfl, (List.cons.inj same).2⟩
      | cons d ds =>
          obtain ⟨b, t, written, other⟩ := quoteRune_first d
          rw [List.flatMap_cons, written] at same
          exact absurd (List.cons.inj same).1.symm other
  | cons c cs ih =>
      cases ds with
      | nil =>
          obtain ⟨b, t, written, other⟩ := quoteRune_first c
          rw [List.flatMap_cons, written] at same
          exact absurd (List.cons.inj same).1 other
      | cons d ds =>
          simp only [List.flatMap_cons, List.append_assoc] at same
          have read := congrArg unquote? same
          rw [unquote?_quoteRune, unquote?_quoteRune] at read
          obtain ⟨rfl, rest⟩ := Prod.mk.inj (Option.some.inj read)
          obtain ⟨rfl, rfl⟩ := ih rest
          exact ⟨rfl, rfl⟩

/-- If two quoted texts begin the same text, they are the same. -/
theorem quoted_cut {s t r r' : Text} (hs : s.IsUtf8) (ht : t.IsUtf8)
    (same : s.quoted ++ r = t.quoted ++ r') : s = t ∧ r = r' := by
  obtain ⟨cs, rfl⟩ := hs
  obtain ⟨ds, rfl⟩ := ht
  simp only [quoted_ofChars, List.cons_append, List.append_assoc, List.nil_append] at same
  obtain ⟨rfl, rfl⟩ := quoted_characters_cut (List.cons.inj same).2
  exact ⟨rfl, rfl⟩

end Lightboard.Text
