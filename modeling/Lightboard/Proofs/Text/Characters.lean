import Lightboard.Proofs.Text.Utf8
import Mathlib.Data.List.TakeWhile

/-!
# Texts of characters

A text is UTF-8 if it is the text of some characters (`Text.IsUtf8`). An ASCII byte is never part of
another character, so such a text can be cut at any ASCII byte: both parts are UTF-8 again.
-/

namespace Lightboard.Text

/-- A text of characters, without stray bytes. -/
def IsUtf8 (t : Text) : Prop := ∃ cs, t = ofChars cs

/-- A text of ASCII bytes. -/
def IsAscii (t : Text) : Prop := ∀ b ∈ t, b.toNat < 128

instance (t : Text) : Decidable t.IsAscii := List.decidableBAll (fun b : UInt8 => b.toNat < 128) t

theorem IsAscii.nil : IsAscii [] := fun _ mem => absurd mem List.not_mem_nil

theorem IsAscii.cons {b : UInt8} {t : Text} (small : b.toNat < 128) (h : IsAscii t) :
    IsAscii (b :: t) :=
  List.forall_mem_cons.2 ⟨small, h⟩

/-- The text with a replacement character for each stray byte. -/
def repaired (t : Text) : Text := ofChars (t.runes.map Rune.shown)

theorem ofChars_cons (c : Char) (cs : List Char) :
    ofChars (c :: cs) = String.utf8EncodeChar c ++ ofChars cs :=
  List.flatMap_cons

theorem ofChars_append (cs ds : List Char) : ofChars (cs ++ ds) = ofChars cs ++ ofChars ds := by
  simp [ofChars]

/-- A character is one ASCII byte, or all its bytes lie outside ASCII. -/
theorem utf8EncodeChar_cases (c : Char) :
    (c.toNat < 128 ∧ String.utf8EncodeChar c = [UInt8.ofNat c.toNat]) ∨
      (128 ≤ c.toNat ∧ ∀ b ∈ String.utf8EncodeChar c, 128 ≤ b.toNat) := by
  obtain ⟨n, point⟩ : ∃ n, c.toNat = n := ⟨_, rfl⟩
  have bound := point_lt c
  have high : ∀ k, 128 ≤ k → k < 256 → 128 ≤ (UInt8.ofNat k).toNat := by
    intro k low small
    rwa [toNat_ofNat_byte small]
  unfold String.utf8EncodeChar
  simp only [show c.val.toNat = n from point, point]
  rw [point] at bound
  split
  · exact .inl ⟨by omega, rfl⟩
  · refine .inr ⟨by omega, ?_⟩
    split
    · simp only [List.forall_mem_cons]
      exact ⟨high _ (by omega) (by omega), high _ (by omega) (by omega), by simp⟩
    · split
      · simp only [List.forall_mem_cons]
        exact ⟨high _ (by omega) (by omega), high _ (by omega) (by omega),
          high _ (by omega) (by omega), by simp⟩
      · simp only [List.forall_mem_cons]
        exact ⟨high _ (by omega) (by omega), high _ (by omega) (by omega),
          high _ (by omega) (by omega), high _ (by omega) (by omega), by simp⟩

theorem toNat_ofNat_char {b : UInt8} (small : b.toNat < 128) :
    (Char.ofNat b.toNat).toNat = b.toNat := by
  rw [Char.ofNat, dif_pos (show b.toNat.isValidChar from .inl (by omega))]
  rfl

/-- The character of an ASCII byte is this byte. -/
theorem utf8EncodeChar_ofNat {b : UInt8} (small : b.toNat < 128) :
    String.utf8EncodeChar (Char.ofNat b.toNat) = [b] := by
  obtain ⟨-, same⟩ | ⟨large, -⟩ := utf8EncodeChar_cases (Char.ofNat b.toNat)
  · rwa [toNat_ofNat_char small, UInt8.ofNat_toNat] at same
  · rw [toNat_ofNat_char small] at large
    omega

/-- A text that begins outside ASCII. -/
def BeginsHigh (t : Text) : Prop := ∃ b u, t = b :: u ∧ 128 ≤ b.toNat

theorem beginsHigh_utf8EncodeChar {c : Char} (large : 128 ≤ c.toNat) :
    BeginsHigh (String.utf8EncodeChar c) := by
  obtain ⟨small, -⟩ | ⟨-, high⟩ := utf8EncodeChar_cases c
  · omega
  · obtain ⟨b, u, bytes, -⟩ := leading?_utf8EncodeChar c
    exact ⟨b, u, bytes, high b (by simp [bytes])⟩

theorem BeginsHigh.append {s : Text} (high : BeginsHigh s) (t : Text) : BeginsHigh (s ++ t) := by
  obtain ⟨b, u, rfl, large⟩ := high
  exact ⟨b, u ++ t, rfl, large⟩

namespace IsUtf8

theorem nil : IsUtf8 [] := ⟨[], rfl⟩

theorem append {s t : Text} (hs : IsUtf8 s) (ht : IsUtf8 t) : IsUtf8 (s ++ t) := by
  obtain ⟨cs, rfl⟩ := hs
  obtain ⟨ds, rfl⟩ := ht
  exact ⟨cs ++ ds, (ofChars_append cs ds).symm⟩

theorem char (c : Char) : IsUtf8 (String.utf8EncodeChar c) := ⟨[c], by simp [ofChars]⟩

theorem byte {b : UInt8} (small : b.toNat < 128) : IsUtf8 [b] :=
  utf8EncodeChar_ofNat small ▸ char _

theorem cons {b : UInt8} {t : Text} (small : b.toNat < 128) (h : IsUtf8 t) : IsUtf8 (b :: t) :=
  append (byte small) h

theorem ascii {t : Text} (small : t.IsAscii) : IsUtf8 t := by
  induction t with
  | nil => exact nil
  | cons b t ih => exact cons (small b (by simp)) (ih fun c mem => small c (by simp [mem]))

/-- A text of characters can be cut before and behind an ASCII byte. -/
theorem cut {s t : Text} {b : UInt8} (small : b.toNat < 128) (h : IsUtf8 (s ++ b :: t)) :
    IsUtf8 s ∧ IsUtf8 t := by
  obtain ⟨cs, same⟩ := h
  induction cs generalizing s with
  | nil => simp [ofChars] at same
  | cons c cs ih =>
      rw [ofChars_cons] at same
      obtain ⟨x, front, back⟩ | ⟨x, front, back⟩ := List.append_eq_append_iff.1 same
      · -- The byte comes behind the first character or begins it.
        cases x with
        | nil =>
            rw [List.append_nil] at front
            obtain ⟨-, ht⟩ := @ih [] back
            exact ⟨front ▸ char c, ht⟩
        | cons d x =>
            obtain ⟨rfl, rfl⟩ := List.cons.inj back
            obtain ⟨-, single⟩ | ⟨-, large⟩ := utf8EncodeChar_cases c
            · rw [single] at front
              obtain ⟨rfl, rfl⟩ : s = [] ∧ x = [] := by
                have := congrArg List.length front
                simp only [List.length_append, List.length_cons, List.length_nil] at this
                exact ⟨List.length_eq_zero_iff.1 (by omega), List.length_eq_zero_iff.1 (by omega)⟩
              exact ⟨nil, cs, rfl⟩
            · have := large b (by simp [front])
              omega
      · obtain ⟨hx, ht⟩ := ih back.symm
        exact ⟨front ▸ append (char c) hx, ht⟩

theorem tail {b : UInt8} {t : Text} (small : b.toNat < 128) (h : IsUtf8 (b :: t)) : IsUtf8 t :=
  (@cut [] t b small h).2

theorem of_append {s t : Text} (small : s.IsAscii) (h : IsUtf8 (s ++ t)) : IsUtf8 t := by
  induction s with
  | nil => exact h
  | cons b s ih => exact ih (fun c mem => small c (by simp [mem])) (tail (small b (by simp)) h)

/-- What is left after ASCII bytes. -/
theorem dropWhile {p : UInt8 → Bool} (small : ∀ b, p b = true → b.toNat < 128) {t : Text}
    (h : IsUtf8 t) :
    IsUtf8 (t.dropWhile p) := by
  rw [← @List.takeWhile_append_dropWhile _ p t] at h
  exact of_append (fun b mem => small b (List.mem_takeWhile_imp mem)) h

/-- What is left from an ASCII byte on. -/
theorem dropUntil {p : UInt8 → Bool} (small : ∀ b, p b = false → b.toNat < 128) {t : Text}
    (h : IsUtf8 t) :
    IsUtf8 (t.dropWhile p) := by
  cases rest : t.dropWhile p with
  | nil => exact nil
  | cons b r =>
      have stop : p b = false := by
        have := List.head?_dropWhile_not p t
        rw [rest] at this
        simpa using this
      rw [← @List.takeWhile_append_dropWhile _ p t, rest] at h
      exact cons (small b stop) (cut (small b stop) h).2

end IsUtf8

theorem chars?_ofChars (cs : List Char) : chars? (ofChars cs) = some cs := by
  unfold chars?
  rw [runes_ofChars]
  induction cs with
  | nil => rfl
  | cons c cs ih => simp [ih]

theorem isUtf8_of_chars? {t : Text} {cs : List Char} (h : chars? t = some cs) : IsUtf8 t := by
  refine ⟨cs, ?_⟩
  have found : ∀ f : Rune → Option Char, (∀ c, f (.char c) = some c) → (∀ b, f (.stray b) = none) →
      ∀ (rs : List Rune) (cs : List Char), rs.mapM f = some cs → encode rs = ofChars cs := by
    intro f char stray rs
    induction rs with
    | nil =>
        intro cs h
        obtain rfl := Option.some.inj h
        rfl
    | cons r rs ih =>
        intro cs h
        cases r with
        | stray b => simp [stray] at h
        | char c =>
            simp only [List.mapM_cons, char, Option.pure_def, Option.bind_eq_bind, Option.bind_some,
              Option.bind_eq_some_iff, Option.some.injEq] at h
            obtain ⟨ds, more, rfl⟩ := h
            rw [ofChars_cons, ← ih ds more]
            rfl
  rw [← found _ (fun _ => rfl) (fun _ => rfl) _ _ h, encode_runes]

theorem repaired_ne_nil {t : Text} (h : t ≠ []) : repaired t ≠ [] := by
  intro none
  obtain ⟨r, rs, runes⟩ := List.exists_cons_of_ne_nil (runes_ne_nil h)
  obtain ⟨b, u, written, -⟩ := leading?_utf8EncodeChar r.shown
  rw [repaired, runes, List.map_cons, ofChars_cons, written] at none
  cases none

/-- Repairing leaves an ASCII byte as it is. -/
theorem repaired_cons {b : UInt8} (small : b.toNat < 128) (t : Text) :
    repaired (b :: t) = b :: repaired t := by
  rw [repaired, runes_ascii_cons small, List.map_cons, ofChars_cons, Rune.shown,
    utf8EncodeChar_ofNat small]
  rfl

/-- Repairing never puts an ASCII byte where there was none. -/
theorem beginsHigh_repaired {b : UInt8} (large : 128 ≤ b.toNat) (t : Text) :
    BeginsHigh (repaired (b :: t)) := by
  rw [repaired, runes, runesFrom]
  split
  · next c k found =>
    rw [List.map_cons, ofChars_cons]
    refine (beginsHigh_utf8EncodeChar ?_).append _
    obtain ⟨small, single⟩ | ⟨high, -⟩ := utf8EncodeChar_cases c
    · rw [leading?_eq_some found] at single
      rw [(List.cons.inj single).1, toNat_ofNat_byte (by omega)] at large
      exact large
    · exact high
  · rw [List.map_cons, ofChars_cons]
    have replaced : 128 ≤ (Char.ofNat 0xFFFD).toNat := by decide
    exact (beginsHigh_utf8EncodeChar replaced).append _

/-- Repairing changes just the texts that are not UTF-8. -/
theorem repaired_eq_iff (t : Text) : repaired t = t ↔ IsUtf8 t := by
  constructor
  · intro same
    exact ⟨_, same.symm⟩
  · rintro ⟨cs, rfl⟩
    have shown : (cs.map Rune.char).map Rune.shown = cs := by simp [Rune.shown, Function.comp_def]
    rw [repaired, runes_ofChars, shown]

end Lightboard.Text
