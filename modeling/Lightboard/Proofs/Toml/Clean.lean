import Lightboard.Proofs.Text.Characters
import Lightboard.Toml.Reader

/-!
# The characters of a document

A document is refused as a whole for a byte that belongs to no character, for a control character,
or for a carriage return that ends no line. A text without any of these (`IsClean`) is read
statement by statement.
-/

namespace Lightboard.Toml

/-- A text of characters that a document may hold, without carriage returns. -/
def IsClean (t : Text) : Prop := ∃ cs, t = Text.ofChars cs ∧ ∀ c ∈ cs, isAllowed c = true ∧ c ≠ '\r'

/-- A byte that is an allowed character by itself. -/
def IsCleanByte (b : UInt8) : Prop := b = ascii '\n' ∨ 32 ≤ b.toNat ∧ b.toNat < 127

instance (b : UInt8) : Decidable (IsCleanByte b) := inferInstanceAs (Decidable (_ ∨ _))

/-- A text of such bytes. -/
def IsCleanAscii (t : Text) : Prop := ∀ b ∈ t, IsCleanByte b

instance (t : Text) : Decidable (IsCleanAscii t) := List.decidableBAll IsCleanByte t

namespace IsClean

theorem nil : IsClean [] := ⟨[], rfl, by simp⟩

theorem append {s t : Text} (hs : IsClean s) (ht : IsClean t) : IsClean (s ++ t) := by
  obtain ⟨cs, rfl, left⟩ := hs
  obtain ⟨ds, rfl, right⟩ := ht
  refine ⟨cs ++ ds, (Text.ofChars_append cs ds).symm, fun c mem => ?_⟩
  obtain mem | mem := List.mem_append.1 mem
  · exact left c mem
  · exact right c mem

theorem char {c : Char} (allowed : isAllowed c = true) (other : c ≠ '\r') :
    IsClean (String.utf8EncodeChar c) :=
  ⟨[c], by simp [Text.ofChars], by simp [allowed, other]⟩

theorem byte {b : UInt8} (clean : IsCleanByte b) : IsClean [b] := by
  obtain rfl | ⟨low, high⟩ := clean
  · exact @char '\n' rfl (by decide)
  · have point := Text.toNat_ofNat_char (b := b) (by omega)
    rw [← Text.utf8EncodeChar_ofNat (b := b) (by omega)]
    refine char ?_ ?_
    · have other : (b.toNat != 127) = true := bne_iff_ne.2 (by omega)
      simp [isAllowed, point, low, other]
    · intro ret
      rw [ret] at point
      change 13 = b.toNat at point
      omega

theorem bytes {t : Text} (clean : IsCleanAscii t) : IsClean t := by
  induction t with
  | nil => exact nil
  | cons b t ih => exact append (byte (clean b (by simp))) (ih fun c mem => clean c (by simp [mem]))

end IsClean

/-- No carriage return is among the bytes of a clean text. -/
theorem return_not_mem {t : Text} (clean : IsClean t) : ascii '\r' ∉ t := by
  obtain ⟨cs, rfl, allowed⟩ := clean
  intro mem
  obtain ⟨c, among, inside⟩ := List.mem_flatMap.1 mem
  obtain ⟨small, single⟩ | ⟨-, large⟩ := Text.utf8EncodeChar_cases c
  · rw [single] at inside
    have same := congrArg UInt8.toNat (List.mem_singleton.1 inside)
    rw [Text.toNat_ofNat_byte (by omega)] at same
    exact (allowed c among).2 (Char.toNat_inj.1 same.symm)
  · exact absurd (large _ inside) (by decide)

theorem returnsFit_of_not_mem {t : Text} (absent : ascii '\r' ∉ t) : returnsFit t = true := by
  induction t with
  | nil => rfl
  | cons b t ih =>
      simp only [List.mem_cons, not_or] at absent
      have other : (b != ascii '\r') = true := bne_iff_ne.2 fun same => absent.1 same.symm
      rw [returnsFit, other, Bool.true_or, Bool.true_and, ih absent.2]

/-- A clean text that begins with an ASCII byte is read statement by statement. -/
theorem parse_of_isClean {b : UInt8} {t : Text} (small : b.toNat < 128) (clean : IsClean (b :: t)) :
    parse (b :: t) = readStatements ((b :: t).length + 1) (b :: t) := by
  have returns := returnsFit_of_not_mem (return_not_mem clean)
  have mark : dropMark (b :: t) = b :: t := by
    have other : ∀ c : UInt8, 128 ≤ c.toNat → (c == b) = false := by
      intro c large
      refine beq_false_of_ne ?_
      rintro rfl
      omega
    simp only [dropMark, List.isPrefixOf, other 0xFF (by decide), other 0xFE (by decide),
      other 0xEF (by decide), Bool.false_and, Bool.or_self, Bool.false_eq_true, if_false]
  unfold parse
  rw [mark]
  simp only [returns]
  obtain ⟨cs, same, allowed⟩ := clean
  have chars : Text.chars? (b :: t) = some cs := by rw [same, Text.chars?_ofChars]
  have all : cs.all isAllowed = true := List.all_eq_true.2 fun c mem => (allowed c mem).1
  simp only [chars, Option.bind_eq_bind, Option.bind_some, all, Bool.and_self, if_true]

end Lightboard.Toml
