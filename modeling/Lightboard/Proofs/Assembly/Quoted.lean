import Lightboard.Assembly.Operand
import Lightboard.Proofs.Toml.BasicStrings

/-!
# Quoted texts

A text is written between quotation marks with escapes for some characters. This is a basic string for
the text with a replacement character for each stray byte, so a UTF-8 text comes back as it was.
-/

namespace Lightboard.Assembly.Operand

open Toml

theorem charNotation_quoteChar (c : Char) : CharNotation (quoteChar c) c := by
  unfold quoteChar
  simp only
  split
  · next quote => exact .short (e := '"') (by simp [quote, shortEscapes])
  split
  · next backslash => exact .short (e := '\\') (by simp [backslash, shortEscapes])
  split
  · next feed => exact .short (e := 'n') (by simp [feed, shortEscapes])
  split
  · next ret => exact .short (e := 'r') (by simp [ret, shortEscapes])
  split
  · next tab => exact .short (e := 't') (by simp [tab, shortEscapes])
  split
  · next control =>
    have digits : ∀ n < 0xA0, (Text.raise (Text.hex 4 n)).length = 4 ∧
        Text.readDigits? 16 (Text.raise (Text.hex 4 n)) = some n := by decide +kernel
    obtain ⟨length, value⟩ := digits c.toNat (by omega)
    exact .point (e := 'u') (by simp [length, pointEscapes]) value
  · next quote backslash _ _ _ shown =>
    have low : 0x20 ≤ c.toNat := by omega
    have high : c.toNat ≠ 0x7F := by omega
    exact .plain (by simp [isUnescaped, low, high, quote, backslash])

theorem quote_eq (t : Text) :
    quote t = ascii '"' :: ((t.runes.map Rune.shown).flatMap quoteChar ++ [ascii '"']) := by
  simp only [quote, Text.concat, List.flatten_cons, List.flatten_nil, List.append_nil]
  rfl

/-- A quoted text is a basic string for the text, with replacement characters for stray bytes. -/
theorem isBasicString_quote (t : Text) : IsBasicString (quote t) t.repaired := by
  have spelled (cs : List Char) : Spells (cs.flatMap quoteChar) cs := by
    induction cs with
    | nil => exact .nil
    | cons c cs ih => exact .cons (charNotation_quoteChar c) ih
  exact ⟨_, t.runes.map Rune.shown, quote_eq t, spelled _, rfl⟩

end Lightboard.Assembly.Operand
