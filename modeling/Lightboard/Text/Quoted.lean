import Lightboard.Text.Printable

/-!
# Quoted text

Messages and listings show a literal between quotation marks, on one line, with escapes for what
cannot be seen: the usual single-letter escapes, two hexadecimal digits for other control characters
and stray bytes, and four or eight digits for other unprintable characters.
-/

namespace Lightboard.Text

/-- The letter that escapes a control character after a backslash, if it has one. -/
def escapeLetter? (n : Nat) : Option Char :=
  match n with
  | 7 => some 'a'
  | 8 => some 'b'
  | 12 => some 'f'
  | 10 => some 'n'
  | 13 => some 'r'
  | 9 => some 't'
  | 11 => some 'v'
  | _ => none

/-- One rune inside quotation marks `mark`; with `plain`, only ASCII is left as it is. -/
def quoteRune (mark : Char) (plain : Bool) (r : Rune) : Text :=
  match r with
  | .stray b => (ascii '\\') :: (ascii 'x') :: hex 2 b.toNat
  | .char c =>
    let n := c.toNat
    if c = mark ∨ c = '\\' then [ascii '\\', ascii c]
    else if isPrintable n && !(plain && 0x80 ≤ n) then String.utf8EncodeChar c
    else
      match escapeLetter? n with
      | some l => [ascii '\\', ascii l]
      | none =>
        if n < 0x20 ∨ n = 0x7F then (ascii '\\') :: (ascii 'x') :: hex 2 n
        else if n < 0x10000 then (ascii '\\') :: (ascii 'u') :: hex 4 n
        else (ascii '\\') :: (ascii 'U') :: hex 8 n

/-- The text between double quotes. -/
def quoted (t : Text) : Text :=
  (ascii '"') :: ((runes t).flatMap (quoteRune '"' false) ++ [ascii '"'])

/-- The text between double quotes, in ASCII only. -/
def quotedPlain (t : Text) : Text :=
  (ascii '"') :: ((runes t).flatMap (quoteRune '"' true) ++ [ascii '"'])

/-- A single character between single quotes; with `plain`, in ASCII only. -/
def quotedChar (plain : Bool) (c : Char) : Text :=
  (ascii '\'') :: (quoteRune '\'' plain (.char c) ++ [ascii '\''])

/-- Text that can stand between back quotes: one line, all of it visible, no back quote in it. -/
def fitsBackquotes (t : Text) : Bool :=
  (runes t).all fun
    | .stray _ => false
    | .char c =>
      let n := c.toNat
      n != 0xFEFF && !(n < 0x20 && n != 9) && n != 0x60 && n != 0x7F

end Lightboard.Text
