import Lightboard.Text.Basic

/-!
# Characters of a text

`Text.runes` reads a text as UTF-8 from the left. A byte that begins no well-formed sequence is kept
as a stray byte of its own, so reading loses nothing: `encode` gives the text back.
-/

namespace Lightboard

/-- What UTF-8 reading finds at a place: a character, or a byte that begins none. -/
inductive Rune where
  | char (c : Char)
  | stray (b : UInt8)
  deriving DecidableEq, Repr

namespace Rune

/-- The character shown for a rune: a stray byte shows as the replacement character. -/
def shown : Rune → Char
  | char c => c
  | stray _ => Char.ofNat 0xFFFD

/-- The code point of the character shown. -/
def point (r : Rune) : Nat := r.shown.toNat

/-- The bytes a rune was read from. -/
def bytes : Rune → Text
  | char c => String.utf8EncodeChar c
  | stray b => [b]

end Rune

namespace Text

/-- The character of a code point, unless it is a surrogate or too large. -/
def scalar? (n : Nat) : Option Char :=
  if h : n.isValidChar then some (Char.ofNatAux n h) else none

/-- The low six bits of a continuation byte. -/
def tail? (b : UInt8) : Option Nat :=
  if 0x80 ≤ b ∧ b ≤ 0xBF then some (b.toNat - 0x80) else none

/-- The code point written from `least` upward, refusing longer forms of smaller ones. -/
def atLeast? (least n : Nat) : Option Char :=
  if least ≤ n then scalar? n else none

/-- The character that begins at byte `b`, with the number of continuation bytes it takes from the
bytes that follow. Longer forms than needed, surrogates and values past the last plane are refused. -/
def leading? (b : UInt8) (rest : Text) : Option (Char × Nat) :=
  if b < 0x80 then (scalar? b.toNat).map (·, 0)
  else if b < 0xC0 then none
  else if b < 0xE0 then
    match rest with
    | b₁ :: _ => do
      let x ← tail? b₁
      (atLeast? 0x80 ((b.toNat - 0xC0) * 64 + x)).map (·, 1)
    | _ => none
  else if b < 0xF0 then
    match rest with
    | b₁ :: b₂ :: _ => do
      let x ← tail? b₁
      let y ← tail? b₂
      (atLeast? 0x800 ((b.toNat - 0xE0) * 4096 + x * 64 + y)).map (·, 2)
    | _ => none
  else if b < 0xF8 then
    match rest with
    | b₁ :: b₂ :: b₃ :: _ => do
      let x ← tail? b₁
      let y ← tail? b₂
      let z ← tail? b₃
      (atLeast? 0x10000 ((b.toNat - 0xF0) * 262144 + x * 4096 + y * 64 + z)).map (·, 3)
    | _ => none
  else none

/-- Reads runes after passing over `skip` bytes, which belong to a character already read. -/
def runesFrom (skip : Nat) : Text → List Rune
  | [] => []
  | b :: rest =>
    match skip with
    | k + 1 => runesFrom k rest
    | 0 =>
      match leading? b rest with
      | some (c, k) => .char c :: runesFrom k rest
      | none => .stray b :: runesFrom 0 rest

/-- The runes of a text, from the left. -/
def runes (t : Text) : List Rune := runesFrom 0 t

/-- The text of a list of runes. -/
def encode (rs : List Rune) : Text := rs.flatMap Rune.bytes

/-- The text of a list of characters. -/
def ofChars (cs : List Char) : Text := cs.flatMap String.utf8EncodeChar

/-- The characters of a text, if it is UTF-8 throughout. -/
def chars? (t : Text) : Option (List Char) :=
  (runes t).mapM fun
    | .char c => some c
    | .stray _ => none

/-- The text as it is shown, a replacement character standing for each stray byte. -/
def display (t : Text) : String := String.ofList ((runes t).map Rune.shown)

/-- The number of characters and stray bytes. -/
def width (t : Text) : Nat := (runes t).length

/-- The characters that count as white space around a time pattern. -/
def isBlank (r : Rune) : Bool :=
  let n := r.point
  (9 ≤ n && n ≤ 13) || n == 0x20 || n == 0x85 || n == 0xA0 || n == 0x1680 ||
    (0x2000 ≤ n && n ≤ 0x200A) || n == 0x2028 || n == 0x2029 || n == 0x202F || n == 0x205F ||
    n == 0x3000

/-- The text without white space at its two ends. -/
def trim (t : Text) : Text :=
  encode ((((runes t).dropWhile isBlank).reverse.dropWhile isBlank).reverse)

/-- Upper case, as far as it ends in ASCII: besides the ASCII letters, the dotless i and the long s.
Names are looked up in a given case, and all of them are ASCII, so a letter whose other case lies
outside ASCII can stay as it is: it matches no name either way. -/
def upperRune : Rune → Rune
  | .char c =>
    if c.toNat = 0x131 then .char 'I'
    else if c.toNat = 0x17F then .char 'S'
    else .char c.toUpper
  | r => r

/-- Lower case, as far as it ends in ASCII: besides the ASCII letters, the dotted capital I and the
Kelvin sign. -/
def lowerRune : Rune → Rune
  | .char c =>
    if c.toNat = 0x130 then .char 'i'
    else if c.toNat = 0x212A then .char 'k'
    else .char c.toLower
  | r => r

/-- Case folding into ASCII: lower case, and the long s and the Kelvin sign with their letters. -/
def foldRune : Rune → Rune
  | .char c =>
    if c.toNat = 0x17F then .char 's'
    else if c.toNat = 0x212A then .char 'k'
    else .char c.toLower
  | r => r

def upper (t : Text) : Text := encode ((runes t).map upperRune)

def lower (t : Text) : Text := encode ((runes t).map lowerRune)

/-- Equality up to letter case, for a right-hand side in lower-case ASCII. -/
def foldsTo (t name : Text) : Bool := encode ((runes t).map foldRune) == name

end Text

end Lightboard
