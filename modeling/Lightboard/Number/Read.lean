import Lightboard.Number.Binary64

/-!
# Reading numerals

Decimal floats, and integers with a base prefix.
-/

namespace Lightboard.Number

/-- Splits a leading sign off; the flag tells a minus. -/
def splitSign : Text → Bool × Text
  | b :: t =>
    if b = ascii '-' then (true, t) else if b = ascii '+' then (false, t) else (false, b :: t)
  | [] => (false, [])

/-- An exponent after its mark: a sign or none, then digits. -/
def readExponent? (t : Text) : Option Int :=
  let (neg, ds) := splitSign t
  if ds.isEmpty then none
  else do
    let n ← if ds.all Text.isDigit then Text.readDigits? 10 ds else none
    some (if neg then -(n : Int) else n)

/-- A finite decimal: digits with an optional point among or around them, and an optional exponent.
The result is the sign, the digits read as one number, and the power of ten they are scaled by. -/
def readDecimal? (t : Text) : Option (Bool × Nat × Int) := do
  let (neg, body) := splitSign t
  let mantissa := body.takeWhile fun b => b != ascii 'e' && b != ascii 'E'
  let exponent ←
    match body.drop mantissa.length with
    | [] => some 0
    | _ :: e => readExponent? e
  let whole := mantissa.takeWhile (· != ascii '.')
  let fraction := (mantissa.drop whole.length).drop 1
  let digits := whole ++ fraction
  if digits.isEmpty || !digits.all Text.isDigit then none
  else
    let n ← Text.readDigits? 10 digits
    some (neg, n, exponent - fraction.length)

/-- The largest power of ten at which a decimal can still denote a finite number, and as far below one
at which it can differ from zero, whatever its digits. -/
def exponentBound (digits : Nat) : Int := 400 + decimalBits digits
where
  decimalBits (n : Nat) : Int := n.log2

/-- The float a decimal denotes; a decimal too large for a finite float denotes none. -/
def readFloat? (t : Text) : Option Float := do
  let (neg, m, e) ← readDecimal? t
  if m = 0 then some (nearest neg 0 1)
  else
    let bound := exponentBound m
    if bound < e then none
    else if e < -bound then some (nearest neg 0 1)
    else
      let x := ofDecimal neg m e
      if x.isInf then none else some x

/-- The float a text names, with the names `inf` and `nan` in any case and an optional sign. -/
def readAny? (t : Text) : Option Float :=
  let (neg, body) := splitSign t
  let name := body.map fun b => if ascii 'A' ≤ b ∧ b ≤ ascii 'Z' then b + 32 else b
  if name = ("inf" : Text) ∨ name = ("infinity" : Text) then
    some (if neg then negativeInfinity else positiveInfinity)
  else if t.length = 3 ∧ name = ("nan" : Text) then some notANumber
  else readFloat? t

/-- Underscores stand between digits, or between a base prefix and the first digit. -/
def underscoresFit (prefixed : Bool) (t : Text) : Bool := go prefixed t
where
  /-- `after` tells that a digit, or the base prefix, stands just before. -/
  go (after : Bool) : Text → Bool
    | [] => true
    | b :: t =>
      if b = ascii '_' then
        after && (match t with | c :: _ => c != ascii '_' | [] => false) && go false t
      else go true t

/-- The base a magnitude is written in, and its digits: `0x`, `0o` and `0b` select sixteen, eight and
two, another leading zero selects eight, and all else is decimal. -/
def splitBase : Text → Nat × Bool × Text
  | [] => (10, false, [])
  | b :: t =>
    if b = ascii '0' then
      match t with
      | c :: d :: rest =>
        if c = ascii 'x' ∨ c = ascii 'X' then (16, true, d :: rest)
        else if c = ascii 'o' ∨ c = ascii 'O' then (8, true, d :: rest)
        else if c = ascii 'b' ∨ c = ascii 'B' then (2, true, d :: rest)
        else (8, true, c :: d :: rest)
      | [c] => (8, true, [c])
      | [] => (10, false, [b])
    else (10, false, b :: t)

/-- An integer of 64 bits, written with an optional sign, an optional base prefix and single
underscores between its digits. -/
def readInteger? (t : Text) : Option Int := do
  let (neg, body) := splitSign t
  let (base, prefixed, digits) := splitBase body
  let clean := digits.filter (· != ascii '_')
  if clean.isEmpty || !underscoresFit prefixed digits then none
  else
    let n ← Text.readDigits? base clean
    word? (if neg then -(n : Int) else n)

/-- A decimal integer of 64 bits with an optional sign. -/
def readDecimalInteger? (t : Text) : Option Int := do
  let (neg, digits) := splitSign t
  if digits.isEmpty || !digits.all Text.isDigit then none
  else
    let n ← Text.readDigits? 10 digits
    word? (if neg then -(n : Int) else n)

/-- An integer read leniently: nothing reads as zero, and of a plain decimal with a point only what
stands before the point counts. -/
def readLenientInteger? (t : Text) : Option Int :=
  if t.isEmpty then some 0
  else
    let (_, body) := splitSign t
    let (whole, fraction) := Text.cut (ascii '.') body
    if t.contains (ascii '.') && whole.all Text.isDigit && fraction.all Text.isDigit then
      let kept := t.takeWhile (· != ascii '.')
      readInteger? (if whole.isEmpty then kept ++ [ascii '0'] else kept)
    else readInteger? t

end Lightboard.Number
