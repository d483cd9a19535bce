import Lightboard.Number.Binary64

/-!
# Decimal numerals of floats

A numeral has significant digits and a place for the point (`Digits`). The digits come from one of
three rules: the fewest that read back to the same float, a given count of significant ones, or a
given count after the point. Three layouts write them: positional, scientific, and the general one
that chooses between the two.
-/

namespace Lightboard.Number

/-- Significant digits, without trailing zeros, of the value `0.d₁d₂… · 10 ^ point`. Zero has none. -/
structure Digits where
  text : Text
  point : Int
  deriving DecidableEq, Repr

namespace Digits

def zero : Digits := ⟨[], 0⟩

/-- The digits of `n · 10 ^ k`. -/
def ofScaled (n : Nat) (k : Int) : Digits :=
  if n = 0 then zero
  else
    let t := Text.ofNat n
    ⟨(t.reverse.dropWhile (· == ascii '0')).reverse, t.length + k⟩

/-- How many significant digits there are. -/
def count (d : Digits) : Nat := d.text.length

/-- The digit `i` places behind the point, counting from zero; places without a digit hold zero. -/
def atPlace (d : Digits) (i : Int) : UInt8 :=
  let j := d.point + i
  if 0 ≤ j then d.text.getD j.toNat (ascii '0') else ascii '0'

end Digits

/-- The decimal numeral's length. -/
def decimalLength (n : Nat) : Nat := (Nat.toDigits 10 n).length

/-- The exponent `p` with `10 ^ p ≤ num / den < 10 ^ (p + 1)`, for a positive quotient. -/
def leadingPlace (num den : Nat) : Int :=
  if den ≤ num then (decimalLength (num / den) : Int) - 1
  else -(decimalLength ((den + num - 1) / num - 1) : Int)

/-- The digits of `num / den` rounded to whole multiples of `10 ^ k`. -/
def roundedAt (num den : Nat) (k : Int) : Digits :=
  let (n, d) := inUnits 10 num den k
  Digits.ofScaled (divEven n d) k

/-- The reals that read back as `m · 2 ^ e` run from `low` to `high` over `4 · 2 ^ -e`: half a step to
each side, but a quarter below a power of two, where the steps below are half as wide. -/
structure Neighbourhood where
  low : Nat
  high : Nat
  inclusive : Bool

def neighbourhood (m : Nat) (e : Int) : Neighbourhood :=
  { low := if m = leadingBit ∧ -1074 < e then 4 * m - 1 else 4 * m - 2
    high := 4 * m + 2
    inclusive := m % 2 = 0 }

/-- A multiple `c` of `10 ^ k`, against a bound `b · 2 ^ e / 4`, as two whole numbers. -/
def sides (c : Nat) (k : Int) (b : Nat) (e : Int) : Nat × Nat :=
  let (cn, cd) := quotient 10 c k
  let (bn, bd) := quotient 2 b e
  (cn * (4 * bd), bn * cd)

/-- Whether `c · 10 ^ k` reads back as `m · 2 ^ e`. -/
def readsBack (m : Nat) (e : Int) (c : Nat) (k : Int) : Bool :=
  let n := neighbourhood m e
  let (a, b) := sides c k n.low e
  let (c', d) := sides c k n.high e
  if n.inclusive then b ≤ a && c' ≤ d else b < a && c' < d

/-- Among the multiples of `10 ^ k` next to `m · 2 ^ e`, the one to write, if one reads back: the
nearer of two, and on a tie the even one. -/
def candidate? (m : Nat) (e k : Int) : Option Nat :=
  let (num, den) := quotient 2 m e
  let (n, d) := inUnits 10 num den k
  let below := n / d
  let okBelow := readsBack m e below k
  let okAbove := readsBack m e (below + 1) k
  if okBelow && okAbove then some (divEven n d)
  else if okBelow then some below
  else if okAbove then some (below + 1)
  else none

/-- Tries more and more digits, starting from the unit `10 ^ k`. -/
def shortestFrom (m : Nat) (e : Int) : Nat → Int → Digits
  | 0, k =>
    let (num, den) := quotient 2 m e
    roundedAt num den k
  | fuel + 1, k =>
    match candidate? m e k with
    | some c => Digits.ofScaled c k
    | none => shortestFrom m e fuel (k - 1)

/-- The fewest digits that read back as `m · 2 ^ e`; seventeen always do. -/
def shortest (m : Nat) (e : Int) : Digits :=
  if m = 0 then .zero
  else
    let (num, den) := quotient 2 m e
    shortestFrom m e 17 (leadingPlace num den)

/-- `n` significant digits of `m · 2 ^ e`, at least one. -/
def significant (m : Nat) (e : Int) (n : Nat) : Digits :=
  if m = 0 then .zero
  else
    let (num, den) := quotient 2 m e
    roundedAt num den (leadingPlace num den - (n : Int) + 1)

/-- `n` digits of `m · 2 ^ e` after the point. -/
def fractional (m : Nat) (e : Int) (n : Nat) : Digits :=
  if m = 0 then .zero
  else
    let (num, den) := quotient 2 m e
    roundedAt num den (-n)

namespace Digits

/-- Positional: the whole part, and `places` digits after the point. -/
def positional (d : Digits) (places : Nat) : Text :=
  let whole :=
    if 0 < d.point then Text.padRight (ascii '0') d.point.toNat (d.text.take d.point.toNat)
    else [ascii '0']
  if places = 0 then whole
  else whole ++ ascii '.' :: (List.range places).map fun (i : Nat) => d.atPlace i

/-- Scientific: one digit, `places` more after the point, and a signed exponent of two digits or more
behind `mark`. -/
def scientific (d : Digits) (places : Nat) (mark : Char) : Text :=
  let lead := d.text.headD (ascii '0')
  let more := Text.padRight (ascii '0') places ((d.text.drop 1).take places)
  let exponent : Int := if d.text.isEmpty then 0 else d.point - 1
  let sign := if exponent < 0 then '-' else '+'
  lead :: (if places = 0 then [] else ascii '.' :: more) ++
    ascii mark :: ascii sign :: Text.padLeft (ascii '0') 2 (Text.ofNat exponent.natAbs)

/-- General: scientific when the exponent is below -4 or at least `limit`, else positional, and never
with trailing zeros. -/
def general (d : Digits) (limit : Int) (mark : Char) : Text :=
  let exponent := d.point - 1
  if exponent < -4 ∨ limit ≤ exponent then d.scientific (d.count - 1) mark
  else d.positional (d.count - d.point).toNat

end Digits

/-- The layouts of a numeral. -/
inductive Layout where
  | positional
  | scientific (mark : Char)
  | general (mark : Char)
  deriving DecidableEq, Repr

/-- The numeral of a magnitude `m · 2 ^ e`. Without a precision it has the fewest digits that read back.
With one, the precision counts digits after the point, or significant digits in the general layout.
The general layout turns scientific at exponent 6 when it chose the digits itself, and else at the
precision, or at the number of digits if they are all in front of the point anyway. -/
def magnitude (layout : Layout) (precision : Option Nat) (m : Nat) (e : Int) : Text :=
  match layout, precision with
  | .positional, none =>
    let d := shortest m e
    d.positional (d.count - d.point).toNat
  | .positional, some p => (fractional m e p).positional p
  | .scientific mark, none =>
    let d := shortest m e
    d.scientific (d.count - 1) mark
  | .scientific mark, some p => (significant m e (p + 1)).scientific p mark
  | .general mark, none => (shortest m e).general 6 mark
  | .general mark, some p =>
    let p := max p 1
    let d := significant m e p
    d.general (if d.count < p ∧ d.point ≤ d.count then d.count else p) mark

/-- The numeral of a float: a minus sign where the sign bit is set, and words for the special values. -/
def numeral (layout : Layout) (precision : Option Nat) (x : Float) : Text :=
  match exact x with
  | .nan => "NaN"
  | .inf neg => if neg then "-Inf" else "+Inf"
  | .finite neg m e =>
    (if neg then [ascii '-'] else []) ++ magnitude layout precision m e

/-- The plain numeral: positional, with the fewest digits that read back. -/
def plain (x : Float) : Text := numeral .positional none x

/-- The brief numeral: the general layout, with the fewest digits that read back. -/
def brief (x : Float) : Text := numeral (.general 'e') none x

end Lightboard.Number
