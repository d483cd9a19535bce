import Lightboard.Text.Basic

/-!
# Binary floating point, exactly

Numbers are 64-bit floats. Where a rule needs more than the four operations and comparisons (cutting
to an integer, rounding, remainders, writing and reading decimals) it is stated on exact values: a
finite float is `± m · 2 ^ e`, and `nearest` takes an exact quotient back to a float.
-/

namespace Lightboard.Number

/-- The exact value of a float: not a number, an infinity, or `± m · 2 ^ e`. -/
inductive Exact where
  | nan
  | inf (neg : Bool)
  | finite (neg : Bool) (m : Nat) (e : Int)
  deriving DecidableEq, Repr

/-- The bit of the sign, `2 ^ 63`. -/
def signBit : Nat := 0x8000000000000000

/-- The leading bit of a mantissa, `2 ^ 52`, which stands above the fraction field. -/
def leadingBit : Nat := 0x10000000000000

/-- The exact value, from the sign, exponent and fraction fields. -/
def exact (x : Float) : Exact :=
  let bits := x.toBits.toNat
  let neg := signBit ≤ bits
  let field : Nat := bits / leadingBit % 2048
  let fraction := bits % leadingBit
  if field = 2047 then
    if fraction = 0 then .inf neg else .nan
  else if field = 0 then .finite neg fraction (-1074)
  else .finite neg (leadingBit + fraction) ((field : Int) - 1075)

/-- A quotient rounded to the nearest integer, a half going to the even neighbour. -/
def divEven (num den : Nat) : Nat :=
  let q := num / den
  let twice := 2 * (num % den)
  if twice < den then q
  else if den < twice then q + 1
  else q + q % 2

/-- `m · base ^ e` as a quotient of whole numbers. -/
def quotient (base m : Nat) (e : Int) : Nat × Nat :=
  if 0 ≤ e then (m * Nat.pow base e.toNat, 1) else (m, Nat.pow base (-e).toNat)

/-- `num / den · base ^ -e` as a quotient of whole numbers. -/
def inUnits (base num den : Nat) (e : Int) : Nat × Nat :=
  if 0 ≤ e then (num, den * Nat.pow base e.toNat) else (num * Nat.pow base (-e).toNat, den)

/-- The exponent of the last place when `num / den` is written with 53 bits, or with the fewer bits
that remain at the bottom of the range. -/
def lastPlace (num den : Nat) : Int :=
  let guess := (num.log2 : Int) - den.log2 - 52
  let (n, d) := inUnits 2 num den guess
  let e := if n / d < leadingBit then guess - 1 else guess
  max e (-1074)

/-- The float nearest to `± num / den`, a half going to the even neighbour. -/
def nearest (neg : Bool) (num den : Nat) : Float :=
  let sign := if neg then signBit else 0
  if num = 0 then Float.ofBits (UInt64.ofNat sign)
  else
    let e := lastPlace num den
    let (n, d) := inUnits 2 num den e
    let q := divEven n d
    let magnitude :=
      if q < leadingBit then q else (e + 1075).toNat * leadingBit + (q - leadingBit)
    Float.ofBits (UInt64.ofNat (sign + min magnitude (2047 * leadingBit)))

/-- The float nearest to an integer. -/
def ofInt (n : Int) : Float := nearest (n < 0) n.natAbs 1

/-- The float nearest to `± m · 2 ^ e`. -/
def ofScaled (neg : Bool) (m : Nat) (e : Int) : Float :=
  let (num, den) := quotient 2 m e
  nearest neg num den

/-- The float nearest to `± m · 10 ^ e`. -/
def ofDecimal (neg : Bool) (m : Nat) (e : Int) : Float :=
  let (num, den) := quotient 10 m e
  nearest neg num den

def positiveInfinity : Float := Float.ofBits 0x7FF0000000000000

def negativeInfinity : Float := Float.ofBits 0xFFF0000000000000

def notANumber : Float := Float.ofBits 0x7FF8000000000000

/-- The 64-bit float of the same value as the 32-bit float with these bits. -/
def ofBits32 (bits : Nat) : Float :=
  let neg := 0x80000000 ≤ bits
  let field : Nat := bits / 0x800000 % 256
  let fraction := bits % 0x800000
  if field = 255 then
    if fraction = 0 then (if neg then negativeInfinity else positiveInfinity) else notANumber
  else if field = 0 then ofScaled neg fraction (-149)
  else ofScaled neg (0x800000 + fraction) ((field : Int) - 150)

/-- The least 64-bit integer, which stands for a value that is no 64-bit integer. -/
def leastWord : Int := -9223372036854775808

/-- The greatest 64-bit integer. -/
def greatestWord : Int := 9223372036854775807

/-- How many 64-bit integers there are, `2 ^ 64`. -/
def wordCount : Nat := 18446744073709551616

/-- An integer, if it fits 64 bits. -/
def word? (n : Int) : Option Int := if leastWord ≤ n ∧ n ≤ greatestWord then some n else none

/-- An integer if it fits 64 bits, else the least one. -/
def word (n : Int) : Int := (word? n).getD leastWord

/-- The 64-bit integer with the same low bits. -/
def wrapWord (n : Int) : Int := Int.bmod n wordCount

/-- The whole part of `m · 2 ^ e`. -/
def wholePart (m : Nat) (e : Int) : Nat :=
  let (num, den) := quotient 2 m e
  num / den

/-- The integer left when the fraction is cut off. -/
def truncate (x : Float) : Int :=
  match exact x with
  | .finite neg m e =>
    let n : Int := wholePart m e
    word (if neg then -n else n)
  | _ => leastWord

/-- An integer addition on 64-bit integers, wrapping around. -/
def addWord (a b : Int) : Int := wrapWord (a + b)

/-- The nearest whole number, a half going away from zero. The sign is kept, also on zero. -/
def round (x : Float) : Float :=
  match exact x with
  | .finite neg m e =>
    if 0 ≤ e then x
    else
      let (num, den) := quotient 2 m e
      nearest neg ((2 * num + den) / (2 * den)) 1
  | _ => x

/-- The remainder of a division that cuts the quotient toward zero; it has the sign of `x`. -/
def remainder (x y : Float) : Float :=
  match exact x, exact y with
  | .finite neg m e, .finite _ n f =>
    if n = 0 then notANumber
    else
      let k := min e f
      ofScaled neg (m * Nat.pow 2 (e - k).toNat % (n * Nat.pow 2 (f - k).toNat)) k
  | .finite _ _ _, .inf _ => x
  | _, _ => notANumber

/-- The smaller of two; not a number if either is none, and `-0` below `+0`. -/
def least (x y : Float) : Float :=
  if x == negativeInfinity || y == negativeInfinity then negativeInfinity
  else if x.isNaN || y.isNaN then notANumber
  else if x == 0 && y == 0 then (if signBit ≤ x.toBits.toNat then x else y)
  else if x < y then x else y

/-- The larger of two; not a number if either is none, and `+0` above `-0`. -/
def greatest (x y : Float) : Float :=
  if x == positiveInfinity || y == positiveInfinity then positiveInfinity
  else if x.isNaN || y.isNaN then notANumber
  else if x == 0 && y == 0 then (if signBit ≤ x.toBits.toNat then y else x)
  else if y < x then x else y

end Lightboard.Number
