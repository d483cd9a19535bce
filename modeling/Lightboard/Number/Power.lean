import Lightboard.Number.Binary64

/-!
# Powers

A power with a whole exponent is made by repeated squaring. Every factor is kept as a mantissa and a
binary exponent, so that nothing overflows on the way and only the products of mantissas are rounded.
A fraction of the exponent goes through the exponential function and the logarithm.
-/

namespace Lightboard.Number

/-- A number as `mantissa · 2 ^ exponent`. -/
structure Scaled where
  mantissa : Float
  exponent : Int

namespace Scaled

/-- A finite number, its mantissa between a half and one in size. -/
def ofFloat (x : Float) : Scaled :=
  match exact x with
  | .finite neg m e =>
    if m = 0 then ⟨x, 0⟩
    else
      let bits : Int := m.log2 + 1
      ⟨ofScaled neg m (-bits), e + bits⟩
  | _ => ⟨x, 0⟩

/-- The float nearest to the number. -/
def toFloat (s : Scaled) : Float :=
  match exact s.mantissa with
  | .finite neg m e => ofScaled neg m (e + s.exponent)
  | _ => s.mantissa

def mul (s t : Scaled) : Scaled := ⟨s.mantissa * t.mantissa, s.exponent + t.exponent⟩

/-- The square, its mantissa brought back to a half at least. -/
def square (s : Scaled) : Scaled :=
  let m := s.mantissa * s.mantissa
  if m < 0.5 then ⟨m + m, 2 * s.exponent - 1⟩ else ⟨m, 2 * s.exponent⟩

def inverse (s : Scaled) : Scaled := ⟨1 / s.mantissa, -s.exponent⟩

/-- The largest exponent that is worked with. Beyond it the power is infinite or zero. -/
def mostExponent : Int := 4096

/-- `s` times the `n`-th power of `base`, by the binary digits of `n` from the lowest. -/
def timesPower (s base : Scaled) (n : Nat) : Scaled :=
  if n = 0 then s
  else if base.exponent < -mostExponent ∨ mostExponent < base.exponent then
    { s with exponent := s.exponent + base.exponent }
  else timesPower (if n % 2 = 1 then s.mul base else s) base.square (n / 2)
termination_by n
decreasing_by omega

end Scaled

/-- Whether a number is an odd integer. -/
def isOdd (x : Float) : Bool :=
  match exact x with
  | .finite _ m e =>
    let (num, den) := quotient 2 m e
    num % den = 0 && num / den % 2 = 1
  | _ => false

/-- Whether the sign of a number is set, also that of a zero. -/
def isBelow (x : Float) : Bool := signBit ≤ x.toBits.toNat

/-- A power of zero or of an infinite number: the sign is kept for odd exponents. -/
def powerAtEnds (infinite : Bool) (x y : Float) : Float :=
  let size := if infinite = decide (0 < y) then positiveInfinity else 0
  if isBelow x && isOdd y then -size else size

/-- A power whose exponent is too large for its size to matter. -/
def powerFar (x : Float) (up : Bool) : Float :=
  if x == -1 then 1 else if (x.abs < 1) = up then 0 else positiveInfinity

/-- A power of a finite number that is not zero. -/
def finitePower (x y : Float) : Float :=
  match exact y with
  | .finite neg m e =>
    let whole := wholePart m e
    let (num, den) := quotient 2 m e
    let fraction := ofScaled false (num % den) (min e 0)
    if fraction != 0 && x < 0 then notANumber
    else if Nat.pow 2 63 ≤ whole then powerFar x !neg
    else
      -- A fraction past a half counts as a step down from the next whole exponent.
      let (whole, fraction) := if 0.5 < fraction then (whole + 1, fraction - 1) else (whole, fraction)
      let start : Float := if fraction == 0 then 1 else Float.exp (fraction * Float.log x)
      let power := Scaled.timesPower ⟨start, 0⟩ (.ofFloat x) whole
      (if neg then power.inverse else power).toFloat
  | _ => notANumber

/-- `x` to the power `y`. -/
def power (x y : Float) : Float :=
  if y == 0 || x == 1 then 1
  else if y == 1 then x
  else if x.isNaN || y.isNaN then notANumber
  else if x == 0 then powerAtEnds false x y
  else if y.isInf then powerFar x (0 < y)
  else if x.isInf then powerAtEnds true x y
  else if y == 0.5 then x.sqrt
  else if y == -0.5 then 1 / x.sqrt
  else finitePower x y

end Lightboard.Number
