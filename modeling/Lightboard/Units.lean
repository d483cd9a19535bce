import Lightboard.Code.Tag
import Lightboard.Number.Binary64

/-!
# Units of color and time

The machine holds colors and times in one of three modes. In logical mode hue is in degrees, saturation
and brightness are percentages and times are seconds. In raw mode the channels are the sixteen-bit
numbers that lights take and times are milliseconds. In color mode the channels are percentages of
red, green and blue. Color temperature is the same number in all of them.

The conversions are written once, over any kind of number that has the operations of `Scalar`. The
machine uses them on floats; on rational numbers they say what the conversions mean exactly.
-/

namespace Lightboard

/-- The operations the unit conversions are made of. -/
class Scalar (α : Type) where
  ofNat : Nat → α
  add : α → α → α
  sub : α → α → α
  mul : α → α → α
  div : α → α → α
  abs : α → α
  /-- The nearest whole number, a half going away from zero. -/
  round : α → α
  /-- The remainder of a division that cuts the quotient toward zero. -/
  remainder : α → α → α
  /-- The smaller of two. -/
  least : α → α → α
  /-- The larger of two. -/
  greatest : α → α → α
  lt : α → α → Bool
  le : α → α → Bool
  same : α → α → Bool
  /-- What is left when the fraction is cut off. -/
  whole : α → Int

instance : Scalar Float where
  ofNat n := Float.ofNat n
  add := (· + ·)
  sub := (· - ·)
  mul := (· * ·)
  div := (· / ·)
  abs := Float.abs
  round := Number.round
  remainder := Number.remainder
  least := Number.least
  greatest := Number.greatest
  lt x y := x < y
  le x y := x ≤ y
  same x y := x == y
  whole := Number.truncate

/-- A color in some unit mode: three channels and the color temperature. -/
structure Channels (α : Type) where
  first : α
  second : α
  third : α
  kelvin : α
  deriving Repr

namespace Units

open Scalar

variable {α : Type} [Scalar α]

/-- How many raw steps a full turn of the hue has. -/
def hueSteps : α := ofNat 65536

/-- The largest raw channel. -/
def rawMax : α := ofNat 65535

/-- A full turn in degrees. -/
def turn : α := ofNat 360

/-- A whole in percent. -/
def percent : α := ofNat 100

/-- A second in milliseconds. -/
def second : α := ofNat 1000

/-- A number brought into the range from zero to one. -/
def clamp (x : α) : α := greatest (ofNat 0) (least (ofNat 1) x)

/-- The same hue within one turn. -/
def normalHue (h : α) : α :=
  let r := remainder h turn
  if lt r (ofNat 0) then add r turn else r

def logicalToRaw (c : Channels α) : Channels α where
  first := remainder (round (mul (div (normalHue c.first) turn) hueSteps)) hueSteps
  second := round (mul (div c.second percent) rawMax)
  third := round (mul (div c.third percent) rawMax)
  kelvin := round c.kelvin

def rawToLogical (c : Channels α) : Channels α where
  first := mul (div c.first hueSteps) turn
  second := mul (div c.second rawMax) percent
  third := mul (div c.third rawMax) percent
  kelvin := c.kelvin

/-- Red, green and blue of a hue in degrees with saturation and value between zero and one. -/
def ofHue (h s v : α) : α × α × α :=
  let sector := div h (ofNat 60)
  let chroma := mul v s
  let x := mul chroma (sub (ofNat 1) (abs (sub (remainder sector (ofNat 2)) (ofNat 1))))
  let base := sub v chroma
  let zero : α := ofNat 0
  let (r, g, b) :=
    if le zero sector && lt sector (ofNat 1) then (chroma, x, zero)
    else if le (ofNat 1) sector && lt sector (ofNat 2) then (x, chroma, zero)
    else if le (ofNat 2) sector && lt sector (ofNat 3) then (zero, chroma, x)
    else if le (ofNat 3) sector && lt sector (ofNat 4) then (zero, x, chroma)
    else if le (ofNat 4) sector && lt sector (ofNat 5) then (x, zero, chroma)
    else if le (ofNat 5) sector && lt sector (ofNat 6) then (chroma, zero, x)
    else (zero, zero, zero)
  (add base r, add base g, add base b)

/-- Hue in degrees, saturation and value of red, green and blue. Where several channels are largest,
the last of them gives the hue. -/
def toHue (r g b : α) : α × α × α :=
  let low := least (least r g) b
  let v := greatest (greatest r g) b
  let chroma := sub v low
  let zero : α := ofNat 0
  let s := if same v zero then zero else div chroma v
  let h :=
    if same low v then zero
    else
      let h := if same v r then remainder (div (sub g b) chroma) (ofNat 6) else zero
      let h := if same v g then add (div (sub b r) chroma) (ofNat 2) else h
      let h := if same v b then add (div (sub r g) chroma) (ofNat 4) else h
      let h := mul h (ofNat 60)
      if lt h zero then add h turn else h
  (h, s, v)

def logicalToRgb (c : Channels α) : Channels α :=
  let (r, g, b) := ofHue (normalHue c.first) (clamp (div c.second percent)) (clamp (div c.third percent))
  ⟨mul r percent, mul g percent, mul b percent, c.kelvin⟩

def rgbToLogical (c : Channels α) : Channels α :=
  let (h, s, v) :=
    toHue (clamp (div c.first percent)) (clamp (div c.second percent)) (clamp (div c.third percent))
  ⟨h, mul s percent, mul v percent, c.kelvin⟩

/-- A color in another mode; codes without a name have no conversion. -/
def convert? (start goal : UnitMode) (c : Channels α) : Option (Channels α) :=
  if start = goal then some c
  else
    match start, goal with
    | .logical, .raw => some (logicalToRaw c)
    | .logical, .rgb => some (logicalToRgb c)
    | .raw, .logical => some (rawToLogical c)
    | .raw, .rgb => some (logicalToRgb (rawToLogical c))
    | .rgb, .logical => some (rgbToLogical c)
    | .rgb, .raw => some (logicalToRaw (rgbToLogical c))
    | _, _ => none

/-- A time in another mode. Only raw mode has its own unit of time. -/
def convertTime (start goal : UnitMode) (t : α) : α :=
  if start = goal then t
  else if goal = .raw then round (mul t second)
  else if start = .raw then div t second
  else t

/-- A time held in a mode, in seconds. -/
def seconds (mode : UnitMode) (t : α) : α := if mode = .raw then div t second else t

/-- A number as a sixteen-bit channel: rounded, and cut to the range. -/
def toWord16 (x : α) : UInt16 :=
  let r := round x
  if lt r (ofNat 0) then 0
  else if lt rawMax r then 65535
  else UInt16.ofInt (whole r)

end Units

end Lightboard
