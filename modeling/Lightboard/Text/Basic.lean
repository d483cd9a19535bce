/-!
# Text

Names, literals, messages and source files are strings of bytes. They are UTF-8 in practice, but a
stored program may hold any bytes, and they must come back unchanged, so text is kept as bytes and
is only decoded where a rule speaks of characters (`Text.Utf8`).

This module holds the type, its order and the ways to write numbers.
-/

namespace Lightboard

/-- A string of bytes, ordered byte by byte. -/
abbrev Text := List UInt8

/-- The byte of an ASCII character. -/
abbrev ascii (c : Char) : UInt8 := c.toUInt8

namespace Text

/-- The UTF-8 bytes of a string. -/
def ofString (s : String) : Text := s.toByteArray.data.toList

instance : Coe String Text := ⟨ofString⟩

/-- A text before another in byte order. -/
def before (a b : Text) : Bool := decide (a < b)

/-- At most the other in byte order. -/
def atMost (a b : Text) : Bool := !before b a

/-- The texts of a list in ascending byte order; equal ones stay in place. -/
def sorted (ts : List Text) : List Text := ts.mergeSort atMost

/-- The numeral of `n` in a base up to 16, with lower-case digits. -/
def numeral (base n : Nat) : Text := (Nat.toDigits base n).map Char.toUInt8

/-- The decimal numeral of a natural number. -/
def ofNat (n : Nat) : Text := numeral 10 n

/-- The decimal numeral of an integer, with a minus sign below zero. -/
def ofInt (n : Int) : Text :=
  if n < 0 then ascii '-' :: ofNat n.natAbs else ofNat n.natAbs

/-- `t` after as many copies of `pad` as bring it to `width` bytes. -/
def padLeft (pad : UInt8) (width : Nat) (t : Text) : Text :=
  List.replicate (width - t.length) pad ++ t

/-- `t` before as many copies of `pad` as bring it to `width` bytes. -/
def padRight (pad : UInt8) (width : Nat) (t : Text) : Text :=
  t ++ List.replicate (width - t.length) pad

/-- The numeral of `n` in base 16, at least `width` digits wide. -/
def hex (width n : Nat) : Text := padLeft (ascii '0') width (numeral 16 n)

/-- The lower-case hexadecimal digits of ASCII letters become upper case. -/
def raise (t : Text) : Text :=
  t.map fun b => if ascii 'a' ≤ b ∧ b ≤ ascii 'z' then b - 32 else b

/-- The pieces between the occurrences of a byte, one more than there are occurrences. -/
def splitOn (sep : UInt8) : Text → List Text
  | [] => [[]]
  | b :: t =>
    if b = sep then [] :: splitOn sep t
    else
      match splitOn sep t with
      | [] => [[b]]
      | piece :: rest => (b :: piece) :: rest

/-- What stands before and after the first occurrence of a byte; without one, all of it and none. -/
def cut (sep : UInt8) (t : Text) : Text × Text :=
  (t.takeWhile (· != sep), (t.dropWhile (· != sep)).drop 1)

/-- Texts one after the other. -/
def concat (ts : List Text) : Text := ts.flatten

/-- Texts joined by a separator. -/
def join (sep : Text) (ts : List Text) : Text := sep.intercalate ts

/-- A digit between zero and nine. -/
def isDigit (b : UInt8) : Bool := ascii '0' ≤ b && b ≤ ascii '9'

/-- The number a decimal digit stands for. -/
def digitValue (b : UInt8) : Nat := b.toNat - 48

/-- The number a digit stands for in bases up to 36, letters counting from ten in either case. -/
def digit? (b : UInt8) : Option Nat :=
  if isDigit b then some (digitValue b)
  else if ascii 'a' ≤ b ∧ b ≤ ascii 'z' then some (b.toNat - 87)
  else if ascii 'A' ≤ b ∧ b ≤ ascii 'Z' then some (b.toNat - 55)
  else none

/-- Reads digits of a base from the left; refuses anything else. -/
def readDigits? (base : Nat) (t : Text) : Option Nat :=
  t.foldl (fun acc b => do
    let n ← acc
    let d ← digit? b
    if d < base then some (n * base + d) else none) (some 0)

/-- Reads pairs of hexadecimal digits as bytes. -/
def unhex? : Text → Option Text
  | [] => some []
  | [_] => none
  | a :: b :: rest => do
    let hi ← digit? a
    let lo ← digit? b
    if hi < 16 ∧ lo < 16 then (UInt8.ofNat (hi * 16 + lo) :: ·) <$> unhex? rest else none

/-- Two hexadecimal digits for each byte. -/
def toHex (t : Text) : Text := t.flatMap fun b => hex 2 b.toNat

end Text

end Lightboard
