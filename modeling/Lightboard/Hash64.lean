import Lightboard.Text.Basic

/-!
# A 64-bit hash of bytes

The hash names stored entries and identifies programs. It is a mixing function on 64-bit words with
separate rules for inputs of up to 16, 32, 64, 96, 256 and more bytes. Every rule reads the input in
little-endian words; the rules for long inputs take blocks of 64 bytes and finish with the last 64.
-/

namespace Lightboard.Hash64

def k₀ : UInt64 := 0xc3a5c85c97cb3127
def k₁ : UInt64 := 0xb492b66fbe98f273
def k₂ : UInt64 := 0x9ae16a3b2f90404f

/-- Rotation to the right, by fewer than 64 places. -/
def rotate (x : UInt64) (n : UInt64) : UInt64 := (x >>> n) ||| (x <<< (64 - n))

def mix (x : UInt64) : UInt64 := x ^^^ (x >>> 47)

/-- The number written in the first `n` bytes, the least significant byte first. -/
def little : Nat → Text → UInt64
  | 0, _ => 0
  | _, [] => 0
  | n + 1, b :: t => b.toUInt64 + (little n t <<< 8)

/-- The 64-bit word at byte `i`. -/
def word (t : Text) (i : Nat) : UInt64 := little 8 (t.drop i)

/-- The 32-bit word at byte `i`. -/
def half (t : Text) (i : Nat) : UInt64 := little 4 (t.drop i)

def byteAt (t : Text) (i : Nat) : UInt32 := (t.getD i 0).toUInt32

def length (t : Text) : UInt64 := UInt64.ofNat t.length

/-- Two words mixed into one. -/
def pair (u v mul : UInt64) : UInt64 :=
  let a := mix ((u ^^^ v) * mul)
  mix ((v ^^^ a) * mul) * mul

/-- Two words mixed into one, the last step a rotation. -/
def pairRotated (x y mul r : UInt64) : UInt64 :=
  let a := mix ((x ^^^ y) * mul)
  rotate ((y ^^^ a) * mul) r * mul

/-- Up to 16 bytes. -/
def upTo16 (t : Text) : UInt64 :=
  let n := t.length
  let mul := k₂ + length t * 2
  if 8 ≤ n then
    let a := word t 0 + k₂
    let b := word t (n - 8)
    let c := rotate b 37 * mul + a
    let d := (rotate a 25 + b) * mul
    pair c d mul
  else if 4 ≤ n then pair (length t + (half t 0 <<< 3)) (half t (n - 4)) mul
  else if 0 < n then
    let y := byteAt t 0 + (byteAt t (n / 2) <<< 8)
    let z := UInt32.ofNat n + (byteAt t (n - 1) <<< 2)
    mix (y.toUInt64 * k₂ ^^^ z.toUInt64 * k₀) * k₂
  else k₂

/-- Between 17 and 32 bytes. -/
def upTo32 (t : Text) : UInt64 :=
  let n := t.length
  let mul := k₂ + length t * 2
  let a := word t 0 * k₁
  let b := word t 8
  let c := word t (n - 8) * mul
  let d := word t (n - 16) * k₂
  pair (rotate (a + b) 43 + rotate c 30 + d) (a + rotate (b + k₂) 18 + c) mul

/-- A block of 32 bytes, with two seeds. -/
def block32 (t : Text) (mul s₀ s₁ : UInt64) : UInt64 :=
  let a := word t 0 * k₁
  let b := word t 8
  let c := word t 24 * mul
  let d := word t 16 * k₂
  let u := rotate (a + b) 43 + rotate c 30 + d + s₀
  let v := a + rotate (b + k₂) 18 + c + s₁
  mix ((v ^^^ mix ((u ^^^ v) * mul)) * mul)

/-- Between 33 and 64 bytes. -/
def upTo64 (t : Text) : UInt64 :=
  let mul₀ := k₂ - 30
  let mul₁ := k₂ - 30 + length t * 2
  let h₀ := block32 t mul₀ 0 0
  let h₁ := block32 (t.drop (t.length - 32)) mul₁ 0 0
  (h₁ * mul₁ + h₀) * mul₁

/-- Between 65 and 96 bytes. -/
def upTo96 (t : Text) : UInt64 :=
  let mul₀ := k₂ - 114
  let mul₁ := k₂ - 114 + length t * 2
  let h₀ := block32 t mul₀ 0 0
  let h₁ := block32 (t.drop 32) mul₁ 0 0
  let h₂ := block32 (t.drop (t.length - 32)) mul₁ h₀ h₁
  (h₂ * (9 : UInt64) + (h₀ >>> 17) + (h₁ >>> 21)) * mul₁

/-- Two words. -/
structure Lane where
  lo : UInt64
  hi : UInt64

/-- 32 bytes folded into two seeds. -/
def fold32 (t : Text) (a b : UInt64) : Lane :=
  let a := a + word t 0
  let b := rotate (b + a + word t 24) 21
  let c := a
  let a := a + word t 8 + word t 16
  ⟨a + word t 24, b + rotate a 44 + c⟩

/-- The full blocks of 64 bytes before the last 64 bytes or less. -/
def blocks (t : Text) : List Text :=
  (List.range ((t.length - 1) / 64)).map fun i => t.drop (64 * i)

/-- The running values of the rule for up to 256 bytes. -/
structure Mid where
  x : UInt64
  y : UInt64
  z : UInt64
  v : Lane
  w : Lane

/-- One block of 64 bytes, under the rule for up to 256 bytes. -/
def Mid.block (s : Mid) (t : Text) : Mid :=
  let x := rotate (s.x + s.y + s.v.lo + word t 8) 37 * k₁
  let y := rotate (s.y + s.v.hi + word t 48) 42 * k₁
  let x := x ^^^ s.w.hi
  let y := y + (s.v.lo + word t 40)
  let z := rotate (s.z + s.w.lo) 33 * k₁
  let v := fold32 t (s.v.hi * k₁) (x + s.w.lo)
  let w := fold32 (t.drop 32) (z + s.w.hi) (y + word t 16)
  ⟨z, y, x, v, w⟩

/-- Between 97 and 256 bytes. -/
def upTo256 (t : Text) : UInt64 :=
  let y₀ := 81 * k₁ + 113
  let start : Mid :=
    ⟨81 * k₂ + word t 0, y₀, mix (y₀ * k₂ + 113) * k₂, ⟨0, 0⟩, ⟨0, 0⟩⟩
  let s := (blocks t).foldl Mid.block start
  let mul := k₁ + ((s.z &&& 0xff) <<< 1)
  let t' := t.drop (t.length - 64)
  let wlo := s.w.lo + ((length t - 1) &&& 63)
  let vlo := s.v.lo + wlo
  let wlo := wlo + vlo
  let x := rotate (s.x + s.y + vlo + word t' 8) 37 * mul
  let y := rotate (s.y + s.v.hi + word t' 48) 42 * mul
  let x := x ^^^ (s.w.hi * 9)
  let y := y + (vlo * 9 + word t' 40)
  let z := rotate (s.z + wlo) 33 * mul
  let v := fold32 t' (s.v.hi * mul) (x + wlo)
  let w := fold32 (t'.drop 32) (z + s.w.hi) (y + word t' 16)
  pair (pair v.lo w.lo mul + mix y * k₀ + x) (pair v.hi w.hi mul + z) mul

/-- The running values of the rule for more than 256 bytes. -/
structure Long where
  x : UInt64
  y : UInt64
  z : UInt64
  u : UInt64
  v : Lane
  w : Lane

/-- One block of 64 bytes, under the rule for more than 256 bytes. -/
def Long.block (mul : UInt64) (s : Long) (t : Text) : Long :=
  let a₀ := word t 0
  let a₁ := word t 8
  let a₂ := word t 16
  let a₃ := word t 24
  let a₄ := word t 32
  let a₅ := word t 40
  let a₆ := word t 48
  let a₇ := word t 56
  let x := rotate (s.x + (a₀ + a₁)) 26 * 9
  let y := rotate (s.y + a₂) 29
  let z := (s.z + a₃) * mul
  let vlo := rotate (s.v.lo + a₄) 33
  let vhi := rotate (s.v.hi + (a₅ + a₁)) 30
  let wlo := ((s.w.lo + a₆) ^^^ x) * 9
  let whi := s.w.hi + a₇
  let z := rotate z 32 + whi
  let whi := whi + z
  let z := z * 9
  let u := y
  let y := s.u
  let z := z + (a₀ + a₆)
  let vlo := vlo + a₂
  let vhi := vhi + a₃
  let wlo := wlo + a₄
  let whi := whi + (a₅ + a₆)
  let x := x + a₁
  let y := y + a₇ + vlo
  let vlo := vlo + (x - y)
  let vhi := vhi + wlo
  let wlo := wlo + vhi
  let whi := whi + (x - y)
  let x := x + whi
  let whi := rotate whi 34
  ⟨x, y, u, z, ⟨vlo, vhi⟩, ⟨wlo, whi⟩⟩

/-- More than 256 bytes. -/
def beyond256 (t : Text) : UInt64 :=
  let z₀ := mix (113 * k₂) * k₂
  let u₀ := 81 - z₀
  let mul := k₂ + (u₀ &&& 0x82)
  let s := (blocks t).foldl (Long.block mul) ⟨81 * k₂, 113, z₀, u₀, ⟨81, 0⟩, ⟨0, 0⟩⟩
  let t' := t.drop (t.length - 64)
  let u := s.u * 9
  let vhi := rotate s.v.hi 28
  let vlo := rotate s.v.lo 20
  let wlo := s.w.lo + ((length t - 1) &&& 63)
  let u := u + s.y
  let y := s.y + u
  let x := rotate (y - s.x + vlo + word t' 8) 37 * mul
  let y := rotate (y ^^^ vhi ^^^ word t' 48) 42 * mul
  let x := x ^^^ (s.w.hi * 9)
  let y := y + (vlo + word t' 40)
  let z := rotate (s.z + wlo) 33 * mul
  let v := fold32 t' (vhi * mul) (x + wlo)
  let w := fold32 (t'.drop 32) (z + s.w.hi) (y + word t' 16)
  pairRotated (pair (v.lo + x) (w.lo ^^^ y) mul + z - u)
    (pairRotated (v.hi + y) (w.hi + z) k₂ 30 ^^^ x) k₂ 31

/-- The hash of a text. -/
def hash (t : Text) : UInt64 :=
  let n := t.length
  if n ≤ 16 then upTo16 t
  else if n ≤ 32 then upTo32 t
  else if n ≤ 64 then upTo64 t
  else if n ≤ 96 then upTo96 t
  else if n ≤ 256 then upTo256 t
  else beyond256 t

/-- A hash as sixteen hexadecimal digits. -/
def digits (h : UInt64) : Text := Text.hex 16 h.toNat

end Lightboard.Hash64
