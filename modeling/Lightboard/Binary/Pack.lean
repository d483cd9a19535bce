import Lightboard.Number.Binary64

/-!
# Packed values

A self-describing binary notation: each value begins with a byte that tells its kind, and small
numbers and short lengths are part of that byte. Records are maps from field names to values.
Numbers are big-endian. Writing takes the shortest form; reading takes any form.
-/

namespace Lightboard.Pack

/-- The `n` low bytes of a number, the most significant first. -/
def big : Nat → Nat → Text
  | 0, _ => []
  | n + 1, x => big n (x / 256) ++ [UInt8.ofNat (x % 256)]

/-- A natural number of 64 bits. -/
def writeNat (n : Nat) : Text :=
  if n < 0x80 then [UInt8.ofNat n]
  else if n < 0x100 then 0xcc :: big 1 n
  else if n < 0x10000 then 0xcd :: big 2 n
  else if n < 0x100000000 then 0xce :: big 4 n
  else 0xcf :: big 8 n

/-- An integer of 64 bits. -/
def writeInt (n : Int) : Text :=
  if 0 ≤ n then writeNat n.toNat
  else if -0x20 ≤ n then [UInt8.ofInt n]
  else if -0x80 ≤ n then 0xd0 :: big 1 (n + 0x100).toNat
  else if -0x8000 ≤ n then 0xd1 :: big 2 (n + 0x10000).toNat
  else if -0x80000000 ≤ n then 0xd2 :: big 4 (n + 0x100000000).toNat
  else 0xd3 :: big 8 (n + 0x10000000000000000).toNat

/-- A float of 64 bits. -/
def writeFloat (x : Float) : Text := 0xcb :: big 8 x.toBits.toNat

/-- A string of bytes. -/
def writeText (t : Text) : Text :=
  let n := t.length
  (if n < 0x20 then [UInt8.ofNat (0xa0 + n)]
   else if n < 0x100 then 0xd9 :: big 1 n
   else if n < 0x10000 then 0xda :: big 2 n
   else 0xdb :: big 4 n) ++ t

/-- The items of an array, already written. -/
def writeList (items : List Text) : Text :=
  let n := items.length
  (if n < 0x10 then [UInt8.ofNat (0x90 + n)]
   else if n < 0x10000 then 0xdc :: big 2 n
   else 0xdd :: big 4 n) ++ items.flatten

/-- A record of fewer than sixteen fields, their values already written. -/
def writeRecord (fields : List (Text × Text)) : Text :=
  UInt8.ofNat (0x80 + fields.length) :: fields.flatMap fun (name, value) => writeText name ++ value

/-- Where bytes come from. At the end of a file a request for no bytes is still met; at the end of
bytes in memory every request fails. -/
inductive Medium where
  | memory
  | file
  deriving DecidableEq, Repr

/-- Bytes on their way in. They are laid out on a desk before they are used. A request that the end cuts
short is met all the same if there was a byte left: in the places that are missing, the desk shows what
an earlier request left there. -/
structure Input where
  medium : Medium
  rest : Text
  /-- The desk, which has room for sixty-four bytes. -/
  desk : Text := List.replicate 64 0
  /-- A desk for texts only, in use since one was too long for the first. -/
  longDesk : Option Text := none

/-- Why packed bytes cannot be read. -/
inductive Fault where
  /-- Too few bytes, or a value of the wrong kind. -/
  | malformed
  /-- A string or raw bytes in place of a list. -/
  | bytesForList
  deriving DecidableEq, Repr

/-- A reader takes a value off the input. -/
abbrev Reader (α : Type) := Input → Except Fault (α × Input)

/-- The next `n` bytes, or as many as there are. -/
def fetch (n : Nat) : Reader Text := fun i =>
  if i.rest.isEmpty && !(n == 0 && i.medium == .file) then .error .malformed
  else .ok (i.rest.take n, { i with rest := i.rest.drop n })

/-- Bytes laid over those of a desk, from its start on. -/
def layOver (bs desk : Text) : Text := bs ++ desk.drop bs.length

/-- The bytes of a number, of which there are at most eight. -/
def takeFew (n : Nat) : Reader Text := fun i => do
  let (bs, i) ← fetch n i
  let desk := layOver bs i.desk
  return (desk.take n, { i with desk := desk })

/-- Lays the bytes of a text on the desk for texts. -/
def Input.lay (i : Input) (bs : Text) : Input :=
  match i.longDesk with
  | some desk => { i with longDesk := some (layOver bs desk) }
  | none =>
    if bs.length ≤ i.desk.length then { i with desk := layOver bs i.desk }
    else { i with longDesk := some bs }

/-- The bytes of a text. -/
def takeText (n : Nat) : Reader Text := fun i => do
  let (bs, i) ← fetch n i
  let seen := layOver bs (i.longDesk.getD i.desk)
  return (Text.padRight 0 n (seen.take n), i.lay bs)

/-- Raw bytes, which get a clean desk of their own. -/
def takeRaw (n : Nat) : Reader Text := fun i => do
  let (bs, i) ← fetch n i
  return (Text.padRight 0 n bs, i)

/-- Passes over the bytes of a text. -/
def passText (n : Nat) : Reader Unit := fun i => do
  let (bs, i) ← fetch n i
  return ((), i.lay bs)

/-- The byte that begins a value. -/
def takeHead : Reader UInt8 := fun i => do
  let (bs, i) ← takeFew 1 i
  return (bs.headD 0, i)

/-- A number of `n` bytes, the most significant first. -/
def readBig (n : Nat) : Reader Nat := fun i => do
  let (bs, i) ← takeFew n i
  return (bs.foldl (fun x b => x * 256 + b.toNat) 0, i)

/-- A number of `n` bytes in two's complement. -/
def readSigned (n : Nat) : Reader Int := fun i => do
  let (x, i) ← readBig n i
  return (Int.bmod x (Nat.pow 256 n), i)

/-- A number as it was written. -/
inductive Numeral where
  | int (n : Int)
  | float (x : Float)

/-- A number in any form; nothing counts as zero. -/
def readNumeral : Reader Numeral := fun i => do
  let (b, i) ← takeHead i
  let natural (n : Nat) : Except Fault (Numeral × Input) := do
    let (x, i) ← readBig n i
    return (.int x, i)
  let signed (n : Nat) : Except Fault (Numeral × Input) := do
    let (x, i) ← readSigned n i
    return (.int x, i)
  if b < 0x80 then .ok (.int b.toNat, i)
  else if 0xe0 ≤ b then .ok (.int ((b.toNat : Int) - 256), i)
  else if b = 0xc0 then .ok (.int 0, i)
  else if b = 0xcc then natural 1
  else if b = 0xcd then natural 2
  else if b = 0xce then natural 4
  else if b = 0xcf then natural 8
  else if b = 0xd0 then signed 1
  else if b = 0xd1 then signed 2
  else if b = 0xd2 then signed 4
  else if b = 0xd3 then signed 8
  else if b = 0xca then do
    let (x, i) ← readBig 4 i
    return (.float (Number.ofBits32 x), i)
  else if b = 0xcb then do
    let (x, i) ← readBig 8 i
    return (.float (Float.ofBits (UInt64.ofNat x)), i)
  else .error .malformed

/-- A byte: the low bits of an integer in any form. -/
def readByte : Reader UInt8 := fun i => do
  match ← readNumeral i with
  | (.int n, i) => return (UInt8.ofInt n, i)
  | (.float _, _) => .error .malformed

/-- An integer of 64 bits; a float loses its fraction. -/
def readInt : Reader Int := fun i => do
  match ← readNumeral i with
  | (.int n, i) => return (Number.wrapWord n, i)
  | (.float x, i) => return (Number.truncate x, i)

/-- A float; an integer becomes the nearest one. -/
def readFloat : Reader Float := fun i => do
  match ← readNumeral i with
  | (.int n, i) => return (Number.ofInt n, i)
  | (.float x, i) => return (x, i)

/-- The length of a string that begins with the byte `b`; nothing counts as the empty one. -/
def readLength (b : UInt8) : Reader Nat := fun i =>
  if 0xa0 ≤ b ∧ b < 0xc0 then .ok (b.toNat - 0xa0, i)
  else if b = 0xd9 then readBig 1 i
  else if b = 0xda then readBig 2 i
  else if b = 0xdb then readBig 4 i
  else if b = 0xc0 then .ok (0, i)
  else .error .malformed

/-- Whether a string begins with the byte `b`. -/
def isTextHead (b : UInt8) : Bool := (0xa0 ≤ b && b < 0xc0) || b == 0xd9 || b == 0xda || b == 0xdb

/-- Whether raw bytes begin with the byte `b`. -/
def isRawHead (b : UInt8) : Bool := b == 0xc4 || b == 0xc5 || b == 0xc6

/-- The number of raw bytes that begin with the byte `b`. -/
def readRawLength (b : UInt8) : Reader Nat :=
  readBig (if b = 0xc4 then 1 else if b = 0xc5 then 2 else 4)

/-- A string, or raw bytes. -/
def readText : Reader Text := fun i => do
  let (b, i) ← takeHead i
  if isRawHead b then do
    let (n, i) ← readRawLength b i
    takeRaw n i
  else do
    let (n, i) ← readLength b i
    if n = 0 then return ([], i) else takeText n i

/-- The name of a field. The end cannot cut it short, as a value has to follow. -/
def readName : Reader Text := fun i => do
  let (b, i) ← takeHead i
  let (n, i) ← readLength b i
  if n = 0 then return ([], i)
  else do
    let (bs, i) ← fetch n i
    if bs.length < n then .error .malformed else return (bs, i.lay bs)

/-- The number of items of an array that begins with the byte `b`. -/
def readListSize (b : UInt8) : Reader Nat := fun i =>
  if 0x90 ≤ b ∧ b < 0xa0 then .ok (b.toNat - 0x90, i)
  else if b = 0xdc then readBig 2 i
  else if b = 0xdd then readBig 4 i
  else .error .malformed

/-- The number of entries of a map. -/
def readMapSize : Reader Nat := fun i => do
  let (b, i) ← takeHead i
  if 0x80 ≤ b ∧ b < 0x90 then return (b.toNat - 0x80, i)
  else if b = 0xde then readBig 2 i
  else if b = 0xdf then readBig 4 i
  else .error .malformed

/-- `n` items, each by the same reader. -/
def readItems {α : Type} (item : Reader α) : Nat → Reader (List α)
  | 0, i => .ok ([], i)
  | n + 1, i => do
    let (a, i) ← item i
    let (as, i) ← readItems item n i
    return (a :: as, i)

/-- An array; nothing in its place leaves the items that were there. A string or raw bytes, once they
are read, are a fault of their own. -/
def readList {α : Type} (item : Reader α) (before : List α) : Reader (List α) := fun i => do
  let (b, i) ← takeHead i
  if b = 0xc0 then return (before, i)
  else if isRawHead b then do
    let (n, i) ← readRawLength b i
    let _ ← fetch n i
    .error .bytesForList
  else if isTextHead b then do
    let (n, i) ← readLength b i
    if n ≠ 0 then let _ ← fetch n i
    .error .bytesForList
  else do
    let (n, i) ← readListSize b i
    readItems item n i

/-- Passes over what follows the byte `b` that begins a value, and tells how many values are inside. -/
def passRest (b : UInt8) : Reader Nat := fun i =>
  let few (n : Nat) : Except Fault (Nat × Input) := do
    let (_, i) ← takeFew n i
    return (0, i)
  let bytes (n : Nat) : Except Fault (Nat × Input) := do
    let ((), i) ← passText n i
    return (0, i)
  let sized (n extra : Nat) : Except Fault (Nat × Input) := do
    let (size, i) ← readBig n i
    let ((), i) ← passText (size + extra) i
    return (0, i)
  let nested (n times : Nat) : Except Fault (Nat × Input) := do
    let (size, i) ← readBig n i
    return (times * size, i)
  if 0xa0 ≤ b ∧ b < 0xc0 then bytes (b.toNat - 0xa0)
  else if 0x90 ≤ b ∧ b < 0xa0 then .ok (b.toNat - 0x90, i)
  else if 0x80 ≤ b ∧ b < 0x90 then .ok (2 * (b.toNat - 0x80), i)
  else if b = 0xcc ∨ b = 0xd0 then few 1
  else if b = 0xcd ∨ b = 0xd1 then few 2
  else if b = 0xce ∨ b = 0xd2 ∨ b = 0xca then few 4
  else if b = 0xcf ∨ b = 0xd3 ∨ b = 0xcb then few 8
  else if b = 0xd9 ∨ b = 0xc4 then sized 1 0
  else if b = 0xda ∨ b = 0xc5 then sized 2 0
  else if b = 0xdb ∨ b = 0xc6 then sized 4 0
  else if b = 0xdc then nested 2 1
  else if b = 0xdd then nested 4 1
  else if b = 0xde then nested 2 2
  else if b = 0xdf then nested 4 2
  else if b = 0xd4 then bytes 2
  else if b = 0xd5 then bytes 3
  else if b = 0xd6 then bytes 5
  else if b = 0xd7 then bytes 9
  else if b = 0xd8 then bytes 17
  else if b = 0xc7 then sized 1 1
  else if b = 0xc8 then sized 2 1
  else if b = 0xc9 then sized 4 1
  else .ok (0, i)

/-- Passes over `n` values of any kind; every value takes a byte, so the length bounds the calls. -/
def skipValues (fuel n : Nat) (i : Input) : Except Fault Input :=
  match fuel, n with
  | _, 0 => .ok i
  | 0, _ + 1 => .error .malformed
  | fuel + 1, n + 1 => do
    let (b, i) ← takeHead i
    let (inner, i) ← passRest b i
    skipValues fuel (n + inner) i

/-- Passes over one value. -/
def skip (i : Input) : Except Fault Input := skipValues (i.rest.length + 1) 1 i

/-- `n` entries of a record. A known field updates what was read so far, an unknown one is passed
over. -/
def readFields {σ : Type} (field : Text → Option (σ → Reader σ)) : Nat → σ → Reader σ
  | 0, s, i => .ok (s, i)
  | n + 1, s, i => do
    let (name, i) ← readName i
    match field name with
    | some read => do
      let (s, i) ← read s i
      readFields field n s i
    | none => do
      let i ← skip i
      readFields field n s i

/-- A record: fields may come in any order, absent ones keep their first value, and of a repeated one
the last counts. A record or list inside that is repeated is read over the one that was there. -/
def readRecord {σ : Type} (first : σ) (field : Text → Option (σ → Reader σ)) : Reader σ := fun i => do
  let (n, i) ← readMapSize i
  readFields field n first i

/-- A field read by a reader of its own, which may depend on what the field holds so far. -/
def fieldOver {σ α : Type} (read : σ → Reader α) (set : σ → α → σ) : Option (σ → Reader σ) :=
  some fun s i => do
    let (a, i) ← read s i
    return (set s a, i)

/-- A field read by a reader of its own. -/
def fieldOf {σ α : Type} (read : Reader α) (set : σ → α → σ) : Option (σ → Reader σ) :=
  fieldOver (fun _ => read) set

end Lightboard.Pack
