import Lightboard.Binary.Pack
import Lightboard.Code.Program

/-!
# The stored form of a program

A program is stored as plain records: every operand is a kind, a number and a text. `Wire.ofProgram`
and `Wire.Program.toProgram` go between programs and these records, `bytes` and `read?` between the
records and packed bytes.

Routines are stored in the order of their names, so that equal programs have equal bytes.
-/

namespace Lightboard

/-- Why stored bytes give no program. -/
inductive StoredError where
  /-- These bytes are no records of the expected shape. -/
  | malformed (medium : Pack.Medium) (bytes : Text)
  /-- A string or raw bytes in place of a list, on which reading breaks down. -/
  | bytesForList
  | unknownKind (kind : Nat)
  | unknownOpCode (code index : Nat)
  | routineOutside (name : Text) (entry : Int)
  | pattern (e : PatternError)
  deriving DecidableEq, Repr

/-- What the words of an error rest on besides its cause. -/
structure Wording where
  /-- The byte reader's own words for bytes that it cannot read. -/
  unread : Pack.Medium → Text → Text
  /-- The byte that is named where several digits of a time pattern are wrong. -/
  named : List UInt8 → UInt8
  named_mem : ∀ wrong ≠ [], named wrong ∈ wrong

/-- The words in which errors are shown here. -/
def Wording.plain : Wording where
  unread _ _ := "unreadable bytes"
  named := PatternError.leftmost
  named_mem wrong some := by
    cases wrong with
    | nil => exact absurd rfl some
    | cons b _ => exact List.mem_cons_self

/-- An error in words. -/
def StoredError.wording (w : Wording) : StoredError → Text
  | .malformed medium t => Text.concat ["decoding program: ", w.unread medium t]
  | .bytesForList => "reflect.Value.SetBytes of non-byte slice"
  | .unknownKind n => Text.concat ["Unknown value kind ", Text.ofNat n, " in encoded program"]
  | .unknownOpCode n i => Text.concat ["Unknown op-code ", Text.ofNat n, " at ", Text.ofNat i]
  | .routineOutside name entry =>
    Text.concat ["Routine ", name.quoted, " entry ", Text.ofInt entry, " outside program"]
  | .pattern e => e.wording w.named

def StoredError.message (e : StoredError) : Text := e.wording .plain

/-- Whether an error breaks a command off at once, and its message stands alone. -/
def StoredError.isBreakdown : StoredError → Bool
  | .bytesForList => true
  | _ => false

namespace Wire

/-- An operand: its kind, and the number or text it holds. -/
structure Operand where
  kind : UInt8 := 0
  num : Float := 0
  str : Text := []

structure Instruction where
  op : UInt8 := 0
  first : Operand := {}
  second : Operand := {}

structure Routine where
  name : Text := []
  entry : Int := 0

structure Program where
  name : Text := []
  code : List Instruction := []
  routines : List Routine := []

/-- The record of a slot. -/
def ofSlot : Slot → Operand
  | none => { kind := 0 }
  | some (.number x) => { kind := 1, num := x }
  | some (.str t) => { kind := 2, str := t }
  | some (.bool b) => { kind := 3, num := if b then 1 else 0 }
  | some .nothing => { kind := 4 }
  | some (.unitMode m) => { kind := 5, num := Number.ofInt m.code }
  | some (.operand o) => { kind := 6, num := Number.ofInt o.code }
  | some (.pattern p) => { kind := 7, str := p.text }
  | some (.register r) => { kind := 8, num := Number.ofInt r.code }
  | some (.symbol name) => { kind := 9, str := name }
  | some (.loopVar n) => { kind := 10, num := Number.ofInt n }
  | some (.operator o) => { kind := 11, num := Number.ofInt o.code }
  | some (.jump c) => { kind := 12, num := Number.ofInt c.code }
  | some (.io o) => { kind := 13, num := Number.ofInt o.code }
  | some (.setOp o) => { kind := 14, num := Number.ofInt o.code }

namespace Operand

/-- The code a number stands for: the low byte of its whole part. What a number of more than 32 bits
stands for is left open; here it is zero. -/
def code (w : Operand) : UInt8 :=
  let n := Number.truncate w.num
  if -0x80000000 ≤ n ∧ n < 0x80000000 then UInt8.ofInt n else 0

/-- The slot of a record. -/
def toSlot (w : Operand) : Except StoredError Slot :=
  match w.kind.toNat with
  | 0 => .ok none
  | 1 => .ok (some (.number w.num))
  | 2 => .ok (some (.str w.str))
  | 3 => .ok (some (.bool (w.num != 0)))
  | 4 => .ok (some .nothing)
  | 5 => .ok (some (.unitMode (UnitMode.ofCode w.code)))
  | 6 => .ok (some (.operand (Lightboard.Operand.ofCode w.code)))
  | 7 =>
    match TimePattern.read w.str with
    | .ok p => .ok (some (.pattern p))
    | .error e => .error (.pattern e)
  | 8 => .ok (some (.register (Register.ofCode w.code)))
  | 9 => .ok (some (.symbol w.str))
  | 10 => .ok (some (.loopVar (Number.truncate w.num)))
  | 11 => .ok (some (.operator (Operator.ofCode w.code)))
  | 12 => .ok (some (.jump (JumpCondition.ofCode w.code)))
  | 13 => .ok (some (.io (IoOp.ofCode w.code)))
  | 14 => .ok (some (.setOp (SetOp.ofCode w.code)))
  | n => .error (.unknownKind n)

def bytes (w : Operand) : Text :=
  Pack.writeRecord
    [("Kind", Pack.writeNat w.kind.toNat), ("Num", Pack.writeFloat w.num), ("Str", Pack.writeText w.str)]

/-- Reads the fields of a record over those of another. -/
def readOver (w : Operand) : Pack.Reader Operand :=
  Pack.readRecord w fun name =>
    if name = ("Kind" : Text) then Pack.fieldOf Pack.readByte fun w b => { w with kind := b }
    else if name = ("Num" : Text) then Pack.fieldOf Pack.readFloat fun w x => { w with num := x }
    else if name = ("Str" : Text) then Pack.fieldOf Pack.readText fun w t => { w with str := t }
    else none

end Operand

def ofInstruction (i : Lightboard.Instruction) : Instruction :=
  { op := UInt8.ofNat i.op.code, first := ofSlot i.first, second := ofSlot i.second }

namespace Instruction

/-- The instruction of a record that stands at `index`. -/
def toInstruction (w : Instruction) (index : Nat) : Except StoredError Lightboard.Instruction :=
  if 28 ≤ w.op.toNat then .error (.unknownOpCode w.op.toNat index)
  else do
    let first ← w.first.toSlot
    let second ← w.second.toSlot
    return { op := OpCode.ofCode w.op, first := first, second := second }

def bytes (w : Instruction) : Text :=
  Pack.writeRecord
    [("Op", Pack.writeNat w.op.toNat), ("Param0", w.first.bytes), ("Param1", w.second.bytes)]

def read : Pack.Reader Instruction :=
  Pack.readRecord {} fun name =>
    if name = ("Op" : Text) then Pack.fieldOf Pack.readByte fun w b => { w with op := b }
    else if name = ("Param0" : Text) then
      Pack.fieldOver (fun w => w.first.readOver) fun w o => { w with first := o }
    else if name = ("Param1" : Text) then
      Pack.fieldOver (fun w => w.second.readOver) fun w o => { w with second := o }
    else none

end Instruction

namespace Routine

def bytes (w : Routine) : Text :=
  Pack.writeRecord [("Name", Pack.writeText w.name), ("Addr", Pack.writeInt w.entry)]

def read : Pack.Reader Routine :=
  Pack.readRecord {} fun name =>
    if name = ("Name" : Text) then Pack.fieldOf Pack.readText fun w t => { w with name := t }
    else if name = ("Addr" : Text) then Pack.fieldOf Pack.readInt fun w n => { w with entry := n }
    else none

end Routine

def ofProgram (p : Lightboard.Program) : Program :=
  { name := p.name
    code := p.code.map ofInstruction
    routines := p.sortedRoutines.map fun (name, entry) => { name := name, entry := entry } }

namespace Program

/-- The table of routines, all of whose entries lie in a program of `size` instructions. -/
def toRoutines (size : Nat) (rs : List Routine) : Except StoredError (Table Text Int) :=
  rs.foldlM (fun table r =>
    if r.entry < 0 ∨ (size : Int) ≤ r.entry then .error (.routineOutside r.name r.entry)
    else .ok (table.insert r.name r.entry)) Table.empty

/-- The instructions of a list of records, counted from `index`. -/
def toCode (index : Nat) : List Instruction → Except StoredError (List Lightboard.Instruction)
  | [] => .ok []
  | w :: ws => do
    let i ← w.toInstruction index
    let is ← toCode (index + 1) ws
    return i :: is

/-- The program of a record. -/
def toProgram (w : Program) : Except StoredError Lightboard.Program := do
  let routines ← toRoutines w.code.length w.routines
  let code ← toCode 0 w.code
  return { name := w.name, code := code, routines := routines }

def bytes (w : Program) : Text :=
  Pack.writeRecord
    [("Name", Pack.writeText w.name),
     ("Code", Pack.writeList (w.code.map Instruction.bytes)),
     ("Routines", Pack.writeList (w.routines.map Routine.bytes))]

def read : Pack.Reader Program :=
  Pack.readRecord {} fun name =>
    if name = ("Name" : Text) then Pack.fieldOf Pack.readText fun w t => { w with name := t }
    else if name = ("Code" : Text) then
      Pack.fieldOver (fun w => Pack.readList Instruction.read w.code) fun w is => { w with code := is }
    else if name = ("Routines" : Text) then
      Pack.fieldOver (fun w => Pack.readList Routine.read w.routines) fun w rs =>
        { w with routines := rs }
    else none

end Program

end Wire

namespace Program

/-- The stored bytes of a program. -/
def encode (p : Program) : Text := (Wire.ofProgram p).bytes

/-- The program of stored bytes; what follows the first record is not looked at. -/
def decode (medium : Pack.Medium) (t : Text) : Except StoredError Program :=
  match Wire.Program.read { medium := medium, rest := t } with
  | .ok (w, _) => w.toProgram
  | .error .malformed => .error (.malformed medium t)
  | .error .bytesForList => .error .bytesForList

end Program

end Lightboard
