import Lightboard.Code.OpCode
import Lightboard.Code.Value
import Lightboard.Hash64
import Lightboard.Table

/-!
# Programs

A program is a name, a list of instructions and a table of routine entries. Its canonical text is one
line for each instruction; the fingerprint is the hash of that text.
-/

namespace Lightboard

/-- An operation with up to two operands. -/
structure Instruction where
  op : OpCode
  first : Slot := none
  second : Slot := none

namespace Instruction

/-- The operands that are there. -/
def operands (i : Instruction) : List Value := [i.first, i.second].filterMap id

/-- The mnemonic and the operands, with blanks between them. An operation without a mnemonic has no
such line. -/
def line? (i : Instruction) : Option Text :=
  i.op.mnemonic?.map fun m =>
    Text.ofString m ++ i.operands.flatMap fun v => ascii ' ' :: v.listed

/-- The line of an instruction in a listing, with a note in place of one that cannot be written. -/
def inMessage (i : Instruction) : Text :=
  match i.line? with
  | some t => t
  | none => i.op.inMessage

end Instruction

/-- Named instructions with the entries of their routines. -/
structure Program where
  name : Text
  code : List Instruction
  routines : Table Text Int

namespace Program

/-- The entry of a routine. -/
def resolve (p : Program) (name : Text) : Option Int := p.routines.get? name

/-- The lines of a program's instructions, if all of them can be written. -/
def lines? (p : Program) : Option (List Text) := p.code.mapM Instruction.line?

/-- The canonical text: one line for each instruction. -/
def canonical? (p : Program) : Option Text :=
  p.lines?.map fun ls => ls.flatMap (· ++ [ascii '\n'])

/-- The hash of the canonical text. -/
def fingerprint? (p : Program) : Option UInt64 := p.canonical?.map Hash64.hash

/-- The entry of each routine by the markers in the code: a later marker of a name wins. -/
def markers (code : List Instruction) : Table Text Int :=
  Table.ofList <| (code.zipIdx).filterMap fun
    | (⟨.routine, some (.str name), _⟩, i) => some (name, (i : Int))
    | _ => none

/-- The entries of the routine table in the order of their names. -/
def sortedRoutines (p : Program) : List (Text × Int) :=
  p.routines.entries.mergeSort fun a b => Text.atMost a.1 b.1

/-- The program for a reader: name and fingerprint, the routines by name, and the numbered code. -/
def listing? (p : Program) : Option Text :=
  p.fingerprint?.map fun h =>
    Text.concat
      ["Program: ", p.name, " (", Hash64.digits h, ")\n",
       "Routines: map[",
       Text.join [ascii ' '] (p.sortedRoutines.map fun (n, a) => Text.concat [n, ":", Text.ofInt a]),
       "]\n",
       p.code.zipIdx.flatMap fun (i, n) =>
         Text.concat ["  ", Text.padLeft (ascii '0') 3 (Text.ofNat n), ": ", i.inMessage, "\n"]]

end Program

end Lightboard
