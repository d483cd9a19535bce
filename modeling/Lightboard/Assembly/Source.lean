import Lightboard.Assembly.Operand
import Lightboard.Code.Program
import Lightboard.Log
import Lightboard.Toml.Fields

/-!
# Assembly sources

A source is a document with a name and a list of instructions, each a list of an op-code and up to two
operands. A loader turns it into a program (`loadSource`). A routine is entered in the table by its
marker, which needs a name that no earlier marker has.
-/

namespace Lightboard.Assembly

/-- Why an entry of the code is no instruction. -/
inductive InstructionError where
  | empty
  | tooManyOperands (n : Nat)
  | opCodeKind (d : Toml.Datum)
  | unknownOpCode (name : Text)
  | operand (op : OpCode) (e : OperandError)
  | routineUnnamed
  | routineRepeated (name : Text) (entry : Int)

def InstructionError.message : InstructionError → Text
  | .empty => "Empty instruction"
  | .tooManyOperands n => Text.concat ["Too many operands (", Text.ofNat n, ")"]
  | .opCodeKind d => Text.concat ["Op-code must be a string, got ", d.shown]
  | .unknownOpCode name => Text.concat ["Unknown op-code ", name.quoted]
  | .operand op e => Text.concat [op.inMessage, ": ", e.message]
  | .routineUnnamed => "ROUTINE needs a name"
  | .routineRepeated name entry =>
    Text.concat ["routine ", name.quoted, " already defined at ", Text.ofInt entry]

/-- The text of a scalar; lists and tables have none. -/
def scalarText? : Toml.Datum → Option Text
  | .text t => some t
  | .integer n => some (Text.ofInt n)
  | .float x => some (Number.plain x)
  | .boolean true => some "true"
  | .boolean false => some "false"
  | .moment m => some m.text
  | _ => none

/-- Reads one entry of the code. -/
def readInstruction : List Toml.Datum → Except InstructionError Instruction
  | [] => .error .empty
  | head :: operands =>
    if 2 < operands.length then .error (.tooManyOperands operands.length)
    else
      match scalarText? head with
      | none => .error (.opCodeKind head)
      | some name =>
        match OpCode.ofMnemonic? name with
        | none => .error (.unknownOpCode name)
        | some op =>
          match operands.mapM Operand.read with
          | .error e => .error (.operand op e)
          | .ok vs => .ok { op := op, first := vs[0]?, second := vs[1]? }

/-- The table of routines after one more instruction, which stands at `index`. -/
def enterRoutine (table : Table Text Int) (index : Nat) (i : Instruction) :
    Except InstructionError (Table Text Int) :=
  if i.op = .routine then
    match i.first with
    | some (.str name) =>
      match table.get? name with
      | some entry => .error (.routineRepeated name entry)
      | none => .ok (table.insert name index)
    | _ => .error .routineUnnamed
  else .ok table

/-- Reads the entries from `index` on; an error tells which entry is at fault. -/
def readCode (table : Table Text Int) (index : Nat) :
    List (List Toml.Datum) → Except (Nat × InstructionError) (List Instruction × Table Text Int)
  | [] => .ok ([], table)
  | raw :: rest =>
    match readInstruction raw with
    | .error e => .error (index, e)
    | .ok i =>
      match enterRoutine table index i with
      | .error e => .error (index, e)
      | .ok table' =>
        match readCode table' (index + 1) rest with
        | .error e => .error e
        | .ok (is, table'') => .ok (i :: is, table'')

/-- A source whose document has the right shape. -/
structure Source where
  name : Text := []
  code : List (List Toml.Datum) := []
  /-- Paths of the document that have no meaning here. -/
  unknown : List Toml.Path := []

namespace Source

/-- A list whose items are all lists. -/
def rows? : Toml.Datum → Option (List (List Toml.Datum))
  | .list items =>
    items.mapM fun
      | .list row => some row
      | _ => none
  | _ => none

/-- The fields of a source. -/
def fields : List (Toml.Field Source) :=
  [⟨"name", .text fun s t => { s with name := t }⟩,
   ⟨"code", fun s _ d => (rows? d).map fun rows => ({ s with code := rows }, [])⟩]

/-- Reads a source; nothing if the text is no document or a field has the wrong shape. -/
def read? (t : Text) : Option Source := do
  let doc ← Toml.Document.read t
  let (s, unknown) ← doc.readOver fields {}
  return { s with unknown := unknown }

end Source

/-- The calls in a program to routines that it does not have. -/
def undefinedCalls (p : Program) : List (Nat × Text) :=
  p.code.zipIdx.filterMap fun (i, pc) =>
    match i.op, i.first with
    | .call, some (.str name) => if p.routines.contains name then none else some (pc, name)
    | _, _ => none

end Lightboard.Assembly
