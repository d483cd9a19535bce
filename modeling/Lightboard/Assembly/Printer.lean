import Lightboard.Assembly.Operand
import Lightboard.Code.Program

/-!
# Programs as assembly text

Each instruction is written on a line of its own with its index in a comment. Operands after a missing
one are left out.
-/

namespace Lightboard.Assembly

/-- The operands up to the first that is missing. -/
def writtenOperands (i : Instruction) : List Value :=
  match i.first, i.second with
  | some a, some b => [a, b]
  | some a, none => [a]
  | none, _ => []

/-- The line of an instruction; an operation without a mnemonic has none. -/
def line? (i : Instruction) (index : Nat) : Option Text :=
  i.op.mnemonic?.map fun m =>
    Text.concat
      ["  [", Operand.quote m,
       (writtenOperands i).flatMap fun v => Text.concat [", ", Operand.write v],
       "], # ", Text.ofNat index, "\n"]

/-- The assembly text of a program. -/
def print? (p : Program) : Option Text := do
  let lines ← p.code.zipIdx.mapM fun (i, index) => line? i index
  return Text.concat ["name = ", Operand.quote p.name, "\ncode = [\n", Text.concat lines, "]\n"]

end Lightboard.Assembly
