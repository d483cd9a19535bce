import Lightboard.Code.Program
import Lightboard.Machine.Arithmetic
import Lightboard.Machine.CallStack
import Lightboard.Machine.Registers
import Lightboard.Machine.Stage

/-!
# The machine

The state of a machine, and a machine on its stage. Handlers of instructions take such a rig to another
one and tell whether they succeeded; what a handler did before it failed stays done.
-/

namespace Lightboard

/-- What a machine starts with. -/
structure Options where
  noPause : Bool := false
  unitMode : UnitMode := .logical

/-- The state of a machine. -/
structure Machine where
  options : Options := {}
  registers : Registers := {}
  calls : CallStack := {}
  stack : OperandStack := []
  /-- Values buffered for output, in order. -/
  buffer : List Slot := []
  program : Option Program := none
  /-- Pausing is still wanted. -/
  pausing : Bool := true
  stopped : Bool := false

namespace Machine

/-- The machine with everything at its start but the program. -/
def reset (m : Machine) : Machine :=
  { options := m.options
    registers := { unitMode := m.options.unitMode }
    program := m.program
    pausing := !m.options.noPause }

/-- A new machine. -/
def create (options : Options) : Machine := ({ options := options } : Machine).reset

/-- The machine at the start of a program. -/
def load (m : Machine) (p : Program) : Machine := { m.reset with program := some p }

/-- Registers, operand stack and variables, for a reader. -/
def shown (m : Machine) : Text :=
  Text.concat
    ["Registers:\n", m.registers.shown, "Operand Stack:\n", OperandStack.shown m.stack, m.calls.shown]

end Machine

/-- A machine on its stage. -/
structure Rig where
  machine : Machine := {}
  stage : Stage := {}

/-- What a handler leaves: the rig after it, and whether it succeeded. -/
abbrev Outcome := Rig × Except RunError Unit

namespace Rig

/-- Success. -/
def done (r : Rig) : Outcome := (r, .ok ())

/-- Failure. -/
def fail (r : Rig) (e : RunError) : Outcome := (r, .error e)

/-- Failure because of an operand. -/
def bad (r : Rig) (why : BadParam) : Outcome := r.fail (.badParam why)

/-- A state the machine cannot go on from. -/
def fault (r : Rig) (f : Fault) : Outcome := r.fail (.fault f)

def setRegisters (r : Rig) (b : Registers) : Rig := { r with machine.registers := b }

def setCalls (r : Rig) (s : CallStack) : Rig := { r with machine.calls := s }

def setStack (r : Rig) (s : OperandStack) : Rig := { r with machine.stack := s }

def setResult (r : Rig) (v : Slot) : Rig := { r with machine.registers.result := v }

def setCounter (r : Rig) (pc : Int) : Rig := { r with machine.registers.pc := pc }

/-- Logs an entry of the machine, which tells the program that is loaded. -/
def note (r : Rig) (e : Entry) : Rig :=
  let e := match r.machine.program with
    | some p => e.tagged "program" p.name
    | none => e
  { r with stage := r.stage.note e }

def warn (r : Rig) (message : String) (details : List (Text × Detail)) : Rig :=
  r.note (.warn message details)

/-- The value an operand stands for: what a reference refers to, and any other operand itself. -/
def resolve (r : Rig) (source : Slot) : Except RunError Slot :=
  match source with
  | none => .error (.badParam .operandMissing)
  | some (.register reg) =>
    match r.machine.registers.get reg with
    | .ok v => .ok v
    | .error f => .error (.fault f)
  | some v =>
    match v with
    | .symbol _ | .loopVar _ =>
      match r.machine.calls.getVariable source with
      | some w => .ok w
      | none => .error (.unresolvedName v)
    | _ => .ok source

/-- Writes a register without conversion of units. -/
def setRegister (r : Rig) (reg : Register) (v : Slot) : Outcome :=
  match r.machine.registers.set reg v with
  | .ok b => (r.setRegisters b).done
  | .error e => r.fail e

/-- Writes a variable. -/
def setVariable (r : Rig) (token : Slot) (v : Slot) : Outcome :=
  match r.machine.calls.putVariable token v with
  | .ok s => (r.setCalls s).done
  | .error f => r.fault f

/-- Switches to another unit mode; the color and the times stay what they are. -/
def switchUnits (r : Rig) (v : Slot) : Outcome :=
  match v with
  | some (.unitMode m) =>
    match r.machine.registers.switchUnits m with
    | .ok b => (r.setRegisters b).done
    | .error f => r.fault f
  | _ => r.bad (.unitMode v)

/-- Stores a value where an operand says. -/
def store (r : Rig) (dest : Slot) (v : Slot) : Outcome :=
  match dest with
  | some (.register .unitMode) => r.switchUnits v
  | some (.register reg) => r.setRegister reg v
  | some (.symbol _) => r.setVariable dest v
  | some (.loopVar _) => r.setVariable dest v
  | _ => r.bad (.storeTarget dest)

/-- The name an operand gives. -/
def name (v : Slot) : Except RunError Text :=
  match v with
  | some (.str t) => .ok t
  | some (.symbol t) => .ok t
  | _ => .error (.badParam (.nameExpected v))

end Rig

end Lightboard
