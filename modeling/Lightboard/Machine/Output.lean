import Lightboard.Format.Template
import Lightboard.Machine.Basic

/-!
# Output

Values are buffered and printed together: the first of them as it is, or all of them by a template.
Printing empties the buffer.
-/

namespace Lightboard.Rig

/-- What a template can refer to: the buffer, and registers and variables by name. -/
def formatSource (m : Machine) : Format.Source where
  buffer := m.buffer
  named name :=
    match Register.ofName? name with
    | some reg =>
      match m.registers.get reg with
      | .ok v => some v
      | .error _ => none
    | none => m.calls.getName name

/-- Adds a value to the buffer. -/
def bufferValue (r : Rig) (v : Slot) : Rig := { r with machine.buffer := r.machine.buffer ++ [v] }

/-- A register, for output. -/
def outRegister (r : Rig) (v : Slot) : Outcome :=
  match v with
  | some (.register reg) =>
    match r.machine.registers.get reg with
    | .ok w => (r.bufferValue w).done
    | .error f => r.fault f
  | _ => r.bad (.registerExpected v)

/-- A literal or what a reference refers to, for output. -/
def outLiteral (r : Rig) (v : Slot) : Outcome :=
  match v with
  | none => r.bad .literalMissing
  | some _ =>
    match r.resolve v with
    | .ok w => (r.bufferValue w).done
    | .error e => r.fail e

/-- Prints the first buffered value and a trailer. A failing output goes unnoticed. -/
def printFirst (r : Rig) (trailer : Text) : Outcome :=
  match r.machine.buffer with
  | none :: _ => r.fault .missingValue
  | buffer =>
    let first := match buffer with
      | some v :: _ => Format.plainText v
      | _ => []
    let (stage, _) := r.stage.write (first ++ trailer)
    ({ machine := { r.machine with buffer := [] }, stage := stage } : Rig).done

/-- Prints by a template. -/
def printTemplate (r : Rig) (template : Text) : Outcome :=
  let (t, warnings) := (formatSource r.machine).render template
  let (stage, outcome) := (r.stage.noteAll warnings).write t
  ({ machine := { r.machine with buffer := [] }, stage := stage }, outcome)

/-- `OUT` -/
def out (r : Rig) (op arg : Slot) : Outcome :=
  match op with
  | some (.io .register) => r.outRegister arg
  | some (.io .literal) => r.outLiteral arg
  | some (.io .print) =>
    match arg with
    | some (.str trailer) => r.printFirst trailer
    | _ => r.printFirst []
  | some (.io .println) => r.printFirst "\n"
  | some (.io .printf) =>
    match arg with
    | some (.str template) => r.printTemplate template
    | _ => r.bad (.formatExpected arg)
  | some (.io (.unnamed past)) => r.bad (.unknownIoOp (IoOp.unnamed past).code)
  | _ => r.bad (.ioOpExpected op)

end Lightboard.Rig
