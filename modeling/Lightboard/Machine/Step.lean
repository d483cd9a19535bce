import Lightboard.Machine.Output
import Lightboard.Machine.Timing

/-!
# Steps and runs

A step executes the instruction at the program counter. A run loads a program and steps until the
program stops, falls off its end or fails; the number of steps is bounded by an argument, and a run
that uses it up is neither finished nor failed.
-/

namespace Lightboard

namespace Rig

/-- `CONSTANT` -/
def defineConstant (r : Rig) (i : Instruction) : Outcome :=
  match name i.first with
  | .error e => r.fail e
  | .ok n =>
    match r.resolve i.second with
    | .error e => r.fail e
    | .ok v => (r.setCalls (r.machine.calls.putConstant n v)).done

/-- `PARAM` -/
def stageParam (r : Rig) (i : Instruction) : Outcome :=
  match name i.first with
  | .error e => r.fail e
  | .ok n =>
    match r.resolve i.second with
    | .error e => r.fail e
    | .ok v => (r.setCalls (r.machine.calls.putParam n v)).done

/-- `JSR`: runs the routine of a name in the staged frame. -/
def callRoutine (r : Rig) (p : Program) (i : Instruction) : Outcome :=
  match name i.first with
  | .error e => r.fail e
  | .ok n =>
    match p.resolve n with
    | none => r.fail (.unresolvedRoutine n)
    | some entry =>
      let calls := (r.machine.calls.setReturn (r.machine.registers.pc + 1)).push
      ((r.setCalls calls).setCounter entry).done

/-- `END`: leaves the open loops and goes back to where the frame was called from. -/
def returnFromRoutine (r : Rig) : Outcome :=
  let calls := r.machine.calls.unwindLoops
  match calls.pop with
  | .error f => (r.setCalls calls).fault f
  | .ok calls' => ((r.setCalls calls').setCounter calls.getReturn).done

/-- Whether a jump is taken. -/
def taken (result : Slot) (c : JumpCondition) : Except RunError Bool :=
  match c with
  | .always => .ok true
  | .ifTrue => (Operator.need result).map Value.isTrue
  | .ifFalse => (Operator.need result).map fun v => !v.isTrue
  | c => .error (.badParam (.unknownCondition c.code))

/-- `JUMP` to the address an operand holds. -/
def jumpIndirect (r : Rig) (target : Slot) : Outcome :=
  match r.resolve target with
  | .error e => r.fail e
  | .ok v =>
    match Slot.number? v with
    | some x => (r.setCounter (Number.truncate x)).done
    | none => r.bad (.indirectTarget target v)

/-- `JUMP` by an offset. -/
def jumpRelative (r : Rig) (c : JumpCondition) (offset : Slot) : Outcome :=
  match Slot.number? offset with
  | none => r.bad (.offsetExpected offset)
  | some x =>
    match taken r.machine.registers.result c with
    | .error e => r.fail e
    | .ok true => (r.setCounter (Number.addWord r.machine.registers.pc (Number.truncate x))).done
    | .ok false => (r.setCounter (r.machine.registers.pc + 1)).done

/-- `JUMP` -/
def jump (r : Rig) (i : Instruction) : Outcome :=
  match i.first with
  | some (.jump .indirect) => r.jumpIndirect i.second
  | some (.jump c) => r.jumpRelative c i.second
  | v => r.bad (.conditionExpected v)

/-- `PUSH`: pushes what an operand stands for. -/
def push (r : Rig) (source : Slot) : Outcome :=
  match source with
  | none => r.bad .pushMissing
  | some _ =>
    match r.resolve source with
    | .error e => r.fail e
    | .ok v => (r.setStack (v :: r.machine.stack)).done

/-- Pushes a value as it is. -/
def pushValue (r : Rig) (v : Slot) : Rig := r.setStack (v :: r.machine.stack)

/-- `POP`: stores the top of the operand stack, without conversion of units. -/
def pop (r : Rig) (dest : Slot) : Outcome :=
  match OperandStack.pop r.machine.stack with
  | .error f => r.fault f
  | .ok (v, rest) =>
    let r := r.setStack rest
    match dest with
    | some (.register reg) => r.setRegister reg v
    | some (.symbol _) => r.setVariable dest v
    | some (.loopVar _) => r.setVariable dest v
    | _ => r.bad (.popTarget dest)

/-- The operand stack after an operation on it. -/
def onStack (r : Rig) (f : OperandStack → OperandStack × Except RunError Unit) : Outcome :=
  let (s, outcome) := f r.machine.stack
  (r.setStack s, outcome)

/-- `OP` -/
def applyOperator (r : Rig) (v : Slot) : Outcome :=
  match v with
  | some (.operator op) => r.onStack (OperandStack.apply op)
  | _ => r.bad (.operatorExpected v)

/-- `END_LOOP` -/
def leaveLoop (r : Rig) : Outcome :=
  match r.machine.calls.exitLoop with
  | .error f => r.fault f
  | .ok s => (r.setCalls s).done

/-- `BREAKPOINT`: logs the state of the machine. -/
def breakpoint (r : Rig) : Rig :=
  r.note ⟨.debug, Text.concat ["Breakpoint\n", r.machine.shown],
    [("pc", .int r.machine.registers.pc)]⟩

/-- Does what an instruction says, all but moving on. -/
def execute (r : Rig) (p : Program) (i : Instruction) : Outcome :=
  match i.op with
  | .nop => r.done
  | .breakpoint => r.breakpoint.done
  | .color => r.color
  | .constant => r.defineConstant i
  | .disc => r.discover i
  | .discZone => r.discoverZones i
  | .discNext => r.discoverNext i
  | .discNextZone => r.discoverNextZone i
  | .ret => r.returnFromRoutine
  | .endLoop => r.leaveLoop
  | .getColor => r.getColor
  | .call => r.callRoutine p i
  | .jump => r.jump i
  | .loop => (r.setCalls r.machine.calls.enterLoop).done
  | .move =>
    match r.resolve i.first with
    | .error e => r.fail e
    | .ok v => r.store i.second v
  | .moveLiteral =>
    match i.first with
    | none => r.bad .moveMissing
    | some v => r.store i.second (some v)
  | .apply => r.applyOperator i.first
  | .out => r.out i.first i.second
  | .param => r.stageParam i
  | .pause => r.pause
  | .pop => r.pop i.first
  | .power => r.power
  | .push => r.push i.first
  | .pushLiteral =>
    match i.first with
    | none => r.bad .pushLiteralMissing
    | some v => (r.pushValue (some v)).done
  | .routine => r.done
  | .stop => ({ r with machine.stopped := true } : Rig).done
  | .timePattern => r.timePattern i
  | .wait => r.wait
  | .unnamed _ => r.fault .unnamedOpCode

/-- How a step ends. -/
inductive StepResult where
  | goOn
  | stop
  | error (e : RunError)

def StepResult.label : StepResult → Text
  | .goOn => "Continue"
  | .stop => "Stop"
  | .error _ => "Error"

/-- Moves on to the next instruction, unless the last one set the program counter itself. -/
def advance (r : Rig) (op : OpCode) : Rig :=
  if op.advances then r.setCounter (r.machine.registers.pc + 1) else r

/-- Executes the instruction at an address. -/
def stepAt (r : Rig) (p : Program) (pc : Int) (i : Instruction) : Rig × StepResult :=
  match r.execute p i with
  | (r, .error e) => (r, .error (.instruction pc i.op e))
  | (r, .ok ()) =>
    let r := r.advance i.op
    (r, if r.machine.stopped then .stop else .goOn)

/-- One step. -/
def step (r : Rig) : Rig × StepResult :=
  match r.machine.program with
  | none => (r, .error .noProgram)
  | some p =>
    if r.machine.stopped then (r, .stop)
    else
      match r.stage.poll with
      | (stage, .error e) => ({ r with stage := stage }, .error e)
      | (stage, .ok ()) =>
        let r := { r with stage := stage }
        let pc := r.machine.registers.pc
        if pc < 0 then (r, .error (.counterOutOfRange pc))
        else
          match p.code[pc.toNat]? with
          | none => (r, .stop)
          | some i => r.stepAt p pc i

/-- How a run ends. -/
inductive RunResult where
  | finished
  | failed (e : RunError)
  /-- The bound on the steps was too small. -/
  | unfinished

/-- Logs the failure of a run after so many steps. -/
def noteFailed (r : Rig) (e : RunError) (steps : Nat) : Rig :=
  match e.cause with
  | .cancelled => r.note ⟨.info, "run cancelled", [("error", .text e.message), ("steps", .int steps)]⟩
  | .deadline => r.note ⟨.info, "run cancelled", [("error", .text e.message), ("steps", .int steps)]⟩
  | _ =>
    r.note ⟨.error, "run failed",
      [("error", .text e.message), ("pc", .int r.machine.registers.pc), ("steps", .int steps)]⟩

/-- Steps until the end, at most `fuel` times, after `steps` steps. -/
def runFrom (fuel : Nat) (r : Rig) (steps : Nat) : Rig × RunResult :=
  match fuel with
  | 0 => (r, .unfinished)
  | fuel + 1 =>
    match r.step with
    | (r, .error e) => (r.noteFailed e steps, .failed e)
    | (r, .stop) =>
      (r.note (.debug "run finished"
        [("steps", .int (steps + 1)), ("pc", .int r.machine.registers.pc)]), .finished)
    | (r, .goOn) => runFrom fuel r (steps + 1)

/-- Puts a program at its start. -/
def load (r : Rig) (p : Program) : Rig := { r with machine := r.machine.load p }

/-- Runs a program. A program that has no fingerprint is loaded but not run. -/
def run (fuel : Nat) (r : Rig) (p : Program) : Rig × RunResult :=
  let r := r.load p
  match p.fingerprint? with
  | none => (r, .failed (.fault .unnamedOpCode))
  | some h =>
    let r := r.note (.debug "run starting"
      [("instructions", .int p.code.length), ("fingerprint", .text (Hash64.digits h))])
    let (r, result) := runFrom fuel { r with stage := r.stage.record .start } 0
    ({ r with stage := r.stage.record .stop }, result)

end Rig

end Lightboard
