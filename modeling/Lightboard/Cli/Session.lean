import Lightboard.Cli.Script
import Lightboard.Config
import Lightboard.Machine.Step

/-!
# Machines at work in a command

A machine is stepped, and after each step what it wrote, logged and waited for is requested of the
world. Before an instruction that needs a key the prompt is shown and a line is asked for.
-/

namespace Lightboard.Cli

open Script

/-- Writes where output goes. -/
def emit (sink : Config.Output) (t : Text) (next : Unit → Script) : Script :=
  if t.isEmpty then next ()
  else
    match sink with
    | .standard => .print t next
    | .error => .complain t next
    | .discard => next ()
    | .file path => .append path t fun _ => next ()

/-- Logs entries in order, those of the threshold or above. -/
def logAll (threshold : Int) : List Entry → (Unit → Script) → Script
  | [], next => next ()
  | e :: es, next =>
    if threshold ≤ e.level.rank then .log e fun () => logAll threshold es next
    else logAll threshold es next

/-- Requests the waits among events. -/
def waitAll : List Event → (Unit → Script) → Script
  | [], next => next ()
  | .pauseFor ns :: es, next => .sleep ns fun () => waitAll es next
  | .waitUntil p :: es, next => .sleepUntil p fun () => waitAll es next
  | _ :: es, next => waitAll es next

/-- Where the output of a machine goes, and what is logged. -/
structure Terminal where
  sink : Config.Output := .standard
  threshold : Int := 1

/-- Requests what a rig left on its stage. A prompt that was already shown is not shown again. -/
def settle (t : Terminal) (prompted : Bool) (r : Rig) (next : Rig → Script) : Script :=
  let shown := if prompted then r.stage.output.drop Rig.pausePrompt.length else r.stage.output
  emit t.sink shown fun () =>
    logAll t.threshold r.stage.log.reverse fun () =>
      waitAll r.stage.events.reverse fun () =>
        next { r with stage := { r.stage with written := [], events := [], log := [] } }

/-- Whether the next instruction asks for a key. -/
def wantsKey (r : Rig) : Bool :=
  r.machine.pausing && !r.machine.stopped &&
    match r.machine.program with
    | none => false
    | some p =>
      0 ≤ r.machine.registers.pc &&
        (p.code[r.machine.registers.pc.toNat]?).any fun i => i.op == .pause

/-- One step, with a key from the input if it needs one. -/
def stepOnce (t : Terminal) (r : Rig) (next : Rig → Rig.StepResult → Script) : Script :=
  if wantsKey r then
    emit t.sink Rig.pausePrompt fun () =>
      .line fun l =>
        let (r, result) := { r with stage.keyboard := { text := l.getD [] } }.step
        settle t true r fun r => next r result
  else
    let (r, result) := r.step
    settle t false r fun r => next r result

/-- Steps until the program ends. -/
def stepAll (fuel : Nat) (t : Terminal) (r : Rig) (steps : Nat) (next : Rig → Rig.RunResult → Script) :
    Script :=
  match fuel with
  | 0 => next r .unfinished
  | fuel + 1 =>
    stepOnce t r fun r result =>
      match result with
      | .goOn => stepAll fuel t r (steps + 1) next
      | .stop => next r .finished
      | .error e => settle t false (r.noteFailed e steps) fun r => next r (.failed e)

end Lightboard.Cli
