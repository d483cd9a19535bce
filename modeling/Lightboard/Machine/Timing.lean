import Lightboard.Machine.Lighting

/-!
# Waiting and pausing
-/

namespace Lightboard.Rig

/-- What is written when the machine waits for a key. -/
def pausePrompt : Text := "Paused. Enter to continue, q to stop, ! to stop pausing: "

/-- What a key does to a paused machine. -/
def pressed (r : Rig) (key : Char) : Rig :=
  if key = 'q' then
    let r := r.note (.debug "PAUSE: stop requested" [])
    { r with machine.stopped := true }
  else if key = '!' then
    let r := r.note (.debug "PAUSE: pausing disabled" [])
    { r with machine.pausing := false }
  else r

/-- `PAUSE`: asks for a key. `q` stops the machine, `!` ends pausing, and so does the end of input. -/
def pause (r : Rig) : Outcome :=
  if !r.machine.pausing then r.done
  else
    let (stage, _) := r.stage.write pausePrompt
    let (stage, key) := stage.readKey
    let r := { r with stage := stage }
    match key with
    | .ok c => (r.pressed c).done
    | .error .endOfInput =>
      let r := r.note (.debug "PAUSE: keyboard closed, pausing disabled" [])
      { r with machine.pausing := false }.done
    | .error e => r.fail (.readingKey e)

/-- `WAIT`: waits as the time register says. -/
def wait (r : Rig) : Outcome :=
  let b := r.machine.registers
  match b.time with
  | .pattern p =>
    let (stage, outcome) := r.stage.waitUntil p
    ({ r with stage := stage }, outcome)
  | .number t =>
    let (stage, outcome) := r.stage.pauseFor (nanoseconds (Units.seconds b.unitMode t))
    ({ r with stage := stage }, outcome)
  | .nothing => r.done
  | v => r.bad (.waitValue (some v))

/-- A pattern, or a text that reads as one. -/
def patternOf (v : Slot) : Except RunError TimePattern :=
  match v with
  | some (.pattern p) => .ok p
  | some (.str t) =>
    match TimePattern.read t with
    | .ok p => .ok p
    | .error e => .error (.badParam (.badPattern e))
  | _ => .error (.badParam (.notPattern v))

/-- The pattern that a union makes of the time register. -/
def joinPattern (time : Value) (p : TimePattern) : TimePattern :=
  match time with
  | .pattern q => q.union p
  | _ => p

/-- `TIME_PATTERN`: sets the time register to a pattern, or adds one to it. -/
def timePattern (r : Rig) (i : Instruction) : Outcome :=
  match i.first with
  | some (.setOp op) =>
    match r.resolve i.second with
    | .error e => r.fail e
    | .ok v =>
      match patternOf v with
      | .error e => r.fail e
      | .ok p =>
        match op with
        | .init => ({ r with machine.registers.time := .pattern p } : Rig).done
        | .union =>
          ({ r with
            machine.registers.time := .pattern (joinPattern r.machine.registers.time p) } : Rig).done
        | .unnamed past => r.bad (.unknownSetOp (SetOp.unnamed past).code)
  | v => r.bad (.setOpExpected v)

end Lightboard.Rig
