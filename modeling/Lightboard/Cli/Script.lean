import Lightboard.Disk
import Lightboard.Log
import Lightboard.Machine.Stage

/-!
# What a command does to the world

A script is a tree of requests: print this, read that file, wait for a line. Each request is followed
by the script that goes on with the answer. Commands are written as scripts, so that what they do is a
value; they are played against files and input given beforehand, or carried out.
-/

namespace Lightboard.Cli

/-- Requests to the world, each with what follows. -/
inductive Script where
  /-- The end, with the exit code. -/
  | exit (code : Nat)
  | print (t : Text) (next : Unit → Script)
  /-- Prints for the user, beside the output. -/
  | complain (t : Text) (next : Unit → Script)
  | log (e : Entry) (next : Unit → Script)
  /-- Asks for the contents of a file. -/
  | read (path : Text) (next : Option Text → Script)
  /-- Writes a file; the answer tells whether that was possible. -/
  | write (path t : Text) (next : Bool → Script)
  /-- Adds to a file; the answer tells whether that was possible. -/
  | append (path t : Text) (next : Bool → Script)
  /-- Asks for a line of input; there is no answer after the last. -/
  | line (next : Option Text → Script)
  | sleep (ns : Int) (next : Unit → Script)
  | sleepUntil (p : TimePattern) (next : Unit → Script)

namespace Script

/-- Stops with an error and an exit code. -/
def dieWith (code : Nat) (message : Text) : Script :=
  .complain (message ++ [ascii '\n']) fun () => .exit code

/-- Stops with an error. -/
def die (message : Text) : Script := dieWith 1 message

/-- Stops without a chance to do anything else. -/
def breakDown (message : Text) : Script := dieWith 2 message

/-- The world a script is played against. -/
structure World where
  disk : Disk := {}
  input : Text := []
  /-- What was printed, the last first. -/
  printed : List Text := []
  /-- What was printed beside the output, the last first. -/
  complained : List Text := []
  /-- What was logged, the last first. -/
  log : List Entry := []

/-- The output. -/
def World.output (w : World) : Text := Text.concat w.printed.reverse

/-- What the user was told beside the output. -/
def World.complaints (w : World) : Text := Text.concat w.complained.reverse

/-- The next line of input. -/
def World.takeLine (w : World) : Option Text × World :=
  if w.input.isEmpty then (none, w)
  else
    let l := Keyboard.line w.input
    (some l, { w with input := w.input.drop l.length })

/-- What a path gives that is read, and the world after that. The input is there as a file too, and is
used up by reading it. -/
def World.take (w : World) (path : Text) : Option Text × World :=
  if path = ("/dev/stdin" : Text) then (some w.input, { w with input := [] })
  else (w.disk.read? path, w)

/-- The world after a text went to a path, which was possible or not. The output and what stands beside
it are there as files too; the files themselves change as `change` says. -/
def World.give (w : World) (path t : Text) (change : Disk → Option Disk) : Bool × World :=
  if path = ("/dev/stdout" : Text) then (true, { w with printed := t :: w.printed })
  else if path = ("/dev/stderr" : Text) then (true, { w with complained := t :: w.complained })
  else
    match change w.disk with
    | some d => (true, { w with disk := d })
    | none => (false, w)

/-- Plays a script: the exit code, and the world it leaves. Waits take no time. -/
def play (w : World) : Script → Nat × World
  | .exit code => (code, w)
  | .print t next => (next ()).play { w with printed := t :: w.printed }
  | .complain t next => (next ()).play { w with complained := t :: w.complained }
  | .log e next => (next ()).play { w with log := e :: w.log }
  | .read path next => (next (w.take path).1).play (w.take path).2
  | .write path t next =>
    let (possible, w) := w.give path t (·.write? path t)
    (next possible).play w
  | .append path t next =>
    let (possible, w) := w.give path t (·.append? path t)
    (next possible).play w
  | .line next => (next w.takeLine.1).play w.takeLine.2
  | .sleep _ next => (next ()).play w
  | .sleepUntil _ next => (next ()).play w

end Script

end Lightboard.Cli
