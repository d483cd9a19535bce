import Lightboard.Cli.Commands
import Std.Time.DateTime.Timestamp

/-!
# The program

Scripts are carried out: each request becomes one action on the terminal, the files or the clock. The
first argument `trace` selects the command line that steps through a program.
-/

namespace Lightboard.Cli

/-- The bytes of a text in one block. -/
def block (t : Text) : ByteArray := ⟨t.toArray⟩

/-- Whether an action was possible. -/
def succeeds (act : IO Unit) : IO Bool := do
  try
    act
    return true
  catch _ => return false

/-- The contents of a file that can be read. -/
def fileContents (path : Text) : IO (Option Text) := do
  try
    let bytes ← IO.FS.readBinFile path.display
    return some bytes.toList
  catch _ => return none

/-- The next line of input. -/
def nextLine : IO (Option Text) := do
  try
    let line ← (← IO.getStdin).getLine
    return if line.isEmpty then none else some (Text.ofString line)
  catch _ => return none

/-- The present, seen from a place without an offset. -/
def present : IO Instant := do
  let now ← Std.Time.Timestamp.now
  let epoch := Instant.ofCivil ⟨1970, 1, 1⟩ 0 0
  return { epoch with nanoseconds := epoch.nanoseconds + now.toNanosecondsSinceUnixEpoch.val }

/-- Waits for a number of nanoseconds. -/
def sleepFor (ns : Int) : IO Unit :=
  if ns ≤ 0 then pure () else IO.sleep (UInt32.ofNat (ns.toNat / 1000000))

/-- One field of an entry in a log line. -/
def detailText : Detail → Text
  | .text t => t.quoted
  | .int n => Text.ofInt n
  | .span ns => Text.ofInt ns ++ "ns"
  | .paths ps => Text.join [ascii ','] (ps.map (Text.join [ascii '.']))

/-- The log line of an entry. -/
def entryLine (e : Entry) : Text :=
  let fields := e.details.map fun (name, d) => Text.concat [" ", name, "=", detailText d]
  Text.concat [e.level.label, " ", e.message, Text.concat fields, "\n"]

/-- Carries a script out, and gives the exit code. -/
def Script.perform : Script → IO Nat
  | .exit code => return code
  | .print t next => do
    let out ← IO.getStdout
    out.write (block t)
    out.flush
    (next ()).perform
  | .complain t next => do
    (← IO.getStderr).write (block t)
    (next ()).perform
  | .log e next => do
    (← IO.getStderr).write (block (entryLine e))
    (next ()).perform
  | .read path next => do
    (next (← fileContents path)).perform
  | .write path t next => do
    (next (← succeeds (IO.FS.writeBinFile path.display (block t)))).perform
  | .append path t next => do
    let act := do
      let handle ← IO.FS.Handle.mk path.display .append
      handle.write (block t)
    (next (← succeeds act)).perform
  | .line next => do
    (next (← nextLine)).perform
  | .sleep ns next => do
    sleepFor ns
    (next ()).perform
  | .sleepUntil p next => do
    let now ← present
    match p.next? now with
    | some t => sleepFor (t.nanoseconds - now.nanoseconds)
    | none => pure ()
    (next ()).perform

/-- More steps than a run takes. -/
def allSteps : Nat := 0x4000000000000000

/-- The command line that arguments belong to. -/
def ofArguments : List String → Script
  | "trace" :: words => trace allSteps (words.map Text.ofString)
  | words => commandLine allSteps (words.map Text.ofString)

end Lightboard.Cli

/-- Runs a command line. -/
def main (args : List String) : IO UInt32 := do
  return UInt32.ofNat (← (Lightboard.Cli.ofArguments args).perform)
