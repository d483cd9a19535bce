import Lightboard.Assembly.Printer
import Lightboard.Cli.Flags
import Lightboard.Cli.Session
import Lightboard.Store.Loader

/-!
# Commands

The first command line runs programs, converts them between their two forms and prints them. The
second steps through one program and shows the state of the machine before each step.
-/

namespace Lightboard.Cli

/-- The threshold a level stands for, by name in any letter case or by number. -/
def threshold? (t : Text) : Option Int :=
  let named : List (Text × Int) :=
    [("trace", -1), ("debug", 0), ("info", 1), ("warn", 2), ("error", 3), ("fatal", 4), ("panic", 5),
     ("disabled", 7), ("", 6)]
  match named.find? fun (name, _) => t.foldsTo name with
  | some (_, n) => some n
  | none => (Number.readDecimalInteger? t).filter fun n => -128 ≤ n && n ≤ 127

/-- What `run` is asked for. -/
structure RunOptions where
  config : Text := []
  repeats : Int := 1
  noPause : Bool := false
  debug : Bool := false
  dump : Bool := false

/-- The loaders of the two forms, which share a store. -/
structure Loaders where
  memory : Store.Memory := {}
  assembly : Store.CachingLoader LoadError := .create .assembly 0
  stored : Store.CachingLoader LoadError := .create .stored 0

namespace Loaders

/-- Loads a program by the loader of its form. -/
def load (l : Loaders) (path bytes : Text) :
    Except (Store.SourceError LoadError) Program × Loaders × List Entry :=
  let form := Form.ofPath path
  let loader := if form = .stored then l.stored else l.assembly
  let c := loader.load l.memory (PathName.stem path) { bytes := bytes } 0
  let l := { l with memory := c.memory }
  let l := if form = .stored then { l with stored := c.loader } else { l with assembly := c.loader }
  (c.result.map (·.program), l, c.log)

end Loaders

/-- The state of a series of runs. -/
structure Series where
  rig : Rig
  loaders : Loaders := {}

/-- Prints the listing of a program that can be loaded. -/
def showListing (path : Text) (next : Unit → Script) : Script :=
  .read path fun
    | none => next ()
    | some bytes =>
      match (loadFile path bytes).result with
      | .ok p => .complain (p.listing?.getD []) next
      | .error e => if e.isBreakdown then Script.breakDown e.message else next ()

/-- Prints the state of the machine, if that is wanted. -/
def dumpState (wanted : Bool) (r : Rig) (next : Unit → Script) : Script :=
  if wanted then .complain r.machine.shown next else next ()

/-- Runs one program of a series. -/
def runProgram (fuel : Nat) (t : Terminal) (dump : Bool) (s : Series) (path : Text)
    (next : Series → Script) : Script :=
  .read path fun
    | none => dumpState dump s.rig fun () => Script.die (Text.concat ["open ", path])
    | some bytes =>
      let (result, loaders, log) := s.loaders.load path bytes
      logAll t.threshold log fun () =>
        match result with
        | .error e =>
          if e.isBreakdown then Script.breakDown e.message
          else
            dumpState dump s.rig fun () =>
              Script.die (Text.concat ["loading ", PathName.stem path, ": ", e.message])
        | .ok p =>
          stepAll fuel t (s.rig.load p) 0 fun r result =>
            dumpState dump r fun () =>
              match result with
              | .failed e => Script.die e.message
              | .finished => next { s with rig := r, loaders := loaders }
              | .unfinished => Script.die "unfinished"

/-- Runs programs one after the other; in the first round their listings are shown if that is wanted. -/
def runPrograms (fuel : Nat) (t : Terminal) (o : RunOptions) (first : Bool) (s : Series) :
    List Text → (Series → Script) → Script
  | [], next => next s
  | path :: paths, next =>
    let go := fun () =>
      runProgram fuel t o.dump s path fun s => runPrograms fuel t o first s paths next
    if o.debug && first then showListing path go else go ()

/-- Runs programs so many times. -/
def runRounds (fuel : Nat) (t : Terminal) (o : RunOptions) (paths : List Text) :
    Nat → Bool → Series → (Unit → Script) → Script
  | 0, _, _, next => next ()
  | n + 1, first, s, next =>
    runPrograms fuel t o first s paths fun s => runRounds fuel t o paths n false s next

/-- Runs programs on the machine a configuration describes. -/
def runConfigured (fuel : Nat) (threshold : Int) (o : RunOptions) (c : Config) (dir : Text)
    (paths : List Text) : Script :=
  let sink := c.outputIn dir
  let go := fun () =>
    match c.buildLights with
    | .error e => Script.breakDown e.message
    | .ok lights =>
      let options := { c.options with noPause := c.options.noPause || o.noPause }
      let rig : Rig := { machine := .create options, stage := { lights := lights } }
      let rounds := if o.repeats ≤ 0 then fuel else o.repeats.toNat
      runRounds fuel ⟨sink, threshold⟩ o paths rounds true { rig := rig } fun () =>
        .complain "✓ All programs finished\n" fun () => .exit 0
  match sink with
  | .file path =>
    .append path [] fun possible =>
      if possible then go () else Script.die (Text.concat ["opening output: ", path])
  | _ => go ()

/-- `run` -/
def run (fuel : Nat) (threshold : Int) (o : RunOptions) (paths : List Text) : Script :=
  if o.config.isEmpty then runConfigured fuel threshold o {} [] paths
  else
    .read o.config fun
      | none => Script.die (Text.concat ["open ", o.config])
      | some t =>
        let (result, log) := Config.read t
        logAll threshold log fun () =>
          match result with
          | .error e => Script.die (Text.concat [o.config, ": ", e.message])
          | .ok c => runConfigured fuel threshold o c (PathName.directory o.config) paths

/-- Loads a file and goes on with the program. -/
def withProgram (threshold : Int) (path : Text) (next : Program → Script) : Script :=
  .read path fun
    | none => Script.die (Text.concat ["open ", path])
    | some bytes =>
      let l := loadFile path bytes
      logAll threshold l.log fun () =>
        match l.result with
        | .error e => if e.isBreakdown then Script.breakDown e.message else Script.die e.message
        | .ok p => next p

/-- The file that the stored form goes to if none is named. -/
def storedPath (source : Text) : Text :=
  source.take (source.length - (PathName.extension source).length) ++ ".lbc"

/-- `assemble` -/
def assemble (threshold : Int) (source output : Text) : Script :=
  withProgram threshold source fun p =>
    let path := if output.isEmpty then storedPath source else output
    .write path p.encode fun possible =>
      if possible then
        .complain
          (Text.concat
            ["Wrote ", path, ": ", Text.ofNat p.code.length, " instructions, ",
             Text.ofNat p.routines.size, " routines, fingerprint ",
             (p.fingerprint?.map Hash64.digits).getD [], "\n"])
          fun () => .exit 0
      else Script.die (Text.concat ["open ", path])

/-- `disasm` -/
def disassemble (threshold : Int) (path : Text) (listing : Bool) : Script :=
  withProgram threshold path fun p =>
    let t := if listing then p.listing? else Assembly.print? p
    .print (t.getD []) fun () => .exit 0

/-- The flag that every command takes. -/
def commonFlags : List Flag := [{ name := "log-level" }]

/-- The flag that asks for help in place of what a command does. -/
def helpFlag : Flag := { name := "help", short := some (ascii 'h'), kind := .switch }

def runFlags : List Flag :=
  commonFlags ++
    [{ name := "config" }, { name := "repeat", kind := .integer }, { name := "no-pause", kind := .switch },
     { name := "debug", kind := .switch }, { name := "dump", kind := .switch }]

def assembleFlags : List Flag := commonFlags ++ [{ name := "output", short := some (ascii 'o') }]

def disassembleFlags : List Flag := commonFlags ++ [{ name := "listing", kind := .switch }]

/-- The value of a switch. -/
def switch (a : Arguments) (name : Text) (otherwise : Bool) : Bool :=
  ((a.value? name).bind readSwitch?).getD otherwise

/-- Sets the log level and goes on; a level that is none is reported. -/
def withLevel (a : Arguments) (next : Int → Script) : Script :=
  let given := (a.value? "log-level").getD "info"
  match threshold? given with
  | some n => next n
  | none =>
    .complain (Text.concat ["Invalid log level '", given, "', using 'info'\n"]) fun () => next 1

/-- Reads the flags of a command and goes on with its arguments, unless help is asked for. -/
def withArguments (flags : List Flag) (words : List Text) (next : Arguments → Script) : Script :=
  match readMixed (words.length + 1) (helpFlag :: flags) {} words with
  | .error e => Script.die e.message
  | .ok a => if switch a "help" false then .exit 0 else next a

/-- The commands by their names. -/
def command (fuel : Nat) (name : Text) (words : List Text) : Script :=
  if name = ("version" : Text) then
    withArguments commonFlags words fun a =>
      withLevel a fun _ => .print "lumen version 1.0.0\n" fun () => .exit 0
  else if name = ("run" : Text) then
    withArguments runFlags words fun a =>
      if a.others.isEmpty then Script.die "requires at least 1 arg(s), only received 0"
      else
        withLevel a fun n =>
          let o : RunOptions :=
            { config := (a.value? "config").getD []
              repeats := ((a.value? "repeat").bind Number.readInteger?).getD 1
              noPause := switch a "no-pause" false
              debug := switch a "debug" false
              dump := switch a "dump" false }
          run fuel n o a.others
  else if name = ("assemble" : Text) then
    withArguments assembleFlags words fun a =>
      match a.others with
      | [source] => withLevel a fun n => assemble n source ((a.value? "output").getD [])
      | _ => Script.die "accepts 1 arg(s)"
  else if name = ("disasm" : Text) then
    withArguments disassembleFlags words fun a =>
      match a.others with
      | [path] => withLevel a fun n => disassemble n path (switch a "listing" false)
      | _ => Script.die "accepts 1 arg(s)"
  else if name = ("help" : Text) then withArguments commonFlags words fun _ => .exit 0
  else Script.die (Text.concat ["unknown command ", name.quoted])

/-- The command line that runs, converts and prints programs. A line without a command asks for help. -/
def commandLine (fuel : Nat) (words : List Text) : Script :=
  match splitCommand commonFlags [] words with
  | some (name, words) => command fuel name words
  | none => withArguments commonFlags words fun _ => .exit 0

/-- The state of the machine, in full or the registers only, and the next instruction. -/
def tracePoint (full : Bool) (r : Rig) : Text :=
  let m := r.machine
  let code := (m.program.map Program.code).getD []
  let pc := m.registers.pc
  let next : Text :=
    match (if pc < 0 then none else code[pc.toNat]?) with
    | none => "End of instructions\n"
    | some i =>
      Text.concat
        ["NextOp: ", Text.padLeft (ascii '0') 3 (Text.ofNat pc.toNat), " ", i.inMessage, "\n"]
  Text.concat ["*******\n", if full then m.shown else m.registers.shown, next]

/-- Steps to the end, showing each step. -/
def traceFrom (fuel : Nat) (full : Bool) (r : Rig) : Script :=
  match fuel with
  | 0 => Script.die "unfinished"
  | fuel + 1 =>
    .print (tracePoint full r) fun () =>
      stepOnce {} r fun r result =>
        match result with
        | .error e => Script.die (Text.concat ["Got err: ", e.message])
        | .stop => .print (Text.concat ["Finished\n", r.machine.shown]) fun () => .exit 0
        | .goOn => .print "Continuing\n" fun () => traceFrom fuel full r

def traceFlags : List Flag :=
  [{ name := "file" }, { name := "no-pause", kind := .switch }, { name := "full", kind := .switch }]

/-- The command line that steps through a program. -/
def trace (fuel : Nat) (words : List Text) : Script :=
  match readLeading (words.length + 1) traceFlags {} words with
  | .error .help => .exit 0
  | .error e => Script.dieWith 2 e.message
  | .ok a =>
    let path := (a.value? "file").getD []
    if path.isEmpty then Script.die "--file is required"
    else
      withProgram 1 path fun p =>
        let options : Options := { noPause := switch a "no-pause" true }
        traceFrom fuel (switch a "full" false) { machine := (Machine.create options).load p }

end Lightboard.Cli
