import Lightboard.Light.Basic
import Lightboard.Log
import Lightboard.Machine.Error

/-!
# What a machine works with

The stage holds everything outside the machine: the lights, the clock, the keyboard, the context that
may end a run early, and the output. It keeps a record of the commands it was given. Clock, keyboard,
output and single lights can be set up to fail, so that every way a run can go is a value of this type.
-/

namespace Lightboard

/-- A line-buffered keyboard: the text that is left, and what follows it. -/
structure Keyboard where
  text : Text := []
  /-- The failure after the text; without one the text just ends. -/
  failure : Option Text := none

namespace Keyboard

/-- The first line with its line end. -/
def line (t : Text) : Text :=
  let body := t.takeWhile (· != ascii '\n')
  if body.length < t.length then body ++ [ascii '\n'] else body

/-- Takes a line and gives its first character; the rest of the line is lost. A last line without a
line end counts. -/
def readKey (k : Keyboard) : Except RunError Char × Keyboard :=
  match k.text.runes with
  | [] =>
    match k.failure with
    | some why => (.error (.external why), k)
    | none => (.error .endOfInput, k)
  | r :: _ => (.ok r.shown, { k with text := k.text.drop (line k.text).length })

end Keyboard

/-- The commands a light takes. -/
inductive Command where
  | setColor
  | setPower
  | getColor
  | setZoneColor
  | getColorZones
  deriving DecidableEq, Repr

/-- What was asked of the stage, in order. Times are in nanoseconds. -/
inductive Event where
  | start
  | stop
  | pauseFor (ns : Int)
  | waitUntil (p : TimePattern)
  /-- A key, unless reading it failed. -/
  | readKey (key : Option Char)
  | setColor (light : Text) (c : Color) (ns : Int)
  | setPower (light : Text) (level : UInt16) (ns : Int)
  | getColor (light : Text)
  | setZoneColor (light : Text) (first last : Int) (c : Color) (ns : Int)
  | getColorZones (light : Text) (first last : Int)

/-- A light that refuses a command, with its words. Without words it does nothing and says so not. -/
structure Refusal where
  light : Text
  command : Command
  words : Text

/-- What a wait ends with other than its time. -/
inductive WaitFailure where
  /-- The context is cancelled meanwhile. -/
  | cancelled
  | external (why : Text)

/-- The surroundings of a machine. -/
structure Stage where
  lights : LightSet := {}
  /-- Names that are listed among the lights without a light behind them. -/
  ghosts : List Text := []
  refusals : List Refusal := []
  keyboard : Keyboard := {}
  cancelled : Bool := false
  /-- How often a run may still ask whether to go on; no number means as often as it likes. -/
  polls : Option Nat := none
  /-- The waits so far. -/
  waits : Nat := 0
  /-- Waits that fail, by their number. -/
  waitFailures : List (Nat × WaitFailure) := []
  /-- What was written, the last first. -/
  written : List Text := []
  /-- The failure of the output, if it fails. -/
  outputFailure : Option Text := none
  /-- What was asked, the last first. -/
  events : List Event := []
  /-- What was logged, the last first. -/
  log : List Entry := []

namespace Stage

def record (s : Stage) (e : Event) : Stage := { s with events := e :: s.events }

def note (s : Stage) (e : Entry) : Stage := { s with log := e :: s.log }

def noteAll (s : Stage) (es : List Entry) : Stage := { s with log := es.reverse ++ s.log }

/-- Asks whether to go on. A cancelled context wins over one that has run out. -/
def poll (s : Stage) : Stage × Except RunError Unit :=
  if s.cancelled then (s, .error .cancelled)
  else
    match s.polls with
    | none => (s, .ok ())
    | some 0 => (s, .error .deadline)
    | some (n + 1) => ({ s with polls := some n }, .ok ())

/-- All that was written. -/
def output (s : Stage) : Text := Text.concat s.written.reverse

/-- Writes to the output. -/
def write (s : Stage) (t : Text) : Stage × Except RunError Unit :=
  match s.outputFailure with
  | some why => (s, .error (.external why))
  | none => ({ s with written := t :: s.written }, .ok ())

/-- The end of a wait that begins now. -/
def endWait (s : Stage) : Stage × Except RunError Unit :=
  let s := { s with waits := s.waits + 1 }
  match s.waitFailures.find? fun f => f.1 == s.waits with
  | some (_, .cancelled) => ({ s with cancelled := true }, .error .cancelled)
  | some (_, .external why) => (s, .error (.external why))
  | none => (s, .ok ())

def pauseFor (s : Stage) (ns : Int) : Stage × Except RunError Unit := (s.record (.pauseFor ns)).endWait

def waitUntil (s : Stage) (p : TimePattern) : Stage × Except RunError Unit :=
  (s.record (.waitUntil p)).endWait

def readKey (s : Stage) : Stage × Except RunError Char :=
  let (key, k) := s.keyboard.readKey
  ({ s with keyboard := k }.record (.readKey key.toOption), key)

def light? (s : Stage) (name : Text) : Option Light := s.lights.get? name

/-- The names that are listed as lights, in ascending order. -/
def lightNames (s : Stage) : List Text := Text.sorted (s.lights.lights.keys ++ s.ghosts)

/-- The words a light refuses a command with, if it does. -/
def refusal? (s : Stage) (light : Text) (c : Command) : Option Text :=
  (s.refusals.find? fun r => r.light == light && r.command == c).map Refusal.words

/-- The outcome of a refused command. -/
def refused {α : Type} (words : Text) (silent : α) : Except Text α :=
  if words.isEmpty then .ok silent else .error words

def setColor (s : Stage) (name : Text) (c : Color) (ns : Int) : Stage × Except Text Unit :=
  let s := s.record (.setColor name c ns)
  match s.refusal? name .setColor with
  | some words => (s, refused words ())
  | none =>
    let s := { s with lights := s.lights.modify name (·.setColor c) }
    (s.note (.debug "set color" [("light", .text name), ("color", .text c.text), ("duration", .span ns)]),
      .ok ())

def setPower (s : Stage) (name : Text) (level : UInt16) (ns : Int) : Stage × Except Text Unit :=
  let s := s.record (.setPower name level ns)
  match s.refusal? name .setPower with
  | some words => (s, refused words ())
  | none =>
    let s := { s with lights := s.lights.modify name (·.setPower level) }
    (s.note (.debug "set power"
      [("light", .text name), ("power", .int level.toNat), ("duration", .span ns)]), .ok ())

def getColor (s : Stage) (l : Light) : Stage × Except Text Color :=
  let s := s.record (.getColor l.name)
  match s.refusal? l.name .getColor with
  | some words => (s, refused words {})
  | none => (s, .ok l.color)

def setZoneColor (s : Stage) (l : Light) (first last : Int) (c : Color) (ns : Int) :
    Stage × Except Text Unit :=
  let s := s.record (.setZoneColor l.name first last c ns)
  match s.refusal? l.name .setZoneColor with
  | some words => (s, refused words ())
  | none =>
    match l.setZones first last c with
    | .error e => (s, .error e.message)
    | .ok l' =>
      let s := { s with lights := s.lights.modify l.name fun _ => l' }
      (s.note (.debug "set zone color"
        [("light", .text l.name), ("start", .int first), ("end", .int last),
         ("color", .text c.text), ("duration", .span ns)]), .ok ())

def getZones (s : Stage) (l : Light) (first last : Int) : Stage × Except Text (List Color) :=
  let s := s.record (.getColorZones l.name first last)
  match s.refusal? l.name .getColorZones with
  | some words => (s, refused words [])
  | none =>
    match l.getZones first last with
    | .error e => (s, .error e.message)
    | .ok cs => (s, .ok cs)

end Stage

end Lightboard
