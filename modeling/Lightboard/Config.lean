import Lightboard.Light.Basic
import Lightboard.Log
import Lightboard.Machine.Basic
import Lightboard.PathName
import Lightboard.Toml.Fields

/-!
# Configuration

A configuration describes the lights and what machines start with. It is read from a document; keys that
have no meaning are noted.
-/

namespace Lightboard

/-- A light as a configuration describes it. -/
structure LightSpec where
  name : Text := []
  group : Text := []
  location : Text := []
  zones : Int := 0
  deriving DecidableEq, Repr

/-- A configuration. -/
structure Config where
  unitMode : Text := []
  /-- Whether to pause; not given means yes. -/
  pause : Option Bool := none
  output : Text := []
  lights : List LightSpec := []
  deriving DecidableEq, Repr

/-- Why a text is no configuration. -/
inductive ConfigError where
  /-- The text is no document of the right shape. -/
  | malformed
  | unknownMode (name : Text)
  | unnamedLight (index : Nat)
  | duplicateLight (name : Text)
  | negativeZones (name : Text) (zones : Int)
  deriving DecidableEq, Repr

def ConfigError.message : ConfigError → Text
  | .malformed => "toml"
  | .unknownMode name => Text.concat ["Unknown unit mode ", name.quoted]
  | .unnamedLight i => Text.concat ["light ", Text.ofNat i, " has no name"]
  | .duplicateLight name => Text.concat ["Duplicate light ", name.quoted]
  | .negativeZones name zones =>
    Text.concat ["light ", name.quoted, ": negative zone count ", Text.ofInt zones]

namespace Config

/-- The fields of a light. -/
def lightFields : List (Toml.Field LightSpec) :=
  [⟨"name", .text fun l t => { l with name := t }⟩,
   ⟨"group", .text fun l t => { l with group := t }⟩,
   ⟨"location", .text fun l t => { l with location := t }⟩,
   ⟨"zones", .integer fun l n => { l with zones := n }⟩]

/-- The fields of the machine. -/
def machineFields : List (Toml.Field Config) :=
  [⟨"unit_mode", .text fun c t => { c with unitMode := t }⟩,
   ⟨"pause", .boolean fun c b => { c with pause := some b }⟩,
   ⟨"output", .text fun c t => { c with output := t }⟩]

/-- The fields of a configuration. -/
def fields : List (Toml.Field Config) :=
  [⟨"machine", .table machineFields⟩,
   ⟨"light", .inside Config.lights (fun c ls => { c with lights := ls }) (.records {} lightFields)⟩]

/-- A configuration that is not yet checked, with the paths that have no meaning. -/
def ofText? (t : Text) : Option (Config × List Toml.Path) := do
  let doc ← Toml.Document.read t
  doc.readOver fields {}

/-- Every light has a name that no earlier one has, and no negative number of zones. -/
def checkLights (seen : List Text) (index : Nat) : List LightSpec → Except ConfigError Unit
  | [] => .ok ()
  | l :: ls =>
    if l.name.isEmpty then .error (.unnamedLight index)
    else if seen.contains l.name then .error (.duplicateLight l.name)
    else if l.zones < 0 then .error (.negativeZones l.name l.zones)
    else checkLights (l.name :: seen) (index + 1) ls

/-- The unit mode is known, and the lights can be built. -/
def validate (c : Config) : Except ConfigError Unit :=
  if !c.unitMode.isEmpty && (UnitMode.ofName? c.unitMode).isNone then .error (.unknownMode c.unitMode)
  else checkLights [] 0 c.lights

/-- Reads a configuration, with the entries to be logged. -/
def read (t : Text) : Except ConfigError Config × List Entry :=
  match ofText? t with
  | none => (.error .malformed, [])
  | some (c, unknown) =>
    let log :=
      if unknown.isEmpty then []
      else [Entry.warn "Ignoring unknown config keys" [("keys", .paths unknown)]]
    match c.validate with
    | .ok () => (.ok c, log)
    | .error e => (.error e, log)

/-- The unit mode; not given means logical. -/
def mode (c : Config) : UnitMode := (UnitMode.ofName? c.unitMode).getD .logical

def pauses (c : Config) : Bool := c.pause.getD true

/-- Makes the lights that are described, one after the other. -/
def buildLights (c : Config) : Except Light.BuildError LightSet :=
  c.lights.foldlM (fun s l => do
    let light ← Light.make l.name l.zones
    return s.add light l.group l.location) {}

def options (c : Config) : Options := { noPause := !c.pauses, unitMode := c.mode }

/-- Where output goes. -/
inductive Output where
  | standard
  | error
  | discard
  /-- A file, to whose end output is added. -/
  | file (path : Text)
  deriving DecidableEq, Repr

/-- Where output goes, for a configuration from a file in the given directory. -/
def outputIn (c : Config) (dir : Text) : Output :=
  let name := c.output.lower
  if name.isEmpty ∨ name = ("stdout" : Text) ∨ name = ("-" : Text) then .standard
  else if name = ("stderr" : Text) then .error
  else if name = ("discard" : Text) then .discard
  else if PathName.isAbsolute c.output ∨ dir.isEmpty then .file c.output
  else .file (PathName.join dir c.output)

end Config

end Lightboard
