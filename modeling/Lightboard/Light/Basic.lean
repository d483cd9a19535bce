import Lightboard.Table
import Lightboard.Text.Quoted

/-!
# Lights

A light has a color and a power level. A multi-zone light also has a color for each of its zones; a
color given to the light goes to all of them. Zones are counted from zero, and a range of zones has
both ends included.
-/

namespace Lightboard

/-- A color as lights take it: sixteen-bit hue, saturation and brightness, and color temperature. -/
structure Color where
  hue : UInt16 := 0
  saturation : UInt16 := 0
  brightness : UInt16 := 0
  kelvin : UInt16 := 0
  deriving DecidableEq, Repr

namespace Color

def channels (c : Color) : List UInt16 := [c.hue, c.saturation, c.brightness, c.kelvin]

def text (c : Color) : Text :=
  Text.concat ["[", Text.join [ascii ' '] (c.channels.map fun n => Text.ofNat n.toNat), "]"]

end Color

/-- The two power levels. -/
def powerLevel (on : Bool) : UInt16 := if on then 65535 else 0

/-- Why a range of zones cannot be used. -/
inductive ZoneError where
  | notMultizone (light : Text)
  | outOfRange (first last : Int) (light : Text) (count : Nat)
  deriving DecidableEq, Repr

def ZoneError.message : ZoneError → Text
  | .notMultizone light => Text.concat ["Light ", light.quoted, " is not multi-zone"]
  | .outOfRange first last light count =>
    Text.concat
      ["Zones ", Text.ofInt first, "-", Text.ofInt last, " out of range for light ", light.quoted,
       " with ", Text.ofNat count, " zones"]

/-- A light. -/
structure Light where
  name : Text
  color : Color := {}
  power : UInt16 := 0
  zones : List Color := []
  deriving DecidableEq, Repr

namespace Light

/-- The most zones a light can have, eight bytes each, in the memory there can be. -/
def mostZones : Int := 35184372088832

/-- Why there cannot be a light. -/
inductive BuildError where
  /-- It would have more zones than there is room for. -/
  | tooManyZones
  deriving DecidableEq, Repr

def BuildError.message : BuildError → Text
  | .tooManyZones => "runtime error: makeslice: len out of range"

/-- A new light, as it looks where there is room for its zones. A positive number of zones makes it
multi-zone. -/
def create (name : Text) (zones : Int) : Light :=
  { name := name, zones := List.replicate zones.toNat {} }

/-- Makes a new light, if there is room for its zones. -/
def make (name : Text) (zones : Int) : Except BuildError Light :=
  if mostZones < zones then .error .tooManyZones else .ok (create name zones)

def isMultizone (l : Light) : Bool := !l.zones.isEmpty

def zoneCount (l : Light) : Nat := l.zones.length

/-- Gives the light and all its zones a color. -/
def setColor (l : Light) (c : Color) : Light :=
  { l with color := c, zones := l.zones.map fun _ => c }

def setPower (l : Light) (level : UInt16) : Light := { l with power := level }

/-- Accepts the ranges that lie within the light. -/
def checkZones (l : Light) (first last : Int) : Except ZoneError Unit :=
  if !l.isMultizone then .error (.notMultizone l.name)
  else if first < 0 ∨ last < first ∨ (l.zoneCount : Int) ≤ last then
    .error (.outOfRange first last l.name l.zoneCount)
  else .ok ()

/-- Gives the zones of a range a color. -/
def setZones (l : Light) (first last : Int) (c : Color) : Except ZoneError Light :=
  match l.checkZones first last with
  | .error e => .error e
  | .ok () =>
    .ok { l with zones := l.zones.mapIdx fun i z => if first ≤ i ∧ (i : Int) ≤ last then c else z }

/-- The colors of the zones of a range. -/
def getZones (l : Light) (first last : Int) : Except ZoneError (List Color) :=
  match l.checkZones first last with
  | .error e => .error e
  | .ok () => .ok ((l.zones.drop first.toNat).take (last - first + 1).toNat)

end Light

/-- Lights by name, with the names of the members of groups and locations. -/
structure LightSet where
  lights : Table Text Light := {}
  groups : Table Text (List Text) := {}
  locations : Table Text (List Text) := {}

namespace LightSet

/-- Files a light under a group or location; an empty name files it nowhere. -/
def enlist (t : Table Text (List Text)) (key name : Text) : Table Text (List Text) :=
  let members := (t.get? key).getD []
  if key.isEmpty ∨ members.contains name then t else t.insert key (members ++ [name])

/-- Adds a light, in place of one of the same name. -/
def add (s : LightSet) (l : Light) (group location : Text) : LightSet where
  lights := s.lights.insert l.name l
  groups := enlist s.groups group l.name
  locations := enlist s.locations location l.name

def get? (s : LightSet) (name : Text) : Option Light := s.lights.get? name

/-- Changes the light of a name, if there is one. -/
def modify (s : LightSet) (name : Text) (f : Light → Light) : LightSet :=
  match s.get? name with
  | some l => { s with lights := s.lights.insert name (f l) }
  | none => s

/-- The names of the lights in ascending order. -/
def names (s : LightSet) : List Text := Text.sorted s.lights.keys

def groupNames (s : LightSet) : List Text := Text.sorted s.groups.keys

def locationNames (s : LightSet) : List Text := Text.sorted s.locations.keys

/-- The lights in ascending order of their names. -/
def sorted (s : LightSet) : List Light := s.names.filterMap s.get?

end LightSet

end Lightboard
