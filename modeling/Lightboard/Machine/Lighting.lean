import Lightboard.Machine.Basic

/-!
# Commands to lights

The operand and name registers say which lights a command addresses. A light, group or location that
is not there is noted and left out; a light that refuses is noted too, and the others still get the
command.
-/

namespace Lightboard.Rig

/-- The color registers as lights take them. -/
def wireColor (r : Rig) : Except Fault Color :=
  let b := r.machine.registers
  match Registers.convert b.unitMode .raw b.color with
  | .error f => .error f
  | .ok c =>
    .ok
      { hue := Units.toWord16 c.first
        saturation := Units.toWord16 c.second
        brightness := Units.toWord16 c.third
        kelvin := Units.toWord16 c.kelvin }

/-- The color registers after reading a color from a light. -/
def readColor (b : Registers) (c : Color) : Except Fault Registers :=
  let raw : Channels Float :=
    ⟨Number.ofInt c.hue.toNat, Number.ofInt c.saturation.toNat, Number.ofInt c.brightness.toNat,
     Number.ofInt c.kelvin.toNat⟩
  match Registers.convert .raw b.unitMode raw with
  | .error f => .error f
  | .ok c => .ok (b.setColor c)

/-- Seconds in nanoseconds, without the fraction. -/
def nanoseconds (seconds : Float) : Int := Number.truncate (seconds * 1000000000)

/-- How long a command takes, in nanoseconds. -/
def transition (r : Rig) : Int :=
  let s := Units.seconds r.machine.registers.unitMode r.machine.registers.duration
  if s ≤ 0 then 0 else nanoseconds s

/-- The addressing that is set. -/
def addressing? (r : Rig) : Option Operand :=
  match r.machine.registers.operand with
  | .operand o => some o
  | _ => none

/-- The name that commands address; nothing counts as the empty name. -/
def targetName (r : Rig) : Except Fault Text :=
  match r.machine.registers.name with
  | some (.str t) => .ok t
  | some .nothing => .ok []
  | some v => .ok v.text
  | none => .error .missingValue

/-- The addressed lights of a list of names; a name without a light is noted. -/
def lightsOf (r : Rig) (what : Text) : List Text → Rig × List Light
  | [] => (r, [])
  | n :: ns =>
    match r.stage.light? n with
    | some l =>
      let (r, ls) := r.lightsOf what ns
      (r, l :: ls)
    | none =>
      let r := r.warn "Unknown light; skipping" [("instruction", .text what), ("light", .text n)]
      r.lightsOf what ns

/-- The lights an instruction addresses. -/
def targets (r : Rig) (what : Text) : Except Fault (Rig × List Light) :=
  match r.addressing? with
  | none => .ok (r.warn "No operand set; skipping" [("instruction", .text what)], [])
  | some op =>
    match r.targetName with
    | .error f => .error f
    | .ok name =>
      match op with
      | .all => .ok (r.lightsOf what r.stage.lightNames)
      | .light => .ok (r.lightsOf what [name])
      | .mzLight => .ok (r.lightsOf what [name])
      | .group =>
        match r.stage.lights.groups.get? name with
        | some names => .ok (r.lightsOf what names)
        | none =>
          .ok (r.warn "Unknown group; skipping" [("instruction", .text what), ("group", .text name)], [])
      | .location =>
        match r.stage.lights.locations.get? name with
        | some names => .ok (r.lightsOf what names)
        | none =>
          .ok (r.warn "Unknown location; skipping"
            [("instruction", .text what), ("location", .text name)], [])
      | .unnamed past => .error (.unknownOperand (Operand.unnamed past).code)

/-- The zones a command addresses: all of them without a first zone, one without a last zone. -/
def zoneRange (b : Registers) (l : Light) : Int × Int :=
  match b.firstZone.number? with
  | none => (0, (l.zoneCount : Int) - 1)
  | some first =>
    let last := b.lastZone.number?.getD first
    (Number.truncate first, Number.truncate last)

/-- Notes the failure of a command to a light. -/
def noteFailure (r : Rig) (message : String) (light : Text) (outcome : Except Text Unit) : Rig :=
  match outcome with
  | .ok () => r
  | .error why => r.warn message [("error", .text why), ("light", .text light)]

/-- Gives one light a color, or its addressed zones. -/
def colorLight (r : Rig) (zoned : Bool) (c : Color) (ns : Int) (l : Light) : Rig :=
  if zoned then
    if l.isMultizone then
      let (first, last) := zoneRange r.machine.registers l
      let (stage, outcome) := r.stage.setZoneColor l first last c ns
      { r with stage := stage }.noteFailure "COLOR failed" l.name outcome
    else r.warn "COLOR: light is not multi-zone; skipping" [("light", .text l.name)]
  else
    let (stage, outcome) := r.stage.setColor l.name c ns
    { r with stage := stage }.noteFailure "COLOR failed" l.name outcome

/-- `COLOR` -/
def color (r : Rig) : Outcome :=
  match r.wireColor with
  | .error f => r.fault f
  | .ok c =>
    match r.targets "COLOR" with
    | .error f => r.fault f
    | .ok (r', lights) =>
      (lights.foldl (·.colorLight (r.addressing? == some .mzLight) c r.transition ·) r').done

/-- Gives one light a power level. -/
def powerLight (r : Rig) (level : UInt16) (ns : Int) (l : Light) : Rig :=
  let (stage, outcome) := r.stage.setPower l.name level ns
  { r with stage := stage }.noteFailure "POWER failed" l.name outcome

/-- `POWER` -/
def power (r : Rig) : Outcome :=
  match r.targets "POWER" with
  | .error f => r.fault f
  | .ok (r', lights) =>
    (lights.foldl (·.powerLight (powerLevel r.machine.registers.power) r.transition ·) r').done

/-- Reads the color of a light into the registers. -/
def takeColor (r : Rig) (c : Color) : Outcome :=
  match readColor r.machine.registers c with
  | .error f => r.fault f
  | .ok b => (r.setRegisters b).done

/-- The failure of reading a color, noted. -/
def noteUnread (r : Rig) (light : Text) (why : Option Text) (zone : Option Int) : Rig :=
  let error : List (Text × Detail) :=
    match why with
    | some w => [("error", .text w)]
    | none => []
  let place : List (Text × Detail) :=
    match zone with
    | some z => [("zone", .int z)]
    | none => []
  let subject : List (Text × Detail) := [("light", .text light)]
  r.warn "GET_COLOR failed" (error ++ subject ++ place)

/-- `GET_COLOR` for a light that is there. -/
def getColorOf (r : Rig) (zoned : Bool) (l : Light) (name : Text) : Outcome :=
  if zoned then
    if l.isMultizone then
      let first := (zoneRange r.machine.registers l).1
      let (stage, outcome) := r.stage.getZones l first first
      let r := { r with stage := stage }
      match outcome with
      | .error why => (r.noteUnread name (some why) (some first)).done
      | .ok [] => (r.noteUnread name none (some first)).done
      | .ok (c :: _) => r.takeColor c
    else (r.warn "GET_COLOR: light is not multi-zone; skipping" [("light", .text name)]).done
  else
    let (stage, outcome) := r.stage.getColor l
    let r := { r with stage := stage }
    match outcome with
    | .error why => (r.noteUnread name (some why) none).done
    | .ok c => r.takeColor c

/-- `GET_COLOR` -/
def getColor (r : Rig) : Outcome :=
  let one := r.addressing? == some .light || r.addressing? == some .mzLight
  if !one then
    (r.warn "GET_COLOR needs a single light; skipping"
      [("operand", .text r.machine.registers.operand.text)]).done
  else
    match r.targetName with
    | .error f => r.fault f
    | .ok name =>
      match r.stage.light? name with
      | none => (r.warn "GET_COLOR: unknown light; skipping" [("light", .text name)]).done
      | some l => r.getColorOf (r.addressing? == some .mzLight) l name

/-- The names of a kind, in ascending order. -/
def discoveryNames (r : Rig) (v : Slot) : Except RunError (List Text) :=
  match v with
  | some (.operand o) =>
    match o with
    | .all => .ok r.stage.lightNames
    | .light => .ok r.stage.lightNames
    | .mzLight =>
      .ok (r.stage.lightNames.filter fun n => (r.stage.light? n).any Light.isMultizone)
    | .group => .ok r.stage.lights.groupNames
    | .location => .ok r.stage.lights.locationNames
    | .unnamed past => .error (.badParam (.unknownOperand (Operand.unnamed past).code))
  | _ => .error (.badParam (.discoveryOperand v))

/-- A name as a value; no name is nothing. -/
def nameValue (n : Option Text) : Slot := some (n.elim .nothing .str)

/-- `DISC`: the first name. -/
def discover (r : Rig) (i : Instruction) : Outcome :=
  match r.discoveryNames i.first with
  | .error e => r.fail e
  | .ok names => (r.setResult (nameValue names.head?)).done

/-- The name after a current one in a list in ascending order. A name that is listed twice comes after
itself. -/
def nameAfter (current : Text) (names : List Text) : Option Text :=
  match names.dropWhile (Text.before · current) with
  | [] => none
  | n :: rest => if n = current then rest.head? else some n

/-- `DNEXT`: the name after the current one. -/
def discoverNext (r : Rig) (i : Instruction) : Outcome :=
  match r.discoveryNames i.first with
  | .error e => r.fail e
  | .ok names =>
    match r.resolve i.second with
    | .error e => r.fail e
    | .ok (some (.str current)) =>
      (r.setResult (nameValue (nameAfter current names))).done
    | .ok _ => (r.setResult (some .nothing)).done

/-- The light whose zones are to be found; one that is not there is noted. -/
def zoneLight (r : Rig) (v : Slot) : Except RunError (Rig × Option Light) :=
  match r.resolve v with
  | .error e => .error e
  | .ok (some (.str name)) =>
    match r.stage.light? name with
    | some l => .ok (r, some l)
    | none => .ok (r.warn "Zone discovery: unknown light" [("light", .text name)], none)
  | .ok w => .error (.badParam (.lightName w))

/-- A zone as a value; no zone is nothing. -/
def zoneValue (n : Option Int) : Slot := some (n.elim .nothing fun n => .number (Number.ofInt n))

/-- `DISCM`: the first zone of a multi-zone light. -/
def discoverZones (r : Rig) (i : Instruction) : Outcome :=
  match r.zoneLight i.first with
  | .error e => r.fail e
  | .ok (r', light) =>
    (r'.setResult (zoneValue (if light.any Light.isMultizone then some 0 else none))).done

/-- The zone after a current one. -/
def zoneAfter (light : Option Light) (current : Slot) : Option Int :=
  match light, Slot.number? current with
  | some l, some x =>
    let next := Number.truncate x + 1
    if l.isMultizone && next < l.zoneCount then some next else none
  | _, _ => none

/-- `DNEXTM`: the zone after the current one. -/
def discoverNextZone (r : Rig) (i : Instruction) : Outcome :=
  match r.zoneLight i.first with
  | .error e => r.fail e
  | .ok (r', light) =>
    match r'.resolve i.second with
    | .error e => r'.fail e
    | .ok current => (r'.setResult (zoneValue (zoneAfter light current))).done

end Lightboard.Rig
