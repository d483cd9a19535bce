import Lightboard.Machine.Error
import Lightboard.Units

/-!
# The register bank

Each register accepts some kinds of values only. The three color channels are hue, saturation and
brightness, or red, green and blue, as the unit mode says.
-/

namespace Lightboard

/-- The registers of the machine. -/
structure Registers where
  hue : Float := 0
  saturation : Float := 0
  brightness : Float := 0
  kelvin : Float := 0
  power : Bool := false
  duration : Float := 0
  /-- How long, or until when, to wait. -/
  time : Value := .number 0
  /-- The light, group or location that commands address. -/
  name : Slot := some .nothing
  /-- How commands address. -/
  operand : Value := .nothing
  firstZone : Value := .nothing
  lastZone : Value := .nothing
  pc : Int := 0
  result : Slot := some .nothing
  unitMode : UnitMode := .logical

namespace Registers

/-- Reads a register. -/
def get (b : Registers) : Register → Except Fault Slot
  | .hue => .ok (some (.number b.hue))
  | .red => .ok (some (.number b.hue))
  | .saturation => .ok (some (.number b.saturation))
  | .green => .ok (some (.number b.saturation))
  | .brightness => .ok (some (.number b.brightness))
  | .blue => .ok (some (.number b.brightness))
  | .kelvin => .ok (some (.number b.kelvin))
  | .power => .ok (some (.bool b.power))
  | .duration => .ok (some (.number b.duration))
  | .time => .ok (some b.time)
  | .name => .ok b.name
  | .operand => .ok (some b.operand)
  | .firstZone => .ok (some b.firstZone)
  | .lastZone => .ok (some b.lastZone)
  | .pc => .ok (some (.number (Number.ofInt b.pc)))
  | .result => .ok b.result
  | .unitMode => .ok (some (.unitMode b.unitMode))
  | .unnamed past => .error (.unknownRegister (Register.unnamed past).code)

/-- The error of a value that a register cannot hold. -/
def refuse {α : Type} (r : Register) (v : Slot) : Except RunError α :=
  .error (.badParam (.registerValue r v))

/-- Writes a register that holds a number. -/
def setNumber (r : Register) (v : Slot) (write : Float → Registers) : Except RunError Registers :=
  match Slot.number? v with
  | some x => .ok (write x)
  | none => refuse r v

/-- Writes a register as it is, without conversion of units. -/
def set (b : Registers) (r : Register) (v : Slot) : Except RunError Registers :=
  match r with
  | .hue => setNumber r v fun x => { b with hue := x }
  | .red => setNumber r v fun x => { b with hue := x }
  | .saturation => setNumber r v fun x => { b with saturation := x }
  | .green => setNumber r v fun x => { b with saturation := x }
  | .brightness => setNumber r v fun x => { b with brightness := x }
  | .blue => setNumber r v fun x => { b with brightness := x }
  | .kelvin => setNumber r v fun x => { b with kelvin := x }
  | .duration => setNumber r v fun x => { b with duration := x }
  | .pc => setNumber r v fun x => { b with pc := Number.truncate x }
  | .power =>
    match v with
    | some w => .ok { b with power := w.isTrue }
    | none => .error (.fault .missingValue)
  | .time =>
    match v with
    | some (.number x) => .ok { b with time := .number x }
    | some (.pattern p) => .ok { b with time := .pattern p }
    | some .nothing => .ok { b with time := .nothing }
    | _ => refuse r v
  | .name => .ok { b with name := v }
  | .operand =>
    match v with
    | some (.operand o) => .ok { b with operand := .operand o }
    | some .nothing => .ok { b with operand := .nothing }
    | _ => refuse r v
  | .firstZone =>
    match v with
    | some (.number x) => .ok { b with firstZone := .number x }
    | some .nothing => .ok { b with firstZone := .nothing }
    | _ => refuse r v
  | .lastZone =>
    match v with
    | some (.number x) => .ok { b with lastZone := .number x }
    | some .nothing => .ok { b with lastZone := .nothing }
    | _ => refuse r v
  | .result => .ok { b with result := v }
  | .unitMode =>
    match v with
    | some (.unitMode m) => .ok { b with unitMode := m }
    | _ => refuse r v
  | .unnamed past => .error (.fault (.unknownRegister (Register.unnamed past).code))

/-- The color registers. -/
def color (b : Registers) : Channels Float := ⟨b.hue, b.saturation, b.brightness, b.kelvin⟩

def setColor (b : Registers) (c : Channels Float) : Registers :=
  { b with hue := c.first, saturation := c.second, brightness := c.third, kelvin := c.kelvin }

/-- A color in another unit mode, or the fault that there is no conversion. -/
def convert (start goal : UnitMode) (c : Channels Float) : Except Fault (Channels Float) :=
  match Units.convert? start goal c with
  | some c => .ok c
  | none => .error (.noConversion start goal)

/-- The time register in another unit mode; only a number changes. -/
def convertTime (start goal : UnitMode) : Value → Value
  | .number t => .number (Units.convertTime start goal t)
  | v => v

/-- The same color and times in another unit mode. -/
def switchUnits (b : Registers) (goal : UnitMode) : Except Fault Registers :=
  let start := b.unitMode
  if start = goal then .ok b
  else
    match convert start goal b.color with
    | .error f => .error f
    | .ok c =>
      .ok { b.setColor c with
        duration := Units.convertTime start goal b.duration
        time := convertTime start goal b.time
        unitMode := goal }

/-- The registers in the order they are shown in. -/
def shownOrder : List Register :=
  [.hue, .saturation, .brightness, .kelvin, .power, .duration, .time, .name, .operand, .firstZone,
   .lastZone, .pc, .result, .unitMode]

/-- The name a register is shown under: the color channels have other names in color mode. -/
def shownName (b : Registers) (r : Register) : Register :=
  if b.unitMode = .rgb then
    match r with
    | .hue => .red
    | .saturation => .green
    | .brightness => .blue
    | r => r
  else r

/-- One line for each register. -/
def shown (b : Registers) : Text :=
  shownOrder.flatMap fun r =>
    let v := match b.get r with
      | .ok v => v
      | .error _ => none
    Text.concat
      ["  ", Text.padRight (ascii ' ') 10 (b.shownName r).label, " = ", Slot.shown v, "\n"]

end Registers

end Lightboard
