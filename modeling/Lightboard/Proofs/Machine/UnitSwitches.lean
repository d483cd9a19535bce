import Lightboard.Proofs.Machine.Effect
import Lightboard.Proofs.Machine.Updates
import Lightboard.Proofs.Units.Rational

/-!
# Switching the unit mode

A switch of the unit mode touches the color and the times only. `Dials` holds just these, over any kind
of number: over floats they move as the registers of the machine do, and over rational numbers the
conversions are exact, so that what a light is sent can be followed through any number of switches.

Colors do not drift. A color that was read from a light is sent back as it was, and a logical color is
rounded at the first switch only, by half a raw step at most.
-/

namespace Lightboard

open Lightboard.Units

/-- The modes whose color is a hue with saturation and brightness. -/
def UnitMode.IsHued (m : UnitMode) : Prop := m = .logical ∨ m = .raw

/-- The channels of a color that a light answered with. -/
def Color.reading {α : Type} (number : Nat → α) (c : Color) : Channels α :=
  ⟨number c.hue.toNat, number c.saturation.toNat, number c.brightness.toNat, number c.kelvin.toNat⟩

/-- What a switch of the unit mode touches. -/
structure Dials (α : Type) where
  mode : UnitMode
  color : Channels α
  duration : α
  /-- The time, where it is a number. -/
  time : Option α

namespace Dials

section

variable {α : Type} [Scalar α]

/-- The dials in another mode. -/
def switch? (d : Dials α) (goal : UnitMode) : Option (Dials α) :=
  (convert? d.mode goal d.color).map fun c =>
    { mode := goal
      color := c
      duration := convertTime d.mode goal d.duration
      time := d.time.map (convertTime d.mode goal) }

theorem switch?_eq {d : Dials α} {goal : UnitMode} {c : Channels α}
    (converted : convert? d.mode goal d.color = some c) :
    d.switch? goal = some
      { mode := goal
        color := c
        duration := convertTime d.mode goal d.duration
        time := d.time.map (convertTime d.mode goal) } := by
  rw [switch?, converted, Option.map_some]

theorem switch?_self (d : Dials α) : d.switch? d.mode = some d := by
  have kept : convert? d.mode d.mode d.color = some d.color := if_pos rfl
  have same (t : α) : convertTime d.mode d.mode t = t := if_pos rfl
  rw [switch?_eq kept, same, funext same, Option.map_id']

/-- The dials after switches to one mode after another. -/
def switchAll? (d : Dials α) (modes : List UnitMode) : Option (Dials α) := modes.foldlM switch? d

/-- The dials with a raw color taken over. -/
def take? (d : Dials α) (raw : Channels α) : Option (Dials α) :=
  (convert? .raw d.mode raw).map fun c => { d with color := c }

/-- The color that lights are sent. -/
def sent? (d : Dials α) : Option Color :=
  (convert? d.mode .raw d.color).map fun c =>
    ⟨toWord16 c.first, toWord16 c.second, toWord16 c.third, toWord16 c.kelvin⟩

/-- What every single switch keeps, a sequence of switches keeps. -/
theorem switchAll?_keeps {P : Dials α → Prop} {allowed : UnitMode → Prop}
    (keeps : ∀ d m, P d → allowed m → ∃ d', d.switch? m = some d' ∧ P d')
    {modes : List UnitMode} (all : ∀ m ∈ modes, allowed m) {d : Dials α} (h : P d) :
    ∃ d', d.switchAll? modes = some d' ∧ P d' := by
  induction modes generalizing d with
  | nil => exact ⟨d, rfl, h⟩
  | cons m modes ih =>
    rw [List.forall_mem_cons] at all
    obtain ⟨d₁, first, h₁⟩ := keeps d m h all.1
    obtain ⟨d', rest, h'⟩ := ih all.2 h₁
    refine ⟨d', ?_, h'⟩
    rw [switchAll?, List.foldlM_cons, first]
    exact rest

end

variable {raw : Channels ℚ} {d : Dials ℚ} {m : UnitMode}

/-- Two modes with a hue have a conversion from raw units. -/
theorem exists_convert? (hued : m.IsHued) (raw : Channels ℚ) : ∃ c, convert? .raw m raw = some c := by
  obtain rfl | rfl := hued
  · exact ⟨rawToLogical raw, rfl⟩
  · exact ⟨raw, rfl⟩

/-- What was converted from raw units is converted on as the raw color itself would be. -/
theorem convert?_convert? {start : UnitMode} {c : Channels ℚ} (whole : IsWhole raw)
    (converted : convert? .raw start raw = some c) (hued : start.IsHued) (hued' : m.IsHued) :
    convert? start m c = convert? .raw m raw := by
  obtain rfl | rfl := hued <;> obtain rfl := Option.some.inj converted
  · obtain rfl | rfl := hued'
    · rfl
    · exact congrArg some (logicalToRaw_rawToLogical whole)
  · rfl

/-- The dials show a raw color in a mode with a hue. -/
structure Shows (raw : Channels ℚ) (d : Dials ℚ) : Prop where
  hued : d.mode.IsHued
  color : convert? .raw d.mode raw = some d.color

theorem Shows.switch? (whole : IsWhole raw) (h : d.Shows raw) (hued : m.IsHued) :
    ∃ d', d.switch? m = some d' ∧ d'.Shows raw := by
  obtain ⟨c, converted⟩ := exists_convert? hued raw
  have onward := (convert?_convert? whole h.color h.hued hued).trans converted
  exact ⟨_, switch?_eq onward, hued, converted⟩

theorem take?_shows (hued : d.mode.IsHued) (raw : Channels ℚ) :
    ∃ d', d.take? raw = some d' ∧ d'.Shows raw := by
  obtain ⟨c, converted⟩ := exists_convert? hued raw
  exact ⟨{ d with color := c }, by rw [take?, converted, Option.map_some], hued, converted⟩

theorem isWhole_reading (c : Color) : IsWhole (c.reading Nat.cast) where
  first := ⟨c.hue.toNat, c.hue.toNat_lt, rfl⟩
  second := ⟨c.saturation.toNat, rfl⟩
  third := ⟨c.brightness.toNat, rfl⟩
  kelvin := ⟨c.kelvin.toNat, rfl⟩

theorem Shows.sent? {c : Color} (h : d.Shows (c.reading Nat.cast)) : d.sent? = some c := by
  have wired : convert? d.mode .raw d.color = some (c.reading Nat.cast) :=
    convert?_convert? (isWhole_reading c) h.color h.hued (.inr rfl)
  rw [Dials.sent?, wired]
  simp only [Option.map_some, Color.reading, toWord16_natCast]

/-- A color read from a light is sent back as it was, whatever the switches in between. -/
theorem take?_switchAll?_sent? (hued : d.mode.IsHued) (c : Color) {modes : List UnitMode}
    (all : ∀ m ∈ modes, m.IsHued) :
    ∃ d', ((d.take? (c.reading Nat.cast)).bind (·.switchAll? modes)) = some d' ∧
      d'.sent? = some c := by
  obtain ⟨d₁, taken, shown⟩ := take?_shows hued (c.reading Nat.cast)
  obtain ⟨d', switched, shown'⟩ :=
    switchAll?_keeps (fun _ _ h => h.switch? (isWhole_reading c)) all shown
  exact ⟨d', by rw [taken, Option.bind_some, switched], shown'.sent?⟩

/-- The dials still have a logical color, or show what it is in raw units. -/
def Follows (c : Channels ℚ) (d : Dials ℚ) : Prop :=
  (d.mode = .logical ∧ d.color = c) ∨ d.Shows (logicalToRaw c)

theorem Follows.switch? {c : Channels ℚ} (h : d.Follows c) (hued : m.IsHued) :
    ∃ d', d.switch? m = some d' ∧ d'.Follows c := by
  obtain ⟨mode, color⟩ | shown := h
  · obtain rfl | rfl := hued
    · exact ⟨_, switch?_eq (by rw [mode, color]; rfl), .inl ⟨rfl, rfl⟩⟩
    · -- The first switch to raw units is the only one that rounds.
      exact ⟨_, switch?_eq (by rw [mode, color]; rfl), .inr ⟨.inr rfl, rfl⟩⟩
  · obtain ⟨d', switched, shown'⟩ := shown.switch? (isWhole_logicalToRaw c) hued
    exact ⟨d', switched, .inr shown'⟩

theorem Follows.isNear {c : Channels ℚ} (h : d.Follows c) (logical : d.mode = .logical) :
    IsNear c d.color := by
  obtain ⟨-, color⟩ | shown := h
  · rw [color]
    exact isNear_refl c
  · have color := shown.color
    rw [logical] at color
    rw [← Option.some.inj color]
    exact isNear_rawToLogical c

/-- A logical color moves by no more than half a raw step, however often the units are switched. -/
theorem switchAll?_isNear (logical : d.mode = .logical) {modes : List UnitMode}
    (all : ∀ m ∈ modes, m.IsHued) :
    ∃ d', d.switchAll? modes = some d' ∧ (d'.mode = .logical → IsNear d.color d'.color) := by
  have start : d.Follows d.color := .inl ⟨logical, rfl⟩
  obtain ⟨d', switched, follows⟩ :=
    switchAll?_keeps (fun _ _ (h : Follows d.color _) => h.switch?) all start
  exact ⟨d', switched, follows.isNear⟩

/-- Two times in their modes stand for the same seconds, if the first one is whole milliseconds. -/
def SameSeconds (start goal : UnitMode) (t t' : ℚ) : Prop :=
  IsWholeMillis start t → seconds goal t' = seconds start t

theorem SameSeconds.refl (mode : UnitMode) (t : ℚ) : SameSeconds mode mode t t := fun _ => rfl

theorem SameSeconds.convertTime {start mid : UnitMode} {t t' : ℚ} (h : SameSeconds start mid t t')
    (goal : UnitMode) : SameSeconds start goal t (convertTime mid goal t') := by
  intro whole
  have same := h whole
  have whole' : IsWholeMillis mid t' := by
    rw [IsWholeMillis, same]
    exact whole
  rw [seconds_convertTime goal whole', same]

theorem rel_map {α β γ : Type} {R : α → β → Prop} {S : α → γ → Prop} {f : β → γ}
    (h : ∀ {a b}, R a b → S a (f b)) {a : Option α} {b : Option β} (related : Option.Rel R a b) :
    Option.Rel S a (b.map f) := by
  cases related with
  | some r => exact .some (h r)
  | none => exact .none

/-- The times of the dials stand for the same seconds; a time that is no number stays none. -/
structure SameTimes (d d' : Dials ℚ) : Prop where
  duration : SameSeconds d.mode d'.mode d.duration d'.duration
  time : Option.Rel (SameSeconds d.mode d'.mode) d.time d'.time

theorem SameTimes.refl (d : Dials ℚ) : d.SameTimes d where
  duration := .refl _ _
  time := by
    cases d.time with
    | none => exact .none
    | some t => exact .some (.refl _ _)

theorem exists_convert?_of_named (named : d.mode ∈ UnitMode.named) (named' : m ∈ UnitMode.named) :
    ∃ c, convert? d.mode m d.color = some c := by
  simp only [UnitMode.named, List.mem_cons, List.not_mem_nil, or_false] at named named'
  obtain mode | mode | mode := named <;> obtain rfl | rfl | rfl := named' <;> rw [mode]
  all_goals exact ⟨_, rfl⟩

/-- A switch may round the time again, but a whole number of milliseconds is rounded to itself. -/
theorem SameTimes.switch? {d₀ : Dials ℚ} (h : d₀.SameTimes d) (named : d.mode ∈ UnitMode.named)
    (named' : m ∈ UnitMode.named) :
    ∃ d', d.switch? m = some d' ∧ d'.mode = m ∧ d₀.SameTimes d' := by
  obtain ⟨c, converted⟩ := exists_convert?_of_named named named'
  refine ⟨_, switch?_eq converted, rfl, h.duration.convertTime m, ?_⟩
  exact rel_map (fun same => same.convertTime m) h.time

/-- Times of whole milliseconds keep their meaning under switches among all three modes. -/
theorem switchAll?_sameTimes (named : d.mode ∈ UnitMode.named) {modes : List UnitMode}
    (all : ∀ m ∈ modes, m ∈ UnitMode.named) :
    ∃ d', d.switchAll? modes = some d' ∧ d.SameTimes d' := by
  have keeps (d₁ : Dials ℚ) (m : UnitMode) (h : d₁.mode ∈ UnitMode.named ∧ d.SameTimes d₁)
      (named' : m ∈ UnitMode.named) : ∃ d', d₁.switch? m = some d' ∧
        d'.mode ∈ UnitMode.named ∧ d.SameTimes d' := by
    obtain ⟨d', switched, mode, same⟩ := h.2.switch? h.1 named'
    exact ⟨d', switched, mode ▸ named', same⟩
  obtain ⟨d', switched, -, same⟩ := switchAll?_keeps keeps all ⟨named, .refl d⟩
  exact ⟨d', switched, same⟩

end Dials

namespace Registers

/-- The number in the time register. -/
def timeNumber? : Value → Option Float
  | .number t => some t
  | _ => none

/-- The registers that a switch touches. -/
def dials (b : Registers) : Dials Float where
  mode := b.unitMode
  color := b.color
  duration := b.duration
  time := timeNumber? b.time

variable {b b' : Registers} {goal : UnitMode}

theorem timeNumber?_convertTime (start goal : UnitMode) (v : Value) :
    timeNumber? (convertTime start goal v) = (timeNumber? v).map (Units.convertTime start goal) := by
  cases v <;> rfl

/-- The registers are switched as their dials are. -/
theorem switchUnits_dials (b : Registers) (goal : UnitMode) :
    (b.switchUnits goal).toOption.map dials = b.dials.switch? goal := by
  simp only [switchUnits, convert]
  split
  · next same =>
    rw [← same]
    exact b.dials.switch?_self.symm
  · rw [Dials.switch?, dials]
    cases convert? b.unitMode goal b.color with
    | none => rfl
    | some c =>
      rw [Option.map_some, ← timeNumber?_convertTime]
      rfl

/-- A color is read as the dials take it over. -/
theorem readColor_dials (b : Registers) (c : Color) :
    (Rig.readColor b c).toOption.map dials = b.dials.take? (c.reading (Number.ofInt ·)) := by
  simp only [Rig.readColor, convert, Dials.take?, dials, Color.reading]
  generalize @convert? Float _ .raw b.unitMode _ = converted
  cases converted with
  | none => rfl
  | some c => rfl

/-- A time of day is no number, and is left as it is. -/
theorem pattern_of_switchUnits {q : TimePattern} (switched : b.switchUnits goal = .ok b')
    (held : b.time = .pattern q) : b'.time = .pattern q := by
  obtain rfl | ⟨c, rfl⟩ := switchUnits_eq_ok switched
  · exact held
  · simp only [held]
    rfl

end Registers

namespace Stage

theorem setColor_events (s : Stage) (name : Text) (c : Color) (ns : Int) :
    (s.setColor name c ns).1.events = .setColor name c ns :: s.events := by
  simp only [setColor]
  split <;> rfl

theorem setZoneColor_events (s : Stage) (l : Light) (first last : Int) (c : Color) (ns : Int) :
    (s.setZoneColor l first last c ns).1.events =
      .setZoneColor l.name first last c ns :: s.events := by
  simp only [setZoneColor]
  split
  · rfl
  · split <;> rfl

end Stage

namespace Rig

variable {r r' : Rig}

/-- `MOVEQ` of a unit mode. -/
def switchTo (m : UnitMode) : Instruction :=
  { op := .moveLiteral, first := some (.unitMode m), second := some (.register .unitMode) }

/-- Executes instructions one after another, up to the first that fails. -/
def follow (p : Program) : List Instruction → Rig → Outcome
  | [], r => r.done
  | i :: code, r =>
    match r.execute p i with
    | (r, .ok ()) => follow p code (r.advance i.op)
    | failed => failed

/-- The instructions succeed, and leave the dials so. -/
def LeadsTo (r : Rig) (p : Program) (code : List Instruction) (d : Dials Float) : Prop :=
  ∃ r', r.follow p code = (r', .ok ()) ∧ r'.machine.registers.dials = d

theorem execute_switchTo {m : UnitMode} {b : Registers}
    (switched : r.machine.registers.switchUnits m = .ok b) (p : Program) :
    r.execute p (switchTo m) = (r.setRegisters b, .ok ()) := by
  have executed : r.execute p (switchTo m) = r.switchUnits (some (.unitMode m)) := rfl
  simp only [executed, switchUnits, switched]
  rfl

theorem execute_switchTo_error {m : UnitMode} {f : Fault}
    (failed : r.machine.registers.switchUnits m = .error f) (p : Program) :
    r.execute p (switchTo m) = (r, .error (.fault f)) := by
  have executed : r.execute p (switchTo m) = r.switchUnits (some (.unitMode m)) := rfl
  simp only [executed, switchUnits, failed]
  rfl

theorem advance_dials (r : Rig) (op : OpCode) :
    (r.advance op).machine.registers.dials = r.machine.registers.dials := by
  unfold advance
  split <;> rfl

theorem advance_time (r : Rig) (op : OpCode) :
    (r.advance op).machine.registers.time = r.machine.registers.time := by
  unfold advance
  split <;> rfl

variable {p : Program} {i : Instruction} {code : List Instruction} {d : Dials Float}

theorem leadsTo_cons_iff (executed : r.execute p i = (r', .ok ())) :
    r.LeadsTo p (i :: code) d ↔ (r'.advance i.op).LeadsTo p code d := by
  simp only [LeadsTo, follow, executed]

theorem not_leadsTo_cons {e : RunError} (failed : r.execute p i = (r', .error e)) :
    ¬ r.LeadsTo p (i :: code) d := by
  simp only [LeadsTo, follow, failed]
  rintro ⟨_, done, -⟩
  cases congrArg Prod.snd done

/-- Switches turn the dials of the machine as they turn dials by themselves. -/
theorem leadsTo_switches_iff (r : Rig) (p : Program) (modes : List UnitMode) (d : Dials Float) :
    r.LeadsTo p (modes.map switchTo) d ↔ r.machine.registers.dials.switchAll? modes = some d := by
  induction modes generalizing r with
  | nil =>
    constructor
    · rintro ⟨r', done, rfl⟩
      have same : r = r' := congrArg Prod.fst done
      rw [same]
      rfl
    · intro done
      exact ⟨r, rfl, Option.some.inj done⟩
  | cons m modes ih =>
    rw [List.map_cons, Dials.switchAll?, List.foldlM_cons, ← r.machine.registers.switchUnits_dials m]
    cases switched : r.machine.registers.switchUnits m with
    | error f => exact iff_of_false (not_leadsTo_cons (execute_switchTo_error switched p)) nofun
    | ok b =>
      rw [leadsTo_cons_iff (execute_switchTo switched p), ih, advance_dials]
      rfl

/-- `GET_COLOR` addresses a light or a zone that answers with a color. -/
def IsAnswered (r : Rig) (c : Color) : Prop :=
  ∃ n l stage, r.targetName = .ok n ∧ r.stage.light? n = some l ∧
    ((r.addressing? = some .light ∧ r.stage.getColor l = (stage, .ok c)) ∨
      (r.addressing? = some .mzLight ∧ l.isMultizone ∧
        let first := (zoneRange r.machine.registers l).1
        ∃ cs, r.stage.getZones l first first = (stage, .ok (c :: cs))))

/-- The color that a light answers with is taken into the registers. -/
theorem getColor_of_isAnswered {c : Color} (h : r.IsAnswered c) :
    ∃ stage, r.getColor = ({ r with stage := stage } : Rig).takeColor c := by
  obtain ⟨n, l, stage, named, found, ⟨addressed, answered⟩ | ⟨addressed, multizone, cs, answered⟩⟩ := h
  · have whole : (some Operand.light == some .mzLight) = false := rfl
    refine ⟨stage, ?_⟩
    simp only [getColor, addressed, named, found, getColorOf, answered, whole]
    rfl
  · refine ⟨stage, ?_⟩
    simp only [getColor, addressed, named, found, getColorOf, answered, multizone]
    rfl

theorem leadsTo_getColor_iff {c : Color} (h : r.IsAnswered c) (p : Program) (modes : List UnitMode)
    (d : Dials Float) :
    r.LeadsTo p ({ op := .getColor } :: modes.map switchTo) d ↔
      (r.machine.registers.dials.take? (c.reading (Number.ofInt ·))).bind (·.switchAll? modes) =
        some d := by
  obtain ⟨stage, taken⟩ := getColor_of_isAnswered h
  have executed : r.execute p { op := .getColor } = r.getColor := rfl
  rw [taken, takeColor] at executed
  rw [← Registers.readColor_dials]
  cases read : readColor r.machine.registers c with
  | error f =>
    simp only [read] at executed
    exact iff_of_false (not_leadsTo_cons executed) nofun
  | ok b =>
    simp only [read] at executed
    rw [leadsTo_cons_iff executed, leadsTo_switches_iff, advance_dials]
    rfl

/-- A time of day stays what it is. -/
theorem follow_switches_pattern {q : TimePattern} (held : r.machine.registers.time = .pattern q)
    (p : Program) (modes : List UnitMode) :
    (r.follow p (modes.map switchTo)).1.machine.registers.time = .pattern q := by
  induction modes generalizing r with
  | nil => exact held
  | cons m modes ih =>
    cases switched : r.machine.registers.switchUnits m with
    | error f =>
      simp only [List.map_cons, follow, execute_switchTo_error switched]
      exact held
    | ok b =>
      simp only [List.map_cons, follow, execute_switchTo switched]
      apply ih
      rw [advance_time]
      exact Registers.pattern_of_switchUnits switched held

theorem wireColor_toOption (r : Rig) : r.wireColor.toOption = r.machine.registers.dials.sent? := by
  simp only [wireColor, Registers.convert, Dials.sent?, Registers.dials]
  generalize @convert? Float _ _ .raw r.machine.registers.color = converted
  cases converted with
  | none => rfl
  | some c => rfl

/-- What `COLOR` asks of an addressed light. Where zones are meant, a light without zones is left out. -/
def colorCommand? (b : Registers) (zoned : Bool) (c : Color) (ns : Int) (l : Light) : Option Event :=
  if zoned then
    if l.isMultizone then
      some (.setZoneColor l.name (zoneRange b l).1 (zoneRange b l).2 c ns)
    else none
  else some (.setColor l.name c ns)

theorem noteFailure_events (r : Rig) (message : String) (light : Text) (outcome : Except Text Unit) :
    (r.noteFailure message light outcome).stage.events = r.stage.events := by
  unfold noteFailure
  split <;> rfl

theorem lightsOf_events (r : Rig) (what : Text) (names : List Text) :
    (r.lightsOf what names).1.stage.events = r.stage.events := by
  induction names generalizing r with
  | nil => rfl
  | cons n names ih =>
    unfold lightsOf
    split
    · exact ih r
    · exact ih _

/-- Finding the addressed lights asks nothing of them. -/
theorem targets_events {what : Text} {ls : List Light} (targeted : r.targets what = .ok (r', ls)) :
    r'.stage.events = r.stage.events := by
  unfold targets at targeted
  repeat' split at targeted
  all_goals first | contradiction | skip
  all_goals
    have same := congrArg (fun q : Rig × List Light => q.1.stage.events) (Except.ok.inj targeted)
    rw [← same]
    first | rfl | exact lightsOf_events _ _ _

theorem colorLight_events (zoned : Bool) (c : Color) (ns : Int) (l : Light) :
    (r.colorLight zoned c ns l).stage.events =
      (colorCommand? r.machine.registers zoned c ns l).toList ++ r.stage.events := by
  unfold colorLight colorCommand?
  split
  · split
    · exact (noteFailure_events _ _ _ _).trans (r.stage.setZoneColor_events _ _ _ _ _)
    · rfl
  · exact (noteFailure_events _ _ _ _).trans (r.stage.setColor_events _ _ _)

/-- Every addressed light is asked for its color, one after another. -/
theorem foldl_colorLight_events (r : Rig) (zoned : Bool) (c : Color) (ns : Int) (ls : List Light) :
    (ls.foldl (·.colorLight zoned c ns ·) r).stage.events =
      (ls.filterMap (colorCommand? r.machine.registers zoned c ns)).reverse ++ r.stage.events := by
  induction ls generalizing r with
  | nil => rfl
  | cons l ls ih =>
    rw [List.foldl_cons, ih, colorLight_machine, colorLight_events, List.filterMap_cons]
    cases colorCommand? r.machine.registers zoned c ns l with
    | none => rfl
    | some e =>
      simp only [Option.toList_some, List.reverse_cons, List.append_assoc]

/-- `COLOR` asks the addressed lights for the color of the dials. -/
theorem color_events {c : Color} {ls : List Light} (sent : r.machine.registers.dials.sent? = some c)
    (targeted : r.targets "COLOR" = .ok (r', ls)) :
    r.color.1.stage.events =
      (ls.filterMap (colorCommand? r.machine.registers (r.addressing? == some .mzLight) c
        r.transition)).reverse ++ r.stage.events := by
  have wired : r.wireColor = .ok c := by
    rw [← wireColor_toOption] at sent
    cases wired : r.wireColor with
    | error f =>
      rw [wired] at sent
      cases sent
    | ok c' =>
      rw [wired] at sent
      rw [Option.some.inj sent]
  simp only [color, wired, targeted]
  rw [done, foldl_colorLight_events, targets_events targeted, targets_machine targeted]

end Rig

/-- Switches of the unit mode keep what is meant by the registers. The machine does to its registers what
the conversions say: this is the first part, with `GET_COLOR` before the switches and `COLOR` after
them. With exact arithmetic, a color that was read from a light is sent back as it was, a logical color
moves by half a raw step at most, and times of whole milliseconds stay the same number of seconds. -/
theorem switching_keeps_meaning :
    (∀ (r : Rig) (p : Program) (modes : List UnitMode),
      (∀ d, r.LeadsTo p (modes.map Rig.switchTo) d ↔
        r.machine.registers.dials.switchAll? modes = some d) ∧
      (∀ c, r.IsAnswered c → ∀ d,
        r.LeadsTo p ({ op := .getColor } :: modes.map Rig.switchTo) d ↔
          (r.machine.registers.dials.take? (c.reading (Number.ofInt ·))).bind (·.switchAll? modes) =
            some d) ∧
      (∀ c, r.machine.registers.dials.sent? = some c →
        ∀ r' ls, r.targets "COLOR" = .ok (r', ls) →
          (r.execute p { op := .color }).1.stage.events =
            (ls.filterMap (Rig.colorCommand? r.machine.registers (r.addressing? == some .mzLight) c
              r.transition)).reverse ++ r.stage.events) ∧
      (∀ q, r.machine.registers.time = .pattern q →
        (r.follow p (modes.map Rig.switchTo)).1.machine.registers.time = .pattern q)) ∧
    (∀ (d : Dials ℚ) (modes : List UnitMode),
      (d.mode.IsHued → (∀ m ∈ modes, m.IsHued) → ∀ c : Color,
        ∃ d', (d.take? (c.reading Nat.cast)).bind (·.switchAll? modes) = some d' ∧
          d'.sent? = some c) ∧
      (d.mode = .logical → (∀ m ∈ modes, m.IsHued) →
        ∃ d', d.switchAll? modes = some d' ∧ (d'.mode = .logical → IsNear d.color d'.color)) ∧
      (d.mode ∈ UnitMode.named → (∀ m ∈ modes, m ∈ UnitMode.named) →
        ∃ d', d.switchAll? modes = some d' ∧ d.SameTimes d')) := by
  constructor
  · intro r p modes
    refine ⟨r.leadsTo_switches_iff p modes, ?_, ?_, ?_⟩
    · intro c answered d
      exact Rig.leadsTo_getColor_iff answered p modes d
    · intro c sent r' ls targeted
      exact Rig.color_events sent targeted
    · intro q held
      exact Rig.follow_switches_pattern held p modes
  · intro d modes
    refine ⟨?_, ?_, ?_⟩
    · intro hued all c
      exact Dials.take?_switchAll?_sent? hued c all
    · intro logical all
      exact Dials.switchAll?_isNear logical all
    · intro named all
      exact Dials.switchAll?_sameTimes named all

/-- A machine in raw units that addresses a light of this color, and is to wait for a time of day. -/
def Rig.facingLight (c : Color) (q : TimePattern) : Rig where
  machine := { registers := { operand := .operand .light, time := .pattern q, unitMode := .raw } }
  stage := { lights := LightSet.add {} { name := [], color := c } [] [] }

/-- A color that is read, switched to and fro and sent; a logical color; a second and a half. -/
theorem facingLight_keeps_meaning :
    let c : Color := ⟨7, 65535, 1, 3500⟩
    let p : Program := { name := [], code := [], routines := {} }
    let r := Rig.facingLight c .empty
    let d : Dials ℚ := ⟨.logical, ⟨30, 50, 75, 2700⟩, 3 / 2, some (3 / 2)⟩
    let modes := [UnitMode.raw, .logical, .raw, .logical]
    (∀ d', r.LeadsTo p ({ op := .getColor } :: modes.map Rig.switchTo) d' ↔
      (r.machine.registers.dials.take? (c.reading (Number.ofInt ·))).bind (·.switchAll? modes) =
        some d') ∧
    (∃ r', r.follow p ({ op := .getColor } :: modes.map Rig.switchTo) = (r', .ok ()) ∧
      (r'.execute p { op := .color }).1.stage.events =
        [.setColor [] c r'.transition, .getColor []]) ∧
    (r.follow p (modes.map Rig.switchTo)).1.machine.registers.time = .pattern .empty ∧
    (∃ d', (d.take? (c.reading Nat.cast)).bind (·.switchAll? modes) = some d' ∧ d'.sent? = some c) ∧
    (∃ d', d.switchAll? modes = some d' ∧ (d'.mode = .logical → IsNear d.color d'.color)) ∧
    (∃ d', d.switchAll? [.rgb, .raw] = some d' ∧ seconds d'.mode d'.duration = 3 / 2) := by
  intro c p r d modes
  have hued : ∀ m ∈ modes, m.IsHued := by
    intro m listed
    simp only [modes, List.mem_cons, List.not_mem_nil, or_false] at listed
    obtain rfl | rfl | rfl | rfl := listed
    all_goals first | exact .inl rfl | exact .inr rfl
  obtain ⟨-, read, -, held⟩ := switching_keeps_meaning.1 r p modes
  obtain ⟨back, near, -⟩ := switching_keeps_meaning.2 d modes
  obtain ⟨-, -, times⟩ := switching_keeps_meaning.2 d [.rgb, .raw]
  obtain ⟨d', switched, same⟩ := times (by decide) (by decide)
  have whole : IsWholeMillis d.mode d.duration := by
    refine ⟨1500, ?_⟩
    rw [seconds_eq, if_neg nofun]
    norm_num [d]
  refine ⟨read c ⟨[], _, _, rfl, rfl, .inl ⟨rfl, rfl⟩⟩, ?_, held _ rfl, back (.inl rfl) hued c,
    near rfl hued, d', switched, ?_⟩
  · let r' := (r.follow p ({ op := .getColor } :: modes.map Rig.switchTo)).1
    have again : r'.machine.registers.dials.sent? = some c := by decide +kernel
    obtain ⟨-, -, sent, -⟩ := switching_keeps_meaning.1 r' p []
    exact ⟨r', rfl, sent c again r' _ rfl⟩
  · rw [same.duration whole, seconds_eq]
    exact if_neg nofun

end Lightboard
