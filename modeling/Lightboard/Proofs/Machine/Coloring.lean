import Lightboard.Proofs.Light.Members
import Lightboard.Proofs.Machine.Faults
import Lightboard.Proofs.Machine.LightChanges

/-!
# What a color command does

The operand and the name say which lights a `COLOR` is for, and with a multi-zone light the zone
registers say which zones. `Rig.color_exact` shows that these lights or zones take the color and that
nothing else changes, whatever lights were added before and whatever commands they took since.
-/

namespace Lightboard

/-- The zones that the registers select on a light: all of them if there is no first zone, the first
zone alone if there is no last one. -/
inductive Registers.Selects (b : Registers) (l : Light) : Int → Int → Prop
  | whole (first : b.firstZone.number? = none) : Selects b l 0 (l.zoneCount - 1)
  | single {x : Float} (first : b.firstZone.number? = some x) (last : b.lastZone.number? = none) :
      Selects b l (Number.truncate x) (Number.truncate x)
  | range {x y : Float} (first : b.firstZone.number? = some x) (last : b.lastZone.number? = some y) :
      Selects b l (Number.truncate x) (Number.truncate y)

theorem Registers.Selects.zoneRange_eq {b : Registers} {l : Light} {first last : Int}
    (selects : b.Selects l first last) : Rig.zoneRange b l = (first, last) := by
  cases selects with
  | whole none => simp only [Rig.zoneRange, none]
  | single some none => simp only [Rig.zoneRange, some, none, Option.getD_none]
  | range some some' => simp only [Rig.zoneRange, some, some', Option.getD_some]

/-- What is noted of a name without a light. -/
def unknownLight : Text := "Unknown light; skipping"

namespace Stage

/-- Whatever was noted between two stages, none of it has this message. -/
def NotesNo (message : Text) (s s' : Stage) : Prop :=
  ∃ new, s'.log = new ++ s.log ∧ ∀ e ∈ new, e.message ≠ message

variable {message : Text} {s s' s'' : Stage}

theorem NotesNo.of_eq (same : s'.log = s.log) : s.NotesNo message s' :=
  ⟨[], same, fun _ listed => absurd listed List.not_mem_nil⟩

theorem NotesNo.trans (h : s.NotesNo message s') (h' : s'.NotesNo message s'') :
    s.NotesNo message s'' := by
  obtain ⟨new, log, others⟩ := h
  obtain ⟨new', log', others'⟩ := h'
  refine ⟨new' ++ new, by rw [log', log, List.append_assoc], ?_⟩
  exact fun e listed => (List.mem_append.mp listed).elim (others' e) (others e)

theorem notesNo_note {e : Entry} (other : e.message ≠ message) (s : Stage) :
    s.NotesNo message (s.note e) :=
  ⟨[e], rfl, fun _ listed => List.mem_singleton.mp listed ▸ other⟩

/-- A light that refuses nothing takes a color. -/
theorem setColor_of_obeys (obeys : s.refusals = []) (name : Text) (c : Color) (ns : Int) :
    (s.setColor name c ns).2 = .ok () ∧
      (s.setColor name c ns).1.lights = s.lights.modify name (·.setColor c) ∧
      (s.setColor name c ns).1.refusals = [] ∧
      s.NotesNo unknownLight (s.setColor name c ns).1 := by
  have accepted : (s.record (.setColor name c ns)).refusal? name .setColor = none := by
    simp [refusal?, record, obeys]
  have other : ("set color" : Text) ≠ unknownLight := by decide
  simp only [setColor, accepted]
  exact ⟨trivial, rfl, obeys, .trans (.of_eq rfl) (notesNo_note other _)⟩

/-- A light that is put in its own place changes nothing. -/
theorem ite_light? {l : Light} {m : Text} (held : s.light? m = some l) (n : Text) :
    (if n = m then some l else s.light? n) = s.light? n := by
  split
  · next same => rw [same, held]
  · rfl

/-- A light that refuses nothing takes a color for the zones that it has. -/
theorem setZoneColor_of_obeys (obeys : s.refusals = []) {l : Light} (held : s.light? l.name = some l)
    (first last : Int) (c : Color) (ns : Int) (n : Text) :
    (s.setZoneColor l first last c ns).1.light? n =
      if n = l.name then some ((l.setZones first last c).toOption.getD l) else s.light? n := by
  have accepted :
      (s.record (.setZoneColor l.name first last c ns)).refusal? l.name .setZoneColor = none := by
    simp [refusal?, record, obeys]
  simp only [setZoneColor, accepted]
  cases l.setZones first last c with
  | error e => exact (ite_light? held n).symm
  | ok l' =>
      change (s.lights.modify l.name fun _ => l').get? n = if n = l.name then some l' else s.light? n
      rw [LightSet.get?_modify]
      split
      · next same =>
        have there : s.lights.get? l.name = some l := held
        rw [same, there, Option.map_some]
      · rfl

end Stage

namespace Rig

variable {fs : List Filing} {r : Rig} {o : Operand} {t : Text}

theorem notesNo_warn {message : Text} {words : String} (other : (words : Text) ≠ message) (r : Rig)
    (details : List (Text × Detail)) : r.stage.NotesNo message (r.warn words details).stage := by
  unfold warn note
  apply Stage.notesNo_note
  split <;> exact other

/-- Looking names up gives the lights that are there, and leaves all lights as they are. -/
theorem lightsOf_eq (r : Rig) (what : Text) (names : List Text) :
    (r.lightsOf what names).2 = names.filterMap r.stage.light? ∧
      (r.lightsOf what names).1.stage.lights = r.stage.lights ∧
      (r.lightsOf what names).1.stage.refusals = r.stage.refusals := by
  induction names generalizing r with
  | nil => exact ⟨rfl, rfl, rfl⟩
  | cons n names ih =>
      unfold lightsOf
      split
      · next l found =>
        obtain ⟨listed, kept⟩ := ih r
        exact ⟨by rw [List.filterMap_cons_some found, ← listed], kept⟩
      · next missing =>
        rw [List.filterMap_cons_none missing]
        exact ih _

/-- Nothing is noted if there is a light of every name. -/
theorem lightsOf_of_known {names : List Text} (known : ∀ n ∈ names, (r.stage.light? n).isSome)
    (what : Text) : (r.lightsOf what names).1 = r := by
  induction names with
  | nil => rfl
  | cons n names ih =>
      obtain ⟨l, found⟩ := Option.isSome_iff_exists.mp (known n List.mem_cons_self)
      simp only [lightsOf, found]
      exact ih fun m listed => known m (List.mem_cons_of_mem n listed)

/-- The names that an addressing stands for. -/
def addressed (r : Rig) (t : Text) : Operand → List Text
  | .all => r.stage.lightNames
  | .light => [t]
  | .mzLight => [t]
  | .group => LightSet.members r.stage.lights.groups t
  | .location => LightSet.members r.stage.lights.locations t
  | .unnamed _ => []

theorem mem_addressed (sim : (LightSet.ofFilings fs).SameBuild r.stage.lights)
    (ghosts : r.stage.ghosts = []) (o : Operand) (n : Text) :
    n ∈ r.addressed t o ↔ IsAddressed fs t o n := by
  have members := LightSet.mem_members_ofFilings fs t n
  cases o with
  | all =>
      have names : r.stage.lightNames = (LightSet.ofFilings fs).names :=
        (Stage.lightNames_eq ghosts).trans (sim.listed_eq .all)
      rw [addressed, names, LightSet.mem_names_iff]
      rfl
  | light => exact List.mem_singleton
  | mzLight => exact List.mem_singleton
  | group => rw [addressed, sim.groups, members.1]
  | location => rw [addressed, sim.locations, members.2]
  | unnamed past => exact iff_of_false List.not_mem_nil id

/-- A group that is not there is noted, and is a group without members. -/
theorem targets_eq (addressing : r.addressing? = some o) (named : o ∈ Operand.named)
    (target : r.targetName = .ok t) (what : Text) :
    ∃ r', r.targets what = .ok (r', (r.addressed t o).filterMap r.stage.light?) ∧
      r'.stage.lights = r.stage.lights ∧ r'.stage.refusals = r.stage.refusals ∧
      ((∀ n ∈ r.addressed t o, (r.stage.light? n).isSome) →
        r.stage.NotesNo unknownLight r'.stage) := by
  have found (names : List Text) : ∃ r',
      (.ok (r.lightsOf what names) : Except Fault (Rig × List Light)) =
        .ok (r', names.filterMap r.stage.light?) ∧
      r'.stage.lights = r.stage.lights ∧ r'.stage.refusals = r.stage.refusals ∧
      ((∀ n ∈ names, (r.stage.light? n).isSome) → r.stage.NotesNo unknownLight r'.stage) := by
    obtain ⟨listed, lights, refusals⟩ := r.lightsOf_eq what names
    refine ⟨_, by rw [← listed], lights, refusals, fun known => .of_eq ?_⟩
    rw [lightsOf_of_known known]
  simp only [targets, addressing, target]
  cases o with
  | all => exact found _
  | light => exact found _
  | mzLight => exact found _
  | group =>
      cases held : r.stage.lights.groups.get? t with
      | some names =>
          rw [addressed, LightSet.members, held]
          exact found names
      | none =>
          rw [addressed, LightSet.members, held]
          exact ⟨_, rfl, rfl, rfl, fun _ => notesNo_warn (by decide) r _⟩
  | location =>
      cases held : r.stage.lights.locations.get? t with
      | some names =>
          rw [addressed, LightSet.members, held]
          exact found names
      | none =>
          rw [addressed, LightSet.members, held]
          exact ⟨_, rfl, rfl, rfl, fun _ => notesNo_warn (by decide) r _⟩
  | unnamed past => simp [Operand.named] at named

theorem colorLight_plain (obeys : r.stage.refusals = []) (c : Color) (ns : Int) (l : Light) :
    (r.colorLight false c ns l).stage.lights = r.stage.lights.modify l.name (·.setColor c) ∧
      (r.colorLight false c ns l).stage.refusals = [] ∧
      r.stage.NotesNo unknownLight (r.colorLight false c ns l).stage := by
  obtain ⟨accepted, changed⟩ := Stage.setColor_of_obeys obeys l.name c ns
  simp only [colorLight, Bool.false_eq_true, if_false, accepted, noteFailure]
  exact changed

/-- Lights are colored one after the other, by their names. -/
theorem foldl_colorLight_plain (obeys : r.stage.refusals = []) (c : Color) (ns : Int)
    (ls : List Light) :
    (ls.foldl (·.colorLight false c ns ·) r).stage.lights =
        (ls.map Light.name).foldl (fun s n => s.modify n (·.setColor c)) r.stage.lights ∧
      r.stage.NotesNo unknownLight (ls.foldl (·.colorLight false c ns ·) r).stage := by
  induction ls generalizing r with
  | nil => exact ⟨rfl, .of_eq rfl⟩
  | cons l ls ih =>
      obtain ⟨lights, still, notes⟩ := colorLight_plain obeys c ns l
      obtain ⟨lights', notes'⟩ := ih still
      rw [List.foldl_cons, List.map_cons, List.foldl_cons, ← lights]
      exact ⟨lights', notes.trans notes'⟩

/-- A light takes a color for the selected zones, if it has them all. -/
theorem colorLight_zoned (obeys : r.stage.refusals = []) {l : Light}
    (held : r.stage.light? l.name = some l) (c : Color) (ns : Int) (n : Text) :
    (r.colorLight true c ns l).stage.light? n =
      if n = l.name then
        some ((l.setZones (zoneRange r.machine.registers l).1 (zoneRange r.machine.registers l).2
          c).toOption.getD l)
      else r.stage.light? n := by
  rw [← Stage.setZoneColor_of_obeys obeys held _ _ c ns n]
  simp only [colorLight, if_true]
  split
  · unfold noteFailure
    split <;> rfl
  · next plain =>
    have none (first last : Int) : ¬ l.HasZones first last := by
      have count : l.zoneCount = 0 := by simpa [plain] using l.isMultizone_iff
      unfold Light.HasZones
      omega
    obtain ⟨e, failed⟩ := Light.setZones_of_not_hasZones (none _ _) c
    rw [Stage.setZoneColor_of_obeys obeys held, failed]
    exact (Stage.ite_light? held n).symm

/-- A light that is looked up under some of the names has such a name. -/
theorem map_name_filterMap (filed : r.stage.lights.IsFiled) {names : List Text} {n : Text} {l : Light}
    (found : r.stage.light? n = some l) :
    n ∈ (names.filterMap r.stage.light?).map Light.name ↔ n ∈ names := by
  simp only [List.mem_map, List.mem_filterMap]
  constructor
  · rintro ⟨l', ⟨m, listed, found'⟩, rfl⟩
    exact filed m l' found' ▸ listed
  · intro listed
    exact ⟨l, ⟨n, listed, found⟩, filed n l found⟩

/-- A color and a target that are there are sent to the lights that are addressed. -/
theorem color_eq {c : Color} (wired : r.wireColor = .ok c) (addressing : r.addressing? = some o)
    (named : o ∈ Operand.named) (target : r.targetName = .ok t) : ∃ r' : Rig,
      r.color = (((r.addressed t o).filterMap r.stage.light?).foldl
        (·.colorLight (o == .mzLight) c r.transition ·) r').done ∧
      r'.machine = r.machine ∧ r'.stage.lights = r.stage.lights ∧
      r'.stage.refusals = r.stage.refusals ∧
      ((∀ n ∈ r.addressed t o, (r.stage.light? n).isSome) →
        r.stage.NotesNo unknownLight r'.stage) := by
  obtain ⟨r', targeted, kept⟩ := targets_eq addressing named target "COLOR"
  refine ⟨r', ?_, targets_machine targeted, kept⟩
  simp only [color, wired, targeted, addressing]
  rfl

/-- Every addressed light takes the color, and no other one. -/
theorem color_plain {c : Color} (filed : r.stage.lights.IsFiled) (obeys : r.stage.refusals = [])
    (wired : r.wireColor = .ok c) (addressing : r.addressing? = some o) (named : o ∈ Operand.named)
    (target : r.targetName = .ok t) (plain : o ≠ .mzLight) :
    (∀ n l, r.stage.light? n = some l →
      r.color.1.stage.light? n = some (if n ∈ r.addressed t o then l.setColor c else l)) ∧
    ((∀ n ∈ r.addressed t o, (r.stage.light? n).isSome) →
      r.stage.NotesNo unknownLight r.color.1.stage) := by
  obtain ⟨r', colored, -, lights, refusals, quiet⟩ := color_eq wired addressing named target
  have whole : (o == .mzLight) = false := by simpa using plain
  rw [whole] at colored
  obtain ⟨after, notes⟩ := foldl_colorLight_plain (refusals.trans obeys) c r.transition
    ((r.addressed t o).filterMap r.stage.light?)
  rw [colored]
  refine ⟨fun n l found => ?_, fun known => (quiet known).trans notes⟩
  have there : r.stage.lights.get? n = some l := found
  change (Stage.lights _).get? n = _
  rw [done, after, lights, LightSet.get?_foldl_modify (·.setColor_setColor c), there]
  simp only [map_name_filterMap filed found]
  split <;> rfl

/-- The selected zones take the color, if the light of the name has them all. -/
theorem color_zoned {c : Color} (filed : r.stage.lights.IsFiled) (obeys : r.stage.refusals = [])
    (wired : r.wireColor = .ok c) (addressing : r.addressing? = some .mzLight)
    (target : r.targetName = .ok t) {n : Text} {l : Light} (found : r.stage.light? n = some l)
    {first last : Int} (selects : r.machine.registers.Selects l first last) :
    r.color.1.stage.light? n =
      some (if n = t then (l.setZones first last c).toOption.getD l else l) := by
  obtain ⟨r', colored, machine, lights, refusals, -⟩ := color_eq wired addressing (by decide) target
  have same (m : Text) : r'.stage.light? m = r.stage.light? m := congrArg (LightSet.get? · m) lights
  rw [colored, done, addressed]
  cases there : r.stage.light? t with
  | none =>
      have other : n ≠ t := by
        rintro rfl
        cases found.symm.trans there
      rw [List.filterMap_cons_none there, if_neg other, ← found]
      exact same n
  | some l' =>
      obtain rfl := filed t l' there
      have zoned := colorLight_zoned (refusals.trans obeys) ((same _).trans there) c r.transition n
      rw [List.filterMap_cons_some there]
      refine zoned.trans ?_
      by_cases here : n = l'.name
      · subst here
        obtain rfl := Option.some.inj (found.symm.trans there)
        rw [if_pos rfl, if_pos rfl, machine, selects.zoneRange_eq]
      · rw [if_neg here, if_neg here, same, found]

theorem exists_selects (b : Registers) (l : Light) : ∃ first last, b.Selects l first last := by
  cases first : b.firstZone.number? with
  | none => exact ⟨_, _, .whole first⟩
  | some x =>
      cases last : b.lastZone.number? with
      | none => exact ⟨_, _, .single first last⟩
      | some y => exact ⟨_, _, .range first last⟩

/-- The members of groups and locations are lights of the set. -/
theorem isSome_of_mem_addressed (sim : (LightSet.ofFilings fs).SameBuild r.stage.lights)
    (ghosts : r.stage.ghosts = []) (several : o = .group ∨ o = .location ∨ o = .all) {n : Text}
    (member : n ∈ r.addressed t o) : (r.stage.light? n).isSome := by
  rw [mem_addressed sim ghosts] at member
  apply sim.isSome_of_filed
  obtain rfl | rfl | rfl := several
  · obtain ⟨-, f, added, -, name⟩ := member
    exact ⟨f, added, name⟩
  · obtain ⟨-, f, added, -, name⟩ := member
    exact ⟨f, added, name⟩
  · exact member

/-- What a plain command leaves of a light. -/
theorem light_of_color_plain {c : Color} (sim : (LightSet.ofFilings fs).SameBuild r.stage.lights)
    (ghosts : r.stage.ghosts = []) (obeys : r.stage.refusals = []) (wired : r.wireColor = .ok c)
    (addressing : r.addressing? = some o) (named : o ∈ Operand.named) (target : r.targetName = .ok t)
    (plain : o ≠ .mzLight) {n : Text} {l : Light} (found : r.stage.light? n = some l) :
    ∃ l', r.color.1.stage.light? n = some l' ∧ l'.power = l.power ∧
      (IsAddressed fs t o n → l.Painted c l') ∧ (¬ IsAddressed fs t o n → l' = l) := by
  have filed := sim.isFiled (LightSet.isFiled_ofFilings fs)
  have after := (color_plain filed obeys wired addressing named target plain).1 n l found
  have member : n ∈ r.addressed t o ↔ IsAddressed fs t o n := mem_addressed sim ghosts o n
  by_cases addressed : n ∈ r.addressed t o
  · rw [if_pos addressed] at after
    exact ⟨_, after, rfl, fun _ => l.painted_setColor c, absurd (member.mp addressed)⟩
  · rw [if_neg addressed] at after
    exact ⟨_, after, rfl, fun h => absurd (member.mpr h) addressed, fun _ => rfl⟩

/-- What a command for zones leaves of a light. -/
theorem light_of_color_zoned {c : Color} (filed : r.stage.lights.IsFiled)
    (obeys : r.stage.refusals = []) (wired : r.wireColor = .ok c)
    (addressing : r.addressing? = some .mzLight) (target : r.targetName = .ok t) {n : Text}
    {l : Light} (found : r.stage.light? n = some l) :
    ∃ l', r.color.1.stage.light? n = some l' ∧ l'.power = l.power ∧
      ∃ first last, r.machine.registers.Selects l first last ∧
        (n = t ∧ l.HasZones first last → l.ZonesPainted c first last l') ∧
        (¬ (n = t ∧ l.HasZones first last) → l' = l) := by
  obtain ⟨first, last, selects⟩ := exists_selects r.machine.registers l
  have after := color_zoned filed obeys wired addressing target found selects
  by_cases range : n = t ∧ l.HasZones first last
  · obtain ⟨l', colored, painted⟩ := Light.setZones_of_hasZones range.2 c
    rw [if_pos range.1, colored] at after
    exact ⟨l', after, painted.power, first, last, selects, fun _ => painted, absurd range⟩
  · have kept : (if n = t then (l.setZones first last c).toOption.getD l else l) = l := by
      split
      · next same =>
        obtain ⟨e, failed⟩ := Light.setZones_of_not_hasZones (fun h => range ⟨same, h⟩) c
        rw [failed]
        rfl
      · rfl
    rw [kept] at after
    exact ⟨l, after, rfl, first, last, selects, fun h => absurd h range, fun _ => rfl⟩

/-- Lights were added to a set in any order, perhaps several under one name, and took any commands. If
the unit mode has a name and the target is a value, a color command succeeds and changes nothing but
colors. It gives its color to all lights that it is for, with all their zones, and every other light
stays as it is; if it is for a multi-zone light, it gives the color to the selected zones only, and to
none if the light has not got them all. Without an operand it changes no light. The members of groups
and locations are lights of the set, so no name is noted as unknown unless the command names it. -/
theorem color_exact {i : Instruction} (p : Program)
    (sim : (LightSet.ofFilings fs).SameBuild r.stage.lights) (ghosts : r.stage.ghosts = [])
    (obeys : r.stage.refusals = []) (mode : r.machine.registers.unitMode ∈ UnitMode.named)
    (name : r.machine.registers.name ≠ none) (code : i.op = .color) :
    (∀ g n, n ∈ LightSet.members r.stage.lights.groups g ∨
      n ∈ LightSet.members r.stage.lights.locations g → (r.stage.light? n).isSome) ∧
    (r.addressing? = none → ∃ stage, r.execute p i = ({ r with stage := stage }, .ok ()) ∧
      stage.lights = r.stage.lights) ∧
    ∃ c t, r.wireColor = .ok c ∧ r.targetName = .ok t ∧
      ∀ o, r.addressing? = some o → o ∈ Operand.named → ∃ stage : Stage,
        r.execute p i = ({ r with stage := stage }, .ok ()) ∧
        r.stage.lights.SameBuild stage.lights ∧
        (∀ n l, r.stage.light? n = some l → ∃ l', stage.light? n = some l' ∧ l'.power = l.power ∧
          (o ≠ .mzLight →
            (IsAddressed fs t o n → l.Painted c l') ∧ (¬ IsAddressed fs t o n → l' = l)) ∧
          (o = .mzLight → ∃ first last, r.machine.registers.Selects l first last ∧
            (n = t ∧ l.HasZones first last → l.ZonesPainted c first last l') ∧
            (¬ (n = t ∧ l.HasZones first last) → l' = l))) ∧
        (o = .group ∨ o = .location ∨ o = .all → r.stage.NotesNo unknownLight stage) := by
  have filed := sim.isFiled (LightSet.isFiled_ofFilings fs)
  have executed : r.execute p i = r.color := by rw [execute, code]
  obtain ⟨c, wired⟩ := exists_wireColor mode
  obtain ⟨t, target⟩ := exists_targetName name
  refine ⟨?_, ?_, c, t, wired, target, fun o addressing named => ⟨r.color.1.stage, ?_, ?_, ?_, ?_⟩⟩
  · rintro g n (member | member)
    · exact isSome_of_mem_addressed sim ghosts (.inl rfl) member
    · exact isSome_of_mem_addressed sim ghosts (.inr (.inl rfl)) member
  · intro none
    refine ⟨(r.color).1.stage, ?_⟩
    simp only [executed, color, wired, targets, none]
    exact ⟨rfl, rfl⟩
  · obtain ⟨r', colored, -⟩ := color_eq wired addressing named target
    have machine := r.color_machine
    rw [executed]
    refine Prod.ext ?_ (by rw [colored]; rfl)
    calc r.color.1 = ⟨r.color.1.machine, r.color.1.stage⟩ := rfl
      _ = { r with stage := r.color.1.stage } := by rw [machine]
  · exact (color_keeps filed).lights
  · intro n l found
    by_cases zoned : o = .mzLight
    · subst zoned
      obtain ⟨l', after, power, kept⟩ := light_of_color_zoned filed obeys wired addressing target found
      exact ⟨l', after, power, absurd rfl, fun _ => kept⟩
    · obtain ⟨l', after, power, kept⟩ :=
        light_of_color_plain sim ghosts obeys wired addressing named target zoned found
      exact ⟨l', after, power, fun _ => kept, fun h => absurd h zoned⟩
  · intro several
    have plain : o ≠ .mzLight := by
      obtain rfl | rfl | rfl := several
      all_goals decide
    exact (color_plain filed obeys wired addressing named target plain).2 fun n =>
      isSome_of_mem_addressed sim ghosts several

/-- A lamp and a strip with three zones in one group. -/
def groupedLights : List Filing :=
  [⟨.create [97] 0, [103], [], by decide⟩, ⟨.create [115] 3, [103], [108], by decide⟩]

/-- A machine that addresses the zone in the middle of the strip and holds a color in raw units. -/
def facingStrip : Rig where
  machine.registers.operand := .operand .mzLight
  machine.registers.name := some (.str [115])
  machine.registers.firstZone := .number (Number.ofInt 1)
  machine.registers.unitMode := .raw
  machine.registers.hue := Number.ofInt 7
  machine.registers.saturation := Number.ofInt 65535
  machine.registers.brightness := Number.ofInt 1
  machine.registers.kelvin := Number.ofInt 3500
  stage.lights := .ofFilings groupedLights

/-- A program that is a single command. -/
def justColor : Program where
  name := []
  code := [{ op := .color }]
  routines := .empty

/-- The zone in the middle takes the color of the registers, and its neighbours and the lamp keep
theirs. -/
theorem facingStrip_colored :
    ∃ stage, facingStrip.execute justColor { op := .color } =
        ({ facingStrip with stage := stage }, .ok ()) ∧
      (∃ l : Light, stage.light? [115] = some l ∧ l.zones[0]? = some ({} : Color) ∧
        l.zones[1]? = some ⟨7, 65535, 1, 3500⟩ ∧ l.zones[2]? = some ({} : Color)) ∧
      stage.light? [97] = facingStrip.stage.light? [97] := by
  obtain ⟨-, -, c, t, wired, target, colored⟩ := @color_exact groupedLights facingStrip { op := .color }
    justColor (.refl _) rfl rfl (by decide) nofun rfl
  have held : facingStrip.wireColor.toOption = some ⟨7, 65535, 1, 3500⟩ := by decide +kernel
  rw [wired] at held
  obtain rfl : c = ⟨7, 65535, 1, 3500⟩ := Option.some.inj held
  obtain rfl : [115] = t := Except.ok.inj target
  obtain ⟨stage, executed, -, lights, -⟩ := colored .mzLight rfl (by decide)
  refine ⟨stage, executed, ?_, ?_⟩
  · obtain ⟨l, after, -, -, zoned⟩ := lights [115] (.create [115] 3) rfl
    obtain ⟨first, last, selects, painted, -⟩ := zoned rfl
    have middle : (1, 1) = (first, last) := selects.zoneRange_eq
    obtain ⟨rfl, rfl⟩ := Prod.mk.inj middle
    have painted := painted ⟨rfl, by decide⟩
    exact ⟨l, after, painted.outside 0 (by decide),
      painted.within 1 (by decide) (by decide) (by decide), painted.outside 2 (by decide)⟩
  · obtain ⟨l, after, -, -, zoned⟩ := lights [97] (.create [97] 0) rfl
    obtain ⟨first, last, -, -, kept⟩ := zoned rfl
    rw [after, kept (fun h => absurd h.1 (by decide))]
    rfl

end Rig

end Lightboard
