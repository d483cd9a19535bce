import Lightboard.Proofs.Machine.Effect

/-!
# What one instruction does to the stage

`Stage.Conduct op s t` says how an instruction with op-code `op` can have brought stage `s` to stage
`t`: it noted, recorded or wrote something, gave commands to lights, or read a key. Only the op-codes
that a constructor names do more than the first.

`execute_conduct` shows that nothing else happens; instructions that only store, jump, call or
calculate leave the stage as it is. What instructions leave of the lights and of the keyboard is
proved by induction on this relation.
-/

namespace Lightboard

namespace Stage

/-- What an instruction can have done to a stage by the time it has become another one. -/
inductive Conduct (op : OpCode) (s : Stage) : Stage → Prop
  | start : Conduct op s s
  /-- Notes, events, output and waits concern neither the lights nor the keyboard. -/
  | aside {t t' : Stage} (before : Conduct op s t) (lights : t'.lights = t.lights)
      (ghosts : t'.ghosts = t.ghosts) (keyboard : t'.keyboard = t.keyboard) : Conduct op s t'
  | colored {t : Stage} (is : op = .color) (before : Conduct op s t) (name : Text) (c : Color) :
      Conduct op s { t with lights := t.lights.modify name (·.setColor c) }
  /-- Colored zones are put back with the whole light, as it was when the instruction began. -/
  | zonesColored {t : Stage} (is : op = .color) (before : Conduct op s t) {name : Text}
      {l l' : Light} {first last : Int} {c : Color} (found : s.light? name = some l)
      (colored : l.setZones first last c = .ok l') :
      Conduct op s { t with lights := t.lights.modify l.name fun _ => l' }
  | switched {t : Stage} (is : op = .power) (before : Conduct op s t) (name : Text)
      (level : UInt16) : Conduct op s { t with lights := t.lights.modify name (·.setPower level) }
  | keyed {t : Stage} (is : op = .pause) (before : Conduct op s t) (k : Keyboard) :
      Conduct op s { t with keyboard := k }

namespace Conduct

variable {op : OpCode} {s t : Stage}

theorem write (h : s.Conduct op t) (text : Text) : s.Conduct op (t.write text).1 := by
  unfold Stage.write
  split
  · exact h
  · exact h.aside rfl rfl rfl

theorem endWait (h : s.Conduct op t) : s.Conduct op t.endWait.1 := by
  simp only [Stage.endWait]
  split <;> exact h.aside rfl rfl rfl

theorem readKey (h : s.Conduct op t) (is : op = .pause) : s.Conduct op t.readKey.1 :=
  (h.keyed is t.keyboard.readKey.2).aside rfl rfl rfl

theorem getColor (h : s.Conduct op t) (l : Light) : s.Conduct op (t.getColor l).1 := by
  simp only [Stage.getColor]
  split <;> exact h.aside rfl rfl rfl

theorem getZones (h : s.Conduct op t) (l : Light) (first last : Int) :
    s.Conduct op (t.getZones l first last).1 := by
  simp only [Stage.getZones]
  split
  · exact h.aside rfl rfl rfl
  · split <;> exact h.aside rfl rfl rfl

theorem setColor (h : s.Conduct op t) (is : op = .color) (name : Text) (c : Color) (ns : Int) :
    s.Conduct op (t.setColor name c ns).1 := by
  simp only [Stage.setColor]
  split
  · exact h.aside rfl rfl rfl
  · exact (h.colored is name c).aside rfl rfl rfl

theorem setPower (h : s.Conduct op t) (is : op = .power) (name : Text) (level : UInt16) (ns : Int) :
    s.Conduct op (t.setPower name level ns).1 := by
  simp only [Stage.setPower]
  split
  · exact h.aside rfl rfl rfl
  · exact (h.switched is name level).aside rfl rfl rfl

theorem setZoneColor (h : s.Conduct op t) (is : op = .color) {name : Text} {l : Light}
    (found : s.light? name = some l) (first last : Int) (c : Color) (ns : Int) :
    s.Conduct op (t.setZoneColor l first last c ns).1 := by
  simp only [Stage.setZoneColor]
  split
  · exact h.aside rfl rfl rfl
  · split
    · exact h.aside rfl rfl rfl
    · next colored => exact (h.zonesColored is found colored).aside rfl rfl rfl

end Conduct

end Stage

namespace Rig

variable {op : OpCode} {s : Stage} {r r' : Rig} {ls : List Light}

theorem noteFailure_conduct (h : s.Conduct op r.stage) (message : String) (light : Text)
    (outcome : Except Text Unit) : s.Conduct op (r.noteFailure message light outcome).stage := by
  cases outcome with
  | ok => exact h
  | error why => exact h.aside rfl rfl rfl

theorem lightsOf_conduct (h : s.Conduct op r.stage) (what : Text) (names : List Text) :
    s.Conduct op (r.lightsOf what names).1.stage := by
  induction names generalizing r with
  | nil => exact h
  | cons n names ih =>
      unfold lightsOf
      split
      · exact ih h
      · exact ih (h.aside rfl rfl rfl)

theorem mem_lightsOf {what : Text} {names : List Text} {l : Light}
    (listed : l ∈ (r.lightsOf what names).2) : ∃ n, r.stage.light? n = some l := by
  induction names generalizing r with
  | nil => exact absurd listed List.not_mem_nil
  | cons n names ih =>
      unfold lightsOf at listed
      split at listed
      · next found =>
        obtain rfl | listed := List.mem_cons.mp listed
        · exact ⟨n, found⟩
        · exact ih listed
      · exact ih (r := r.warn _ _) listed

/-- The lights that are addressed are lights of the stage. -/
theorem targets_conduct {what : Text} (targeted : r.targets what = .ok (r', ls)) :
    r.stage.Conduct op r'.stage ∧ ∀ l ∈ ls, ∃ n, r.stage.light? n = some l := by
  have found (names : List Text)
      (h : (.ok (r.lightsOf what names) : Except Fault (Rig × List Light)) = .ok (r', ls)) :
      r.stage.Conduct op r'.stage ∧ ∀ l ∈ ls, ∃ n, r.stage.light? n = some l := by
    obtain ⟨rfl, rfl⟩ := Prod.mk.inj (Except.ok.inj h)
    exact ⟨lightsOf_conduct .start what names, fun l => mem_lightsOf⟩
  have skipped {message : String} {details : List (Text × Detail)}
      (h : (.ok (r.warn message details, []) : Except Fault (Rig × List Light)) = .ok (r', ls)) :
      r.stage.Conduct op r'.stage ∧ ∀ l ∈ ls, ∃ n, r.stage.light? n = some l := by
    obtain ⟨rfl, rfl⟩ := Prod.mk.inj (Except.ok.inj h)
    exact ⟨.aside .start rfl rfl rfl, fun l listed => absurd listed List.not_mem_nil⟩
  unfold targets at targeted
  split at targeted
  · exact skipped targeted
  · split at targeted
    · cases targeted
    · split at targeted
      · exact found _ targeted
      · exact found _ targeted
      · exact found _ targeted
      · split at targeted
        · exact found _ targeted
        · exact skipped targeted
      · split at targeted
        · exact found _ targeted
        · exact skipped targeted
      · cases targeted

/-- A command that is given to one light after the other. -/
theorem foldl_conduct {f : Rig → Light → Rig}
    (one : ∀ (r : Rig), ∀ l ∈ ls, s.Conduct op r.stage → s.Conduct op (f r l).stage)
    (h : s.Conduct op r.stage) : s.Conduct op (ls.foldl f r).stage := by
  induction ls generalizing r with
  | nil => exact h
  | cons l ls ih =>
      exact ih (fun r l' listed => one r l' (List.mem_cons_of_mem l listed))
        (one r l List.mem_cons_self h)

theorem colorLight_conduct (h : s.Conduct .color r.stage) {l : Light} {n : Text}
    (found : s.light? n = some l) (zoned : Bool) (c : Color) (ns : Int) :
    s.Conduct .color (r.colorLight zoned c ns l).stage := by
  simp only [colorLight]
  split
  · split
    · exact noteFailure_conduct (h.setZoneColor rfl found _ _ c ns) _ _ _
    · exact h.aside rfl rfl rfl
  · exact noteFailure_conduct (h.setColor rfl l.name c ns) _ _ _

theorem color_conduct (r : Rig) : r.stage.Conduct .color r.color.1.stage := by
  unfold color
  split
  · exact .start
  · split
    · exact .start
    · next targeted =>
      obtain ⟨before, found⟩ := targets_conduct targeted
      refine foldl_conduct (fun r' l listed h => ?_) before
      obtain ⟨n, found⟩ := found l listed
      exact colorLight_conduct h found _ _ _

theorem power_conduct (r : Rig) : r.stage.Conduct .power r.power.1.stage := by
  unfold power
  split
  · exact .start
  · next targeted =>
    refine foldl_conduct (fun r' l _ h => ?_) (targets_conduct targeted).1
    exact noteFailure_conduct (h.setPower rfl l.name _ _) _ _ _

theorem takeColor_conduct (h : s.Conduct op r.stage) (c : Color) :
    s.Conduct op (r.takeColor c).1.stage := by
  unfold takeColor
  split <;> exact h

theorem getColorOf_conduct (r : Rig) (zoned : Bool) (l : Light) (name : Text) :
    r.stage.Conduct op (r.getColorOf zoned l name).1.stage := by
  have zones (first last : Int) : r.stage.Conduct op (r.stage.getZones l first last).1 :=
    .getZones .start l first last
  have color : r.stage.Conduct op (r.stage.getColor l).1 := .getColor .start l
  simp only [getColorOf]
  split
  · split
    · split
      · exact (zones _ _).aside rfl rfl rfl
      · exact (zones _ _).aside rfl rfl rfl
      · exact takeColor_conduct (zones _ _) _
    · exact .aside .start rfl rfl rfl
  · split
    · exact color.aside rfl rfl rfl
    · exact takeColor_conduct color _

theorem getColor_conduct (r : Rig) : r.stage.Conduct op r.getColor.1.stage := by
  simp only [getColor]
  split
  · exact .aside .start rfl rfl rfl
  · split
    · exact .start
    · split
      · exact .aside .start rfl rfl rfl
      · exact r.getColorOf_conduct _ _ _

theorem zoneLight_conduct {v : Slot} {light : Option Light}
    (lit : r.zoneLight v = .ok (r', light)) : r.stage.Conduct op r'.stage := by
  unfold zoneLight at lit
  split at lit
  · cases lit
  · split at lit
    all_goals
      obtain ⟨rfl, -⟩ := Prod.mk.inj (Except.ok.inj lit)
      exact .aside .start rfl rfl rfl
  · cases lit

theorem discoverZones_conduct (r : Rig) (i : Instruction) :
    r.stage.Conduct op (r.discoverZones i).1.stage := by
  unfold discoverZones
  split
  · exact .start
  · next lit =>
    have found : r.stage.Conduct op _ := zoneLight_conduct lit
    exact found

theorem discoverNextZone_conduct (r : Rig) (i : Instruction) :
    r.stage.Conduct op (r.discoverNextZone i).1.stage := by
  unfold discoverNextZone
  split
  · exact .start
  · next lit =>
    have found : r.stage.Conduct op _ := zoneLight_conduct lit
    split <;> exact found

theorem discover_stage (r : Rig) (i : Instruction) : (r.discover i).1.stage = r.stage := by
  unfold discover
  split <;> rfl

theorem discoverNext_stage (r : Rig) (i : Instruction) : (r.discoverNext i).1.stage = r.stage := by
  unfold discoverNext
  split
  · rfl
  · split <;> rfl

theorem wait_conduct (r : Rig) : r.stage.Conduct op r.wait.1.stage := by
  have waited (e : Event) : r.stage.Conduct op (r.stage.record e).endWait.1 :=
    .endWait (.aside .start rfl rfl rfl)
  simp only [wait]
  split
  · exact waited _
  · exact waited _
  · exact .start
  · exact .start

theorem pressed_conduct (h : s.Conduct op r.stage) (key : Char) :
    s.Conduct op (r.pressed key).stage := by
  unfold pressed
  split
  · exact h.aside rfl rfl rfl
  · split
    · exact h.aside rfl rfl rfl
    · exact h

theorem pause_conduct (r : Rig) : r.stage.Conduct .pause r.pause.1.stage := by
  have asked : r.stage.Conduct .pause (r.stage.write pausePrompt).1.readKey.1 :=
    .readKey (.write .start pausePrompt) rfl
  simp only [pause]
  split
  · exact .start
  · split
    · exact pressed_conduct asked _
    · exact asked.aside rfl rfl rfl
    · exact asked

theorem printFirst_conduct (r : Rig) (trailer : Text) :
    r.stage.Conduct op (r.printFirst trailer).1.stage := by
  unfold printFirst
  split
  · exact .start
  · exact .write .start _

theorem printTemplate_conduct (r : Rig) (template : Text) :
    r.stage.Conduct op (r.printTemplate template).1.stage := by
  have noted (warnings : List Entry) : r.stage.Conduct op (r.stage.noteAll warnings) :=
    .aside .start rfl rfl rfl
  exact (noted _).write _

theorem outRegister_stage (r : Rig) (v : Slot) : (r.outRegister v).1.stage = r.stage := by
  unfold outRegister
  split
  · split <;> rfl
  · rfl

theorem outLiteral_stage (r : Rig) (v : Slot) : (r.outLiteral v).1.stage = r.stage := by
  unfold outLiteral
  split
  · rfl
  · split <;> rfl

theorem out_conduct (r : Rig) (what arg : Slot) :
    r.stage.Conduct op (r.out what arg).1.stage := by
  unfold out
  split
  · rw [outRegister_stage]
    exact .start
  · rw [outLiteral_stage]
    exact .start
  · split <;> exact r.printFirst_conduct _
  · exact r.printFirst_conduct _
  · split
    · exact r.printTemplate_conduct _
    · exact .start
  · exact .start
  · exact .start

theorem setRegister_stage (r : Rig) (reg : Register) (v : Slot) :
    (r.setRegister reg v).1.stage = r.stage := by
  unfold setRegister
  split <;> rfl

theorem setVariable_stage (r : Rig) (token v : Slot) :
    (r.setVariable token v).1.stage = r.stage := by
  unfold setVariable
  split <;> rfl

theorem store_stage (r : Rig) (dest v : Slot) : (r.store dest v).1.stage = r.stage := by
  unfold store
  split
  · unfold switchUnits
    split
    · split <;> rfl
    · rfl
  · exact r.setRegister_stage _ v
  · exact r.setVariable_stage _ v
  · exact r.setVariable_stage _ v
  · rfl

theorem pop_stage (r : Rig) (dest : Slot) : (r.pop dest).1.stage = r.stage := by
  unfold pop
  split
  · rfl
  · simp only
    split
    · exact setRegister_stage _ _ _
    · exact setVariable_stage _ _ _
    · exact setVariable_stage _ _ _
    · rfl

theorem jump_stage (r : Rig) (i : Instruction) : (r.jump i).1.stage = r.stage := by
  unfold jump jumpIndirect jumpRelative
  split
  · split
    · rfl
    · split <;> rfl
  · split
    · rfl
    · split <;> rfl
  · rfl

theorem timePattern_stage (r : Rig) (i : Instruction) : (r.timePattern i).1.stage = r.stage := by
  unfold timePattern
  split
  · split
    · rfl
    · split
      · rfl
      · split <;> rfl
  · rfl

theorem defineConstant_stage (r : Rig) (i : Instruction) :
    (r.defineConstant i).1.stage = r.stage := by
  unfold defineConstant
  split
  · rfl
  · split <;> rfl

theorem stageParam_stage (r : Rig) (i : Instruction) : (r.stageParam i).1.stage = r.stage := by
  unfold stageParam
  split
  · rfl
  · split <;> rfl

theorem callRoutine_stage (r : Rig) (p : Program) (i : Instruction) :
    (r.callRoutine p i).1.stage = r.stage := by
  unfold callRoutine
  split
  · rfl
  · split <;> rfl

theorem push_stage (r : Rig) (source : Slot) : (r.push source).1.stage = r.stage := by
  unfold push
  split
  · rfl
  · split <;> rfl

theorem returnFromRoutine_stage (r : Rig) : r.returnFromRoutine.1.stage = r.stage := by
  simp only [returnFromRoutine]
  split <;> rfl

theorem leaveLoop_stage (r : Rig) : r.leaveLoop.1.stage = r.stage := by
  unfold leaveLoop
  split <;> rfl

theorem applyOperator_stage (r : Rig) (v : Slot) : (r.applyOperator v).1.stage = r.stage := by
  unfold applyOperator
  split <;> rfl

/-- An instruction does to the stage what is allowed to its op-code. -/
theorem execute_conduct (r : Rig) (p : Program) (i : Instruction) :
    r.stage.Conduct i.op (r.execute p i).1.stage := by
  have same {o : Outcome} (h : o.1.stage = r.stage) (op : OpCode) : r.stage.Conduct op o.1.stage :=
    h ▸ .start
  cases op : i.op <;> simp only [execute, op]
  case nop => exact .start
  case breakpoint => exact .aside .start rfl rfl rfl
  case color => exact r.color_conduct
  case constant => exact same (r.defineConstant_stage i) _
  case disc => exact same (r.discover_stage i) _
  case discZone => exact r.discoverZones_conduct i
  case discNext => exact same (r.discoverNext_stage i) _
  case discNextZone => exact r.discoverNextZone_conduct i
  case ret => exact same r.returnFromRoutine_stage _
  case endLoop => exact same r.leaveLoop_stage _
  case getColor => exact r.getColor_conduct
  case call => exact same (r.callRoutine_stage p i) _
  case jump => exact same (r.jump_stage i) _
  case loop => exact .start
  case move =>
    split
    · exact .start
    · exact same (r.store_stage _ _) _
  case moveLiteral =>
    split
    · exact .start
    · exact same (r.store_stage _ _) _
  case apply => exact same (r.applyOperator_stage _) _
  case out => exact r.out_conduct _ _
  case param => exact same (r.stageParam_stage i) _
  case pause => exact r.pause_conduct
  case pop => exact same (r.pop_stage _) _
  case power => exact r.power_conduct
  case push => exact same (r.push_stage _) _
  case pushLiteral => split <;> exact .start
  case routine => exact .start
  case stop => exact .start
  case timePattern => exact same (r.timePattern_stage i) _
  case wait => exact r.wait_conduct
  case unnamed => exact .start

end Rig

end Lightboard
