import Lightboard.Proofs.Machine.Effect

/-!
# Staged parameters are not seen

Parameters are staged one by one for the next call. Until a call takes them they are seen by nobody:
`Rig.restage` puts others in their place, and a handler is `Blind` if it does the same to the rig then
as before. All instructions but a call that succeeds are blind, and so is every other step.
-/

namespace Lightboard

namespace CallStack

/-- The stack with other parameters staged. -/
def restage (s : CallStack) (t : Scope) : CallStack := { s with stagedScope := t }

section

variable (s : CallStack) (t : Scope)

@[simp] theorem restage_innermost : (s.restage t).innermost = s.innermost := rfl

@[simp] theorem restage_root : (s.restage t).root = s.root := rfl

theorem restage_setInnermost (f : CallFrame) :
    (s.restage t).setInnermost f = (s.setInnermost f).restage t := by
  cases calls : s.calls <;> simp [setInnermost, restage, calls]

theorem restage_putConstant (n : Text) (v : Slot) :
    (s.restage t).putConstant n v = (s.putConstant n v).restage t := by
  unfold putConstant restage
  split <;> rfl

theorem restage_putName (n : Text) (v : Slot) :
    (s.restage t).putName n v = (s.putName n v).restage t := by
  simp only [putName, restage_root, restage_innermost, restage_setInnermost]
  cases s.root.scope.contains n <;> rfl

theorem restage_putVariable (token v : Slot) :
    (s.restage t).putVariable token v = (s.putVariable token v).map (·.restage t) := by
  unfold putVariable
  split
  · simp only [putToken, restage_innermost, restage_setInnermost]
    cases s.innermost.loops <;> rfl
  · exact congrArg Except.ok (s.restage_putName t _ v)
  · exact congrArg Except.ok (s.restage_putName t _ v)
  · rfl

theorem restage_exitLoop : (s.restage t).exitLoop = s.exitLoop.map (·.restage t) := by
  simp only [exitLoop, restage_innermost, restage_setInnermost]
  cases s.innermost.loops <;> rfl

/-- A return drops whatever is staged, unless it fails. -/
theorem restage_pop : (s.restage t).pop = s.pop := rfl

end

end CallStack

open CallStack

namespace Rig

/-- The rig with other parameters staged. -/
def restage (r : Rig) (t : Scope) : Rig := { r with machine.calls := r.machine.calls.restage t }

/-- A handler that does the same whatever is staged, and leaves it staged. -/
def Blind (f : Rig → Outcome) : Prop := ∀ r t, f (r.restage t) = ((f r).1.restage t, (f r).2)

section

variable (r : Rig) (t : Scope)

theorem restage_registers : (r.restage t).machine.registers = r.machine.registers := rfl

theorem restage_calls : (r.restage t).machine.calls = r.machine.calls.restage t := rfl

theorem restage_stage : (r.restage t).stage = r.stage := rfl

theorem restage_resolve (v : Slot) : (r.restage t).resolve v = r.resolve v := rfl

theorem restage_addressing? : (r.restage t).addressing? = r.addressing? := rfl

theorem restage_targetName : (r.restage t).targetName = r.targetName := rfl

theorem restage_warn (message : String) (details : List (Text × Detail)) :
    (r.restage t).warn message details = (r.warn message details).restage t := rfl

theorem restage_setStage (stage : Stage) :
    { r.restage t with stage := stage } = ({ r with stage := stage } : Rig).restage t := rfl

theorem restage_lightsOf (what : Text) (names : List Text) :
    (r.restage t).lightsOf what names =
      ((r.lightsOf what names).1.restage t, (r.lightsOf what names).2) := by
  induction names generalizing r with
  | nil => rfl
  | cons n ns ih =>
      simp only [lightsOf]
      rw [restage_stage]
      split
      · rw [ih]
      · rw [restage_warn, ih]

theorem restage_targets (what : Text) :
    (r.restage t).targets what = (r.targets what).map fun q => (q.1.restage t, q.2) := by
  simp only [targets]
  rw [restage_addressing?, restage_targetName, restage_stage]
  repeat' split
  all_goals first | rfl | exact congrArg Except.ok (r.restage_lightsOf t _ _)

/-- Commands given to lights one after the other are blind if each of them is. -/
theorem restage_foldl {f : Rig → Light → Rig} (blind : ∀ r l, f (r.restage t) l = (f r l).restage t)
    (lights : List Light) : lights.foldl f (r.restage t) = (lights.foldl f r).restage t := by
  induction lights generalizing r with
  | nil => rfl
  | cons l ls ih => rw [List.foldl_cons, blind, ih, List.foldl_cons]

theorem restage_noteFailure (message : String) (light : Text) (outcome : Except Text Unit) :
    (r.restage t).noteFailure message light outcome =
      (r.noteFailure message light outcome).restage t := by
  cases outcome <;> rfl

theorem restage_colorLight (zoned : Bool) (c : Color) (ns : Int) (l : Light) :
    (r.restage t).colorLight zoned c ns l = (r.colorLight zoned c ns l).restage t := by
  simp only [colorLight]
  rw [restage_registers, restage_stage]
  split
  · split
    · rw [restage_setStage, restage_noteFailure]
    · rfl
  · rw [restage_setStage, restage_noteFailure]

theorem restage_powerLight (level : UInt16) (ns : Int) (l : Light) :
    (r.restage t).powerLight level ns l = (r.powerLight level ns l).restage t := by
  simp only [powerLight]
  rw [restage_setStage, restage_noteFailure, restage_stage]

end

theorem blind_color : Blind color := by
  intro r t
  simp only [color]
  rw [show (r.restage t).wireColor = r.wireColor from rfl, restage_targets, restage_addressing?,
    show (r.restage t).transition = r.transition from rfl]
  cases r.wireColor with
  | error f => rfl
  | ok c =>
      cases r.targets "COLOR" with
      | error f => rfl
      | ok q =>
          exact congrArg done
            (restage_foldl q.1 t (fun r l => r.restage_colorLight t _ _ _ l) q.2)

theorem blind_power : Blind power := by
  intro r t
  simp only [power]
  rw [restage_targets, restage_registers, show (r.restage t).transition = r.transition from rfl]
  cases r.targets "POWER" with
  | error f => rfl
  | ok q =>
      exact congrArg done
        (restage_foldl q.1 t (fun r l => r.restage_powerLight t _ _ l) q.2)

theorem blind_takeColor (c : Color) : Blind (takeColor · c) := by
  intro r t
  simp only [takeColor]
  rw [restage_registers]
  cases readColor r.machine.registers c <;> rfl

theorem blind_getColorOf (zoned : Bool) (l : Light) (name : Text) :
    Blind (getColorOf · zoned l name) := by
  intro r t
  simp only [getColorOf]
  rw [restage_registers, restage_stage]
  split
  · split
    · split
      · rfl
      · rfl
      · rw [restage_setStage]
        exact blind_takeColor _ _ t
    · rfl
  · split
    · rfl
    · rw [restage_setStage]
      exact blind_takeColor _ _ t

theorem blind_getColor : Blind getColor := by
  intro r t
  simp only [getColor]
  rw [restage_addressing?, restage_targetName, restage_stage]
  repeat' split
  all_goals first | rfl | exact blind_getColorOf _ _ _ r t

theorem blind_discover (i : Instruction) : Blind (discover · i) := by
  intro r t
  simp only [discover]
  rw [show (r.restage t).discoveryNames i.first = r.discoveryNames i.first from rfl]
  cases r.discoveryNames i.first <;> rfl

theorem blind_discoverNext (i : Instruction) : Blind (discoverNext · i) := by
  intro r t
  simp only [discoverNext]
  rw [show (r.restage t).discoveryNames i.first = r.discoveryNames i.first from rfl,
    restage_resolve]
  repeat' split
  all_goals rfl

theorem restage_zoneLight (r : Rig) (t : Scope) (v : Slot) :
    (r.restage t).zoneLight v = (r.zoneLight v).map fun q => (q.1.restage t, q.2) := by
  simp only [zoneLight]
  rw [restage_resolve, restage_stage]
  repeat' split
  all_goals rfl

theorem blind_discoverZones (i : Instruction) : Blind (discoverZones · i) := by
  intro r t
  simp only [discoverZones]
  rw [restage_zoneLight]
  cases r.zoneLight i.first <;> rfl

theorem blind_discoverNextZone (i : Instruction) : Blind (discoverNextZone · i) := by
  intro r t
  simp only [discoverNextZone]
  rw [restage_zoneLight]
  cases r.zoneLight i.first with
  | error e => rfl
  | ok q =>
      simp only [Except.map, restage_resolve]
      cases q.1.resolve i.second <;> rfl

theorem blind_wait : Blind wait := by
  intro r t
  simp only [wait]
  rw [restage_registers]
  cases r.machine.registers.time <;> rfl

theorem blind_pause : Blind pause := by
  intro r t
  simp only [pause, pressed]
  rw [show (r.restage t).machine.pausing = r.machine.pausing from rfl, restage_stage]
  repeat' split
  all_goals rfl

theorem blind_timePattern (i : Instruction) : Blind (timePattern · i) := by
  intro r t
  simp only [timePattern]
  rw [restage_resolve, restage_registers]
  repeat' split
  all_goals rfl

theorem blind_jump (i : Instruction) : Blind (jump · i) := by
  intro r t
  simp only [jump, jumpIndirect, jumpRelative]
  rw [restage_resolve, restage_registers]
  repeat' split
  all_goals rfl

theorem blind_push (v : Slot) : Blind (push · v) := by
  intro r t
  simp only [push]
  rw [restage_resolve]
  repeat' split
  all_goals rfl

theorem blind_out (op arg : Slot) : Blind (out · op arg) := by
  intro r t
  simp only [out, outRegister, outLiteral, printFirst]
  rw [restage_resolve, restage_registers, restage_stage,
    show (r.restage t).machine.buffer = r.machine.buffer from rfl]
  repeat' split
  all_goals rfl

theorem blind_defineConstant (i : Instruction) : Blind (defineConstant · i) := by
  intro r t
  simp only [defineConstant]
  rw [restage_resolve, restage_calls]
  repeat' split
  · rfl
  · rfl
  · rw [restage_putConstant]
    rfl

theorem blind_leaveLoop : Blind leaveLoop := by
  intro r t
  simp only [leaveLoop]
  rw [restage_calls, restage_exitLoop]
  cases r.machine.calls.exitLoop <;> rfl

theorem blind_setRegister (reg : Register) (v : Slot) : Blind (setRegister · reg v) := by
  intro r t
  simp only [setRegister]
  rw [restage_registers]
  cases r.machine.registers.set reg v <;> rfl

theorem blind_setVariable (token v : Slot) : Blind (setVariable · token v) := by
  intro r t
  simp only [setVariable]
  rw [restage_calls, restage_putVariable]
  cases r.machine.calls.putVariable token v <;> rfl

theorem blind_switchUnits (v : Slot) : Blind (switchUnits · v) := by
  intro r t
  simp only [switchUnits]
  rw [restage_registers]
  repeat' split
  all_goals rfl

theorem blind_store (dest v : Slot) : Blind (store · dest v) := by
  intro r t
  simp only [store]
  split
  · exact blind_switchUnits v r t
  · exact blind_setRegister _ v r t
  · exact blind_setVariable _ v r t
  · exact blind_setVariable _ v r t
  · rfl

theorem blind_pop (dest : Slot) : Blind (pop · dest) := by
  intro r t
  simp only [pop]
  rw [show (r.restage t).machine.stack = r.machine.stack from rfl]
  split
  · rfl
  · next rest _ =>
    split
    · exact blind_setRegister _ _ (r.setStack rest) t
    · exact blind_setVariable _ _ (r.setStack rest) t
    · exact blind_setVariable _ _ (r.setStack rest) t
    · rfl

theorem blind_applyOperator (v : Slot) : Blind (applyOperator · v) := by
  intro r t
  simp only [applyOperator]
  split <;> rfl

/-- A call that fails does so whatever is staged. -/
theorem restage_callRoutine {r : Rig} {p : Program} {i : Instruction}
    (fails : (r.callRoutine p i).2 ≠ .ok ()) (t : Scope) :
    (r.restage t).callRoutine p i = ((r.callRoutine p i).1.restage t, (r.callRoutine p i).2) := by
  simp only [callRoutine] at fails ⊢
  split
  · rfl
  · next n named =>
    simp only [named] at fails
    cases resolved : p.resolve n with
    | none => rfl
    | some entry =>
        rw [resolved] at fails
        exact absurd rfl fails

/-- An instruction that stages a parameter adds it to what is staged. -/
theorem restage_stageParam (r : Rig) (t : Scope) (i : Instruction) :
    ∃ t', (r.restage t).stageParam i = ((r.stageParam i).1.restage t', (r.stageParam i).2) := by
  simp only [stageParam]
  rw [restage_resolve]
  split
  · exact ⟨t, rfl⟩
  · next n _ =>
    split
    · exact ⟨t, rfl⟩
    · next v _ => exact ⟨t.insert n v, rfl⟩

theorem restage_returnFromRoutine (r : Rig) (t : Scope) :
    ∃ t', (r.restage t).returnFromRoutine =
      (r.returnFromRoutine.1.restage t', r.returnFromRoutine.2) := by
  simp only [returnFromRoutine]
  rw [restage_calls, show (r.machine.calls.restage t).unwindLoops =
    r.machine.calls.unwindLoops.restage t from restage_setInnermost _ t _, restage_pop]
  cases popped : r.machine.calls.unwindLoops.pop with
  | error f => exact ⟨t, rfl⟩
  | ok s =>
      -- Nothing is staged after a return.
      refine ⟨s.stagedScope, ?_⟩
      rfl

/-- No instruction sees what is staged, but for a call that succeeds. -/
theorem restage_execute {r : Rig} {p : Program} {i : Instruction}
    (fails : i.op = .call → (r.callRoutine p i).2 ≠ .ok ()) (t : Scope) :
    ∃ t', (r.restage t).execute p i = ((r.execute p i).1.restage t', (r.execute p i).2) := by
  cases op : i.op <;> simp only [execute, op]
  case nop => exact ⟨t, rfl⟩
  case breakpoint => exact ⟨t, rfl⟩
  case color => exact ⟨t, blind_color r t⟩
  case constant => exact ⟨t, blind_defineConstant i r t⟩
  case disc => exact ⟨t, blind_discover i r t⟩
  case discZone => exact ⟨t, blind_discoverZones i r t⟩
  case discNext => exact ⟨t, blind_discoverNext i r t⟩
  case discNextZone => exact ⟨t, blind_discoverNextZone i r t⟩
  case ret => exact r.restage_returnFromRoutine t
  case endLoop => exact ⟨t, blind_leaveLoop r t⟩
  case getColor => exact ⟨t, blind_getColor r t⟩
  case call => exact ⟨t, restage_callRoutine (fails op) t⟩
  case jump => exact ⟨t, blind_jump i r t⟩
  case loop =>
    refine ⟨t, ?_⟩
    rw [restage_calls, enterLoop, restage_setInnermost]
    rfl
  case move =>
    rw [restage_resolve]
    split
    · exact ⟨t, rfl⟩
    · exact ⟨t, blind_store i.second _ r t⟩
  case moveLiteral =>
    split
    · exact ⟨t, rfl⟩
    · exact ⟨t, blind_store i.second _ r t⟩
  case apply => exact ⟨t, blind_applyOperator i.first r t⟩
  case out => exact ⟨t, blind_out i.first i.second r t⟩
  case param => exact r.restage_stageParam t i
  case pause => exact ⟨t, blind_pause r t⟩
  case pop => exact ⟨t, blind_pop i.first r t⟩
  case power => exact ⟨t, blind_power r t⟩
  case push => exact ⟨t, blind_push i.first r t⟩
  case pushLiteral =>
    split
    · exact ⟨t, rfl⟩
    · exact ⟨t, rfl⟩
  case routine => exact ⟨t, rfl⟩
  case stop => exact ⟨t, rfl⟩
  case timePattern => exact ⟨t, blind_timePattern i r t⟩
  case wait => exact ⟨t, blind_wait r t⟩
  case unnamed => exact ⟨t, rfl⟩

theorem restage_stepAt {r : Rig} {p : Program} {i : Instruction} (pc : Int)
    (fails : i.op = .call → (r.callRoutine p i).2 ≠ .ok ()) (t : Scope) :
    ∃ t', (r.restage t).stepAt p pc i = ((r.stepAt p pc i).1.restage t', (r.stepAt p pc i).2) := by
  obtain ⟨t', executed⟩ := restage_execute fails t
  refine ⟨t', ?_⟩
  simp only [stepAt, executed]
  obtain ⟨r', outcome⟩ := r.execute p i
  cases outcome with
  | error e => rfl
  | ok _ =>
      simp only [advance]
      split <;> rfl

/-- A step that is no successful call does the same whatever is staged, and differs in nothing but
what is staged after it. -/
theorem restage_step {r : Rig} (other : ¬ r.Succeeds .call) (t : Scope) :
    ∃ t', (r.restage t).step = (r.step.1.restage t', r.step.2) := by
  -- Nothing that a step asks before it executes an instruction is about what is staged, so it takes
  -- the same branch either way.
  simp only [step]
  rw [show (r.restage t).machine.program = r.machine.program from rfl,
    show (r.restage t).machine.stopped = r.machine.stopped from rfl, restage_registers, restage_stage]
  split
  · exact ⟨t, rfl⟩
  · next p loaded =>
    split
    · exact ⟨t, rfl⟩
    · next running =>
      split
      · exact ⟨t, rfl⟩
      · next stage polled =>
        split
        · exact ⟨t, rfl⟩
        · next inRange =>
          split
          · exact ⟨t, rfl⟩
          · next i found =>
            have fetched : r.machine.instruction? = some i := by
              simp [Machine.instruction?, running, inRange, loaded, found]
            rw [restage_setStage]
            refine restage_stepAt _ ?_ t
            intro op called
            refine other ⟨⟨i, fetched, op⟩, ?_⟩
            refine step_ne_error loaded fetched polled ?_
            simpa only [execute, op] using called

end Rig

end Lightboard
