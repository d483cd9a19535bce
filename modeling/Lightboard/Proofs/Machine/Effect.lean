import Lightboard.Machine.Step

/-!
# What one instruction does to the machine

`Rig.Effect r p i m outcome` lists every way in which instruction `i` can change the machine of rig
`r`, together with how it ends. The instructions that talk to lights, clock, keyboard or output
change the stage, which is left out here: of the machine they change nothing, or the few fields that
a constructor names.

`execute_effect` shows that the list is complete. Invariants of the machine are proved by cases on
the list and never open a handler again.
-/

namespace Lightboard

namespace Machine

/-- Storing a value changes one register, the registers that have units, or one variable. -/
inductive Stored (m : Machine) (v : Slot) : Machine → Prop
  | register {reg : Register} {b : Registers} (set : m.registers.set reg v = .ok b) :
      Stored m v { m with registers := b }
  | units {mode : UnitMode} {b : Registers} (value : v = some (.unitMode mode))
      (switched : m.registers.switchUnits mode = .ok b) : Stored m v { m with registers := b }
  | variable {token : Slot} {s : CallStack} (put : m.calls.putVariable token v = .ok s) :
      Stored m v { m with calls := s }

/-- The instruction that a machine is about to execute. -/
def instruction? (m : Machine) : Option Instruction :=
  if m.stopped || decide (m.registers.pc < 0) then none
  else m.program.bind fun p => p.code[m.registers.pc.toNat]?

/-- The machine that has moved on after an instruction, unless that moved by itself. -/
def movedPast (m : Machine) (op : OpCode) : Machine :=
  if op.advances then { m with registers.pc := m.registers.pc + 1 } else m

@[simp] theorem movedPast_calls (m : Machine) (op : OpCode) : (m.movedPast op).calls = m.calls := by
  unfold movedPast
  split <;> rfl

@[simp] theorem movedPast_program (m : Machine) (op : OpCode) :
    (m.movedPast op).program = m.program := by
  unfold movedPast
  split <;> rfl

@[simp] theorem movedPast_pausing (m : Machine) (op : OpCode) :
    (m.movedPast op).pausing = m.pausing := by
  unfold movedPast
  split <;> rfl

@[simp] theorem movedPast_stopped (m : Machine) (op : OpCode) :
    (m.movedPast op).stopped = m.stopped := by
  unfold movedPast
  split <;> rfl

/-- How a run can end before it reaches an instruction. -/
def IsInterruption (m : Machine) (e : RunError) : Prop :=
  e = .noProgram ∨ e = .cancelled ∨ e = .deadline ∨ e = .counterOutOfRange m.registers.pc

end Machine

/-- Asking the context only counts how often it was asked. -/
theorem Stage.poll_eq (s : Stage) : s.poll.1 = { s with polls := s.poll.1.polls } := by
  unfold Stage.poll
  split
  · rfl
  · split <;> rfl

namespace Rig

/-- The machine that instruction `i` leaves, and whether the instruction succeeded. A constructor
that fixes no op-code in its premises stands for a change that several instructions can make. -/
inductive Effect (r : Rig) (p : Program) (i : Instruction) :
    Machine → Except RunError Unit → Prop
  /-- A failure before anything was written. -/
  | refused (e : RunError) : Effect r p i r.machine (.error e)
  /-- A success that concerns the stage only. -/
  | idle (op : i.op.advances = true) : Effect r p i r.machine (.ok ())
  | stopped (op : i.op = .stop ∨ i.op = .pause) :
      Effect r p i { r.machine with stopped := true } (.ok ())
  | unpaused (op : i.op = .pause) : Effect r p i { r.machine with pausing := false } (.ok ())
  | colored (op : i.op = .getColor) (c : Channels Float) :
      Effect r p i { r.machine with registers := r.machine.registers.setColor c } (.ok ())
  | found (op : i.op.advances = true) {v : Value}
      (value : v = .nothing ∨ (∃ t, v = .str t) ∨ ∃ x, v = .number x) :
      Effect r p i { r.machine with registers.result := some v } (.ok ())
  | timed (op : i.op = .timePattern) (t : TimePattern) :
      Effect r p i { r.machine with registers.time := .pattern t } (.ok ())
  | constant (op : i.op = .constant) {n : Text} {v : Slot} (name : name i.first = .ok n)
      (value : r.resolve i.second = .ok v) :
      Effect r p i { r.machine with calls := r.machine.calls.putConstant n v } (.ok ())
  | param (op : i.op = .param) {n : Text} {v : Slot} (name : name i.first = .ok n)
      (value : r.resolve i.second = .ok v) :
      Effect r p i { r.machine with calls := r.machine.calls.putParam n v } (.ok ())
  | called (op : i.op = .call) {n : Text} {entry : Int} (name : name i.first = .ok n)
      (resolved : p.resolve n = some entry) :
      Effect r p i
        { r.machine with
          calls := (r.machine.calls.setReturn (r.machine.registers.pc + 1)).push
          registers.pc := entry } (.ok ())
  | returned (op : i.op = .ret) {s : CallStack} (popped : r.machine.calls.unwindLoops.pop = .ok s) :
      Effect r p i
        { r.machine with
          calls := s, registers.pc := r.machine.calls.unwindLoops.getReturn } (.ok ())
  /-- A return where no call is open still leaves the loops. -/
  | unwound (op : i.op = .ret) {f : Fault} (underrun : r.machine.calls.unwindLoops.pop = .error f) :
      Effect r p i { r.machine with calls := r.machine.calls.unwindLoops } (.error (.fault f))
  | jumped (op : i.op = .jump) (pc : Int) :
      Effect r p i { r.machine with registers.pc := pc } (.ok ())
  | looped (op : i.op = .loop) :
      Effect r p i { r.machine with calls := r.machine.calls.enterLoop } (.ok ())
  | unlooped (op : i.op = .endLoop) {s : CallStack} (left : r.machine.calls.exitLoop = .ok s) :
      Effect r p i { r.machine with calls := s } (.ok ())
  | moved (op : i.op = .move) {v : Slot} {m : Machine} (value : r.resolve i.first = .ok v)
      (stored : r.machine.Stored v m) : Effect r p i m (.ok ())
  | movedLiteral (op : i.op = .moveLiteral) {v : Value} {m : Machine} (value : i.first = some v)
      (stored : r.machine.Stored (some v) m) : Effect r p i m (.ok ())
  | popped (op : i.op = .pop) {v : Slot} {rest : OperandStack} {m : Machine}
      (top : r.machine.stack = v :: rest) (stored : ({ r.machine with stack := rest }).Stored v m) :
      Effect r p i m (.ok ())
  /-- What was taken off the operand stack stays off if it cannot be stored. -/
  | dropped (op : i.op = .pop) {v : Slot} {rest : OperandStack} (e : RunError)
      (top : r.machine.stack = v :: rest) :
      Effect r p i { r.machine with stack := rest } (.error e)
  | pushed (op : i.op = .push) {v : Slot} (value : r.resolve i.first = .ok v) :
      Effect r p i { r.machine with stack := v :: r.machine.stack } (.ok ())
  | pushedLiteral (op : i.op = .pushLiteral) {v : Value} (value : i.first = some v) :
      Effect r p i { r.machine with stack := some v :: r.machine.stack } (.ok ())
  | applied (op : i.op = .apply) {o : Operator} (operator : i.first = some (.operator o)) :
      Effect r p i { r.machine with stack := (OperandStack.apply o r.machine.stack).1 }
        (OperandStack.apply o r.machine.stack).2
  | buffered (op : i.op = .out) {v : Slot} (value : r.resolve i.second = .ok v) :
      Effect r p i { r.machine with buffer := r.machine.buffer ++ [v] } (.ok ())
  | printed (op : i.op = .out) (outcome : Except RunError Unit) :
      Effect r p i { r.machine with buffer := [] } outcome

@[simp] theorem note_machine (r : Rig) (e : Entry) : (r.note e).machine = r.machine := rfl

@[simp] theorem warn_machine (r : Rig) (message : String) (details : List (Text × Detail)) :
    (r.warn message details).machine = r.machine := rfl

@[simp] theorem noteFailure_machine (r : Rig) (message : String) (light : Text)
    (outcome : Except Text Unit) : (r.noteFailure message light outcome).machine = r.machine := by
  cases outcome <;> rfl

@[simp] theorem lightsOf_machine (r : Rig) (what : Text) (names : List Text) :
    (r.lightsOf what names).1.machine = r.machine := by
  induction names generalizing r with
  | nil => rfl
  | cons n ns ih =>
      unfold lightsOf
      split
      · exact ih r
      · exact ih _

theorem targets_machine {r r' : Rig} {what : Text} {lights : List Light}
    (h : r.targets what = .ok (r', lights)) : r'.machine = r.machine := by
  -- Every branch of addressing either notes something or looks names up.
  unfold targets at h
  repeat' split at h
  all_goals first | contradiction | skip
  all_goals
    have same := congrArg (fun q : Rig × List Light => q.1.machine) (Except.ok.inj h)
    simpa only [lightsOf_machine, warn_machine] using same.symm

@[simp] theorem colorLight_machine (r : Rig) (zoned : Bool) (c : Color) (ns : Int) (l : Light) :
    (r.colorLight zoned c ns l).machine = r.machine := by
  unfold colorLight
  repeat' split
  all_goals simp

@[simp] theorem powerLight_machine (r : Rig) (level : UInt16) (ns : Int) (l : Light) :
    (r.powerLight level ns l).machine = r.machine := by
  simp [powerLight]

/-- Commands given to lights one after the other leave the machine alone if each of them does. -/
theorem foldl_machine {f : Rig → Light → Rig} (h : ∀ r l, (f r l).machine = r.machine)
    (lights : List Light) (r : Rig) : (lights.foldl f r).machine = r.machine := by
  induction lights generalizing r with
  | nil => rfl
  | cons l ls ih => rw [List.foldl_cons, ih, h]

theorem color_machine (r : Rig) : r.color.1.machine = r.machine := by
  unfold color
  split
  · rfl
  · split
    · rfl
    · next targeted =>
      rw [← targets_machine targeted]
      exact foldl_machine (fun r l => colorLight_machine r _ _ _ l) _ _

theorem power_machine (r : Rig) : r.power.1.machine = r.machine := by
  unfold power
  split
  · rfl
  · next targeted =>
    rw [← targets_machine targeted]
    exact foldl_machine (fun r l => powerLight_machine r _ _ l) _ _

theorem wait_machine (r : Rig) : r.wait.1.machine = r.machine := by
  simp only [wait]
  split <;> rfl

/-- An instruction that advances and leaves the machine alone has an effect of the list, however it
ends. -/
theorem Effect.of_same {r : Rig} {p : Program} {i : Instruction} {o : Outcome}
    (op : i.op.advances = true) (same : o.1.machine = r.machine) :
    r.Effect p i o.1.machine o.2 := by
  rw [same]
  match o.2 with
  | .ok () => exact .idle op
  | .error e => exact .refused e

/-- How an attempt to store a value on rig `r` ends: it succeeds, or leaves everything as it was. -/
def Stores (r : Rig) (v : Slot) (o : Outcome) : Prop :=
  (o.2 = .ok () ∧ r.machine.Stored v o.1.machine) ∨ ∃ e, o = r.fail e

theorem setRegister_stores (r : Rig) (reg : Register) (v : Slot) :
    r.Stores v (r.setRegister reg v) := by
  unfold setRegister
  split
  · next set => exact .inl ⟨rfl, .register set⟩
  · exact .inr ⟨_, rfl⟩

theorem setVariable_stores (r : Rig) (token v : Slot) :
    r.Stores v (r.setVariable token v) := by
  unfold setVariable
  split
  · next put => exact .inl ⟨rfl, .variable put⟩
  · exact .inr ⟨_, rfl⟩

theorem switchUnits_stores (r : Rig) (v : Slot) : r.Stores v (r.switchUnits v) := by
  unfold switchUnits
  split
  · split
    · next switched => exact .inl ⟨rfl, .units rfl switched⟩
    · exact .inr ⟨_, rfl⟩
  · exact .inr ⟨_, rfl⟩

theorem store_stores (r : Rig) (dest v : Slot) : r.Stores v (r.store dest v) := by
  unfold store
  split
  · exact r.switchUnits_stores v
  · exact r.setRegister_stores _ v
  · exact r.setVariable_stores _ v
  · exact r.setVariable_stores _ v
  · exact .inr ⟨_, rfl⟩

section

variable {r : Rig} {p : Program} {i : Instruction}

theorem pause_effect (op : i.op = .pause) : r.Effect p i r.pause.1.machine r.pause.2 := by
  have advances : i.op.advances = true := by rw [op]; rfl
  simp only [pause]
  split
  · exact .idle advances
  · split
    · -- A key: only `q` and `!` mean something.
      simp only [pressed, done]
      split
      · exact .stopped (.inr op)
      · split
        · exact .unpaused op
        · exact .idle advances
    · exact .unpaused op
    · exact .refused _

theorem fail_effect {r' : Rig} (same : r'.machine = r.machine) (e : RunError) :
    r.Effect p i (r'.fail e).1.machine (r'.fail e).2 := by
  change r.Effect p i r'.machine (.error e)
  rw [same]
  exact .refused e

theorem takeColor_effect (op : i.op = .getColor) {r' : Rig} (same : r'.machine = r.machine)
    (c : Color) : r.Effect p i (r'.takeColor c).1.machine (r'.takeColor c).2 := by
  unfold takeColor
  split
  · exact fail_effect same _
  · next b read =>
    unfold readColor at read
    simp only at read
    split at read
    · cases read
    · obtain rfl := Except.ok.inj read
      change r.Effect p i { r'.machine with registers := _ } _
      rw [same]
      exact .colored op _

theorem getColor_effect (op : i.op = .getColor) :
    r.Effect p i r.getColor.1.machine r.getColor.2 := by
  have advances : i.op.advances = true := by rw [op]; rfl
  simp only [getColor]
  split
  · exact .idle advances
  · split
    · exact .refused _
    · split
      · exact .idle advances
      · simp only [getColorOf]
        split
        · split
          · split
            · exact .idle advances
            · exact .idle advances
            · exact takeColor_effect op (by rfl) _
          · exact .idle advances
        · split
          · exact .idle advances
          · exact takeColor_effect op (by rfl) _

/-- A name found is a text or nothing. -/
theorem nameValue_eq (n : Option Text) : ∃ v, nameValue n = some v ∧
    (v = .nothing ∨ (∃ t, v = .str t) ∨ ∃ x, v = .number x) := by
  cases n with
  | none => exact ⟨_, rfl, .inl rfl⟩
  | some t => exact ⟨_, rfl, .inr (.inl ⟨t, rfl⟩)⟩

/-- A zone found is a number or nothing. -/
theorem zoneValue_eq (n : Option Int) : ∃ v, zoneValue n = some v ∧
    (v = .nothing ∨ (∃ t, v = .str t) ∨ ∃ x, v = .number x) := by
  cases n with
  | none => exact ⟨_, rfl, .inl rfl⟩
  | some z => exact ⟨_, rfl, .inr (.inr ⟨_, rfl⟩)⟩

theorem setResult_effect (op : i.op.advances = true) {r' : Rig} (same : r'.machine = r.machine)
    {s : Slot} (value : ∃ v, s = some v ∧ (v = .nothing ∨ (∃ t, v = .str t) ∨ ∃ x, v = .number x)) :
    r.Effect p i (r'.setResult s).done.1.machine (r'.setResult s).done.2 := by
  obtain ⟨v, rfl, kind⟩ := value
  change r.Effect p i { r'.machine with registers.result := some v } (.ok ())
  rw [same]
  exact .found op kind

theorem discover_effect (op : i.op.advances = true) :
    r.Effect p i (r.discover i).1.machine (r.discover i).2 := by
  unfold discover
  split
  · exact .refused _
  · exact setResult_effect op rfl (nameValue_eq _)

theorem discoverNext_effect (op : i.op.advances = true) :
    r.Effect p i (r.discoverNext i).1.machine (r.discoverNext i).2 := by
  unfold discoverNext
  split
  · exact .refused _
  · split
    · exact .refused _
    · exact setResult_effect op rfl (nameValue_eq _)
    · exact setResult_effect op rfl ⟨_, rfl, .inl rfl⟩

theorem zoneLight_machine {r' : Rig} {v : Slot} {light : Option Light}
    (h : r.zoneLight v = .ok (r', light)) : r'.machine = r.machine := by
  unfold zoneLight at h
  split at h
  · cases h
  · split at h
    all_goals
      obtain ⟨rfl, -⟩ := Prod.mk.inj (Except.ok.inj h)
      rfl
  · cases h

theorem discoverZones_effect (op : i.op.advances = true) :
    r.Effect p i (r.discoverZones i).1.machine (r.discoverZones i).2 := by
  unfold discoverZones
  split
  · exact .refused _
  · next lit => exact setResult_effect op (zoneLight_machine lit) (zoneValue_eq _)

theorem discoverNextZone_effect (op : i.op.advances = true) :
    r.Effect p i (r.discoverNextZone i).1.machine (r.discoverNextZone i).2 := by
  unfold discoverNextZone
  split
  · exact .refused _
  · next lit =>
    split
    · exact fail_effect (zoneLight_machine lit) _
    · exact setResult_effect op (zoneLight_machine lit) (zoneValue_eq _)

theorem timePattern_effect (op : i.op = .timePattern) :
    r.Effect p i (r.timePattern i).1.machine (r.timePattern i).2 := by
  unfold timePattern
  split
  · split
    · exact .refused _
    · split
      · exact .refused _
      · split
        · exact .timed op _
        · exact .timed op _
        · exact .refused _
  · exact .refused _

theorem defineConstant_effect (op : i.op = .constant) :
    r.Effect p i (r.defineConstant i).1.machine (r.defineConstant i).2 := by
  unfold defineConstant
  split
  · exact .refused _
  · next named =>
    split
    · exact .refused _
    · next resolved => exact .constant op named resolved

theorem stageParam_effect (op : i.op = .param) :
    r.Effect p i (r.stageParam i).1.machine (r.stageParam i).2 := by
  unfold stageParam
  split
  · exact .refused _
  · next named =>
    split
    · exact .refused _
    · next resolved => exact .param op named resolved

theorem callRoutine_effect (op : i.op = .call) :
    r.Effect p i (r.callRoutine p i).1.machine (r.callRoutine p i).2 := by
  unfold callRoutine
  split
  · exact .refused _
  · next named =>
    split
    · exact .refused _
    · next resolved => exact .called op named resolved

theorem returnFromRoutine_effect (op : i.op = .ret) :
    r.Effect p i r.returnFromRoutine.1.machine r.returnFromRoutine.2 := by
  simp only [returnFromRoutine]
  split
  · next underrun => exact .unwound op underrun
  · next popped => exact .returned op popped

theorem jump_effect (op : i.op = .jump) : r.Effect p i (r.jump i).1.machine (r.jump i).2 := by
  unfold jump jumpIndirect jumpRelative
  split
  · split
    · exact .refused _
    · split
      · exact .jumped op _
      · exact .refused _
  · split
    · exact .refused _
    · split
      · exact .refused _
      · exact .jumped op _
      · exact .jumped op _
  · exact .refused _

theorem leaveLoop_effect (op : i.op = .endLoop) :
    r.Effect p i r.leaveLoop.1.machine r.leaveLoop.2 := by
  unfold leaveLoop
  split
  · exact .refused _
  · next left => exact .unlooped op left

theorem push_effect (op : i.op = .push) :
    r.Effect p i (r.push i.first).1.machine (r.push i.first).2 := by
  unfold push
  split
  · exact .refused _
  · split
    · exact .refused _
    · next resolved => exact .pushed op resolved

theorem move_effect (op : i.op = .move) {v : Slot} (value : r.resolve i.first = .ok v) :
    r.Effect p i (r.store i.second v).1.machine (r.store i.second v).2 := by
  obtain ⟨ok, stored⟩ | ⟨e, failed⟩ := r.store_stores i.second v
  · rw [ok]
    exact .moved op value stored
  · rw [failed]
    exact .refused e

theorem moveLiteral_effect (op : i.op = .moveLiteral) {v : Value} (value : i.first = some v) :
    r.Effect p i (r.store i.second (some v)).1.machine (r.store i.second (some v)).2 := by
  obtain ⟨ok, stored⟩ | ⟨e, failed⟩ := r.store_stores i.second (some v)
  · rw [ok]
    exact .movedLiteral op value stored
  · rw [failed]
    exact .refused e

/-- Storing what was just taken off the operand stack. -/
theorem popped_effect (op : i.op = .pop) {v : Slot} {rest : OperandStack}
    (top : r.machine.stack = v :: rest) {o : Outcome} (stores : (r.setStack rest).Stores v o) :
    r.Effect p i o.1.machine o.2 := by
  obtain ⟨ok, stored⟩ | ⟨e, rfl⟩ := stores
  · rw [ok]
    exact .popped op top stored
  · exact .dropped op e top

theorem pop_effect (op : i.op = .pop) :
    r.Effect p i (r.pop i.first).1.machine (r.pop i.first).2 := by
  unfold pop
  cases top : r.machine.stack with
  | nil => exact .refused _
  | cons v rest =>
      simp only [OperandStack.pop]
      split
      · exact popped_effect op top (setRegister_stores _ _ v)
      · exact popped_effect op top (setVariable_stores _ _ v)
      · exact popped_effect op top (setVariable_stores _ _ v)
      · exact popped_effect op top (.inr ⟨_, rfl⟩)

theorem applyOperator_effect (op : i.op = .apply) :
    r.Effect p i (r.applyOperator i.first).1.machine (r.applyOperator i.first).2 := by
  cases given : i.first with
  | none => exact .refused _
  | some v =>
      unfold applyOperator
      split
      · next o operator => exact .applied op (given.trans operator)
      · exact .refused _

theorem printFirst_effect (op : i.op = .out) (trailer : Text) :
    r.Effect p i (r.printFirst trailer).1.machine (r.printFirst trailer).2 := by
  unfold printFirst
  split
  · exact .refused _
  · exact .printed op _

theorem out_effect (op : i.op = .out) :
    r.Effect p i (r.out i.first i.second).1.machine (r.out i.first i.second).2 := by
  unfold out
  split
  · cases given : i.second with
    | none => exact .refused _
    | some v =>
        unfold outRegister
        split
        · next reg register =>
          obtain rfl := Option.some.inj register
          split
          · next held => exact .buffered op (by rw [given]; simp only [resolve, held])
          · exact .refused _
        · exact .refused _
  · unfold outLiteral
    split
    · exact .refused _
    · split
      · next resolved => exact .buffered op resolved
      · exact .refused _
  · split
    · exact printFirst_effect op _
    · exact printFirst_effect op _
  · exact printFirst_effect op _
  · split
    · exact .printed op _
    · exact .refused _
  · exact .refused _
  · exact .refused _

end

/-- The list of effects is complete. -/
theorem execute_effect (r : Rig) (p : Program) (i : Instruction) :
    r.Effect p i (r.execute p i).1.machine (r.execute p i).2 := by
  cases op : i.op <;> simp only [execute, op]
  case nop => exact .idle (by rw [op]; rfl)
  case breakpoint => exact .idle (by rw [op]; rfl)
  case color => exact .of_same (by rw [op]; rfl) r.color_machine
  case constant => exact defineConstant_effect op
  case disc => exact discover_effect (by rw [op]; rfl)
  case discZone => exact discoverZones_effect (by rw [op]; rfl)
  case discNext => exact discoverNext_effect (by rw [op]; rfl)
  case discNextZone => exact discoverNextZone_effect (by rw [op]; rfl)
  case ret => exact returnFromRoutine_effect op
  case endLoop => exact leaveLoop_effect op
  case getColor => exact getColor_effect op
  case call => exact callRoutine_effect op
  case jump => exact jump_effect op
  case loop => exact .looped op
  case move =>
    split
    · exact .refused _
    · next resolved => exact move_effect op resolved
  case moveLiteral =>
    split
    · exact .refused _
    · next given => exact moveLiteral_effect op given
  case apply => exact applyOperator_effect op
  case out => exact out_effect op
  case param => exact stageParam_effect op
  case pause => exact pause_effect op
  case pop => exact pop_effect op
  case power => exact .of_same (by rw [op]; rfl) r.power_machine
  case push => exact push_effect op
  case pushLiteral =>
    split
    · exact .refused _
    · next given => exact .pushedLiteral op given
  case routine => exact .idle (by rw [op]; rfl)
  case stop => exact .stopped (.inl op)
  case timePattern => exact timePattern_effect op
  case wait => exact .of_same (by rw [op]; rfl) r.wait_machine
  case unnamed => exact .refused _

@[simp] theorem advance_machine (r : Rig) (op : OpCode) :
    (r.advance op).machine = r.machine.movedPast op := by
  unfold advance Machine.movedPast
  split <;> rfl

/-- The machine that a step leaves, and how the step ends. The stage an instruction finds is not the
one before the step, as the context was asked in between. -/
inductive Stepped (r : Rig) : Machine → StepResult → Prop
  | ended (none : r.machine.instruction? = none) : Stepped r r.machine .stop
  | interrupted {e : RunError} (h : r.machine.IsInterruption e) : Stepped r r.machine (.error e)
  | failed {p : Program} {i : Instruction} {stage : Stage} {m : Machine} {e : RunError}
      (loaded : r.machine.program = some p) (fetched : r.machine.instruction? = some i)
      (effect : ({ r with stage := stage }).Effect p i m (.error e)) :
      Stepped r m (.error (.instruction r.machine.registers.pc i.op e))
  | done {p : Program} {i : Instruction} {stage : Stage} {m : Machine} {result : StepResult}
      (loaded : r.machine.program = some p) (fetched : r.machine.instruction? = some i)
      (effect : ({ r with stage := stage }).Effect p i m (.ok ()))
      (kind : result = .goOn ∨ result = .stop) : Stepped r (m.movedPast i.op) result

theorem poll_interruption {s s' : Stage} {e : RunError} (m : Machine)
    (h : s.poll = (s', .error e)) :
    m.IsInterruption e := by
  unfold Stage.poll at h
  repeat' split at h
  all_goals cases (Prod.mk.inj h).2
  · exact .inr (.inl rfl)
  · exact .inr (.inr (.inl rfl))

theorem stepAt_stepped {r : Rig} {p : Program} {i : Instruction} {stage : Stage}
    (loaded : r.machine.program = some p) (fetched : r.machine.instruction? = some i) :
    let s := ({ r with stage := stage }).stepAt p r.machine.registers.pc i
    r.Stepped s.1.machine s.2 := by
  have effect := ({ r with stage := stage }).execute_effect p i
  simp only [stepAt]
  split
  · next executed =>
    rw [executed] at effect
    exact .failed loaded fetched effect
  · next executed =>
    rw [executed] at effect
    rw [advance_machine]
    refine .done loaded fetched effect ?_
    split
    · exact .inr rfl
    · exact .inl rfl

/-- A step fails at an instruction if that fails, and tells where it was. -/
theorem stepAt_error_iff {r : Rig} {p : Program} {pc : Int} {i : Instruction} {e : RunError} :
    (r.stepAt p pc i).2 = .error e ↔
      ∃ cause, (r.execute p i).2 = .error cause ∧ e = .instruction pc i.op cause := by
  unfold stepAt
  split
  · next executed =>
    rw [executed]
    constructor
    · rintro ⟨⟩
      exact ⟨_, rfl, rfl⟩
    · rintro ⟨cause, ⟨⟩, rfl⟩
      rfl
  · next executed =>
    rw [executed]
    constructor
    · intro failed
      simp only at failed
      split at failed <;> cases failed
    · rintro ⟨cause, ⟨⟩, -⟩

theorem stepAt_stage (r : Rig) (p : Program) (pc : Int) (i : Instruction) :
    (r.stepAt p pc i).1.stage = (r.execute p i).1.stage := by
  unfold stepAt
  split
  · next failed => rw [failed]
  · next succeeded =>
    rw [succeeded]
    unfold advance
    split <;> rfl

/-- The machine that an instruction leaves after it has succeeded. -/
theorem stepAt_of_ok {r : Rig} {p : Program} {i : Instruction} (executed : (r.execute p i).2 = .ok ()) (pc : Int) :
    (r.stepAt p pc i).1.machine = (r.execute p i).1.machine.movedPast i.op ∧
      (r.stepAt p pc i).2 =
        if (r.execute p i).1.machine.stopped = true then .stop else .goOn := by
  obtain ⟨r', same⟩ : ∃ r', r.execute p i = (r', .ok ()) := ⟨_, Prod.ext rfl executed⟩
  simp only [stepAt, same, advance_machine, Machine.movedPast_stopped, true_and]

/-- How a step goes. Before an instruction is executed the context is asked whether to go on. -/
inductive Goes (r : Rig) : Rig × StepResult → Prop
  | ended (none : r.machine.instruction? = none) (stage : Stage) :
      Goes r ({ r with stage := stage }, .stop)
  | interrupted {e : RunError} (h : r.machine.IsInterruption e) {stage : Stage}
      (asked : stage = r.stage ∨ stage = r.stage.poll.1) :
      Goes r ({ r with stage := stage }, .error e)
  | executed {p : Program} {i : Instruction} {stage : Stage} (loaded : r.machine.program = some p)
      (fetched : r.machine.instruction? = some i) (polled : r.stage.poll = (stage, .ok ())) :
      Goes r (({ r with stage := stage }).stepAt p r.machine.registers.pc i)

theorem step_goes (r : Rig) : r.Goes r.step := by
  simp only [step]
  split
  · exact .interrupted (.inl rfl) (.inl rfl)
  · next p loaded =>
    split
    · next halted => exact .ended (by simp [Machine.instruction?, halted]) r.stage
    · next running =>
      split
      · next polled =>
        exact .interrupted (poll_interruption _ polled) (.inr (by rw [polled]))
      · next polled =>
        split
        · exact .interrupted (.inr (.inr (.inr rfl))) (.inr (by rw [polled]))
        · next inRange =>
          have fetch : r.machine.instruction? = p.code[r.machine.registers.pc.toNat]? := by
            simp [Machine.instruction?, running, inRange, loaded]
          split
          · next past => exact .ended (fetch.trans past) _
          · next i found => exact .executed loaded (fetch.trans found) polled

/-- An instruction that is found is executed, if the context lets the run go on. -/
theorem step_eq_stepAt {r : Rig} {p : Program} {i : Instruction} {stage : Stage}
    (loaded : r.machine.program = some p) (fetched : r.machine.instruction? = some i)
    (polled : r.stage.poll = (stage, .ok ())) :
    r.step = ({ r with stage := stage }).stepAt p r.machine.registers.pc i := by
  unfold Machine.instruction? at fetched
  split at fetched
  · cases fetched
  · next running =>
    obtain ⟨going, inRange⟩ : r.machine.stopped = false ∧ ¬ r.machine.registers.pc < 0 := by
      simpa using running
    rw [loaded, Option.bind_some] at fetched
    simp [step, loaded, going, polled, inRange, fetched]

theorem step_ne_error {r : Rig} {p : Program} {i : Instruction} {stage : Stage}
    (loaded : r.machine.program = some p) (fetched : r.machine.instruction? = some i)
    (polled : r.stage.poll = (stage, .ok ()))
    (executed : (({ r with stage := stage }).execute p i).2 = .ok ()) (e : RunError) :
    r.step.2 ≠ .error e := by
  intro failed
  rw [step_eq_stepAt loaded fetched polled] at failed
  obtain ⟨cause, failed, -⟩ := stepAt_error_iff.mp failed
  cases executed.symm.trans failed

/-- A step that fails was interrupted, or the instruction at the program counter failed. -/
theorem step_of_error {r : Rig} {e : RunError} (failed : r.step.2 = .error e) :
    r.machine.IsInterruption e ∨ ∃ p i stage cause, r.machine.program = some p ∧
      r.machine.instruction? = some i ∧
      (({ r with stage := stage }).execute p i).2 = .error cause ∧
      e = .instruction r.machine.registers.pc i.op cause := by
  have goes := r.step_goes
  generalize r.step = o at goes failed
  cases goes with
  | ended => cases failed
  | interrupted h =>
      cases failed
      exact .inl h
  | @executed p i stage loaded fetched =>
      obtain ⟨cause, executed, rfl⟩ := stepAt_error_iff.mp failed
      exact .inr ⟨p, i, stage, cause, loaded, fetched, executed, rfl⟩

/-- A step that does not fail finds no instruction, or the one at the program counter succeeds. -/
theorem step_of_ok {r : Rig} (succeeded : ∀ e, r.step.2 ≠ .error e) :
    (r.machine.instruction? = none ∧ r.step.1.machine = r.machine) ∨ ∃ p i stage,
      r.machine.program = some p ∧ r.machine.instruction? = some i ∧
      (({ r with stage := stage }).execute p i).2 = .ok () ∧
      r.step.1.machine = (({ r with stage := stage }).execute p i).1.machine.movedPast i.op := by
  have goes := r.step_goes
  generalize r.step = o at goes succeeded
  cases goes with
  | ended none => exact .inl ⟨none, rfl⟩
  | interrupted => exact absurd rfl (succeeded _)
  | @executed p i stage loaded fetched =>
      refine .inr ⟨p, i, stage, loaded, fetched, ?_⟩
      simp only [stepAt] at succeeded ⊢
      split at succeeded
      · exact absurd rfl (succeeded _)
      · next executed => simp only [executed, advance_machine, and_self]

/-- The next step executes an instruction of the kind, and does not fail. -/
def Succeeds (r : Rig) (op : OpCode) : Prop :=
  (∃ i, r.machine.instruction? = some i ∧ i.op = op) ∧ ∀ e, r.step.2 ≠ .error e

/-- Every step either executes one instruction or none. -/
theorem step_stepped (r : Rig) : r.Stepped r.step.1.machine r.step.2 := by
  have goes := r.step_goes
  generalize r.step = o at goes
  cases goes with
  | ended none => exact .ended none
  | interrupted h => exact .interrupted h
  | executed loaded fetched => exact stepAt_stepped loaded fetched

theorem Effect.program {r : Rig} {p : Program} {i : Instruction} {m : Machine}
    {outcome : Except RunError Unit} (effect : r.Effect p i m outcome) :
    m.program = r.machine.program := by
  cases effect with
  | moved _ _ stored => cases stored <;> rfl
  | movedLiteral _ _ stored => cases stored <;> rfl
  | popped _ _ stored => cases stored <;> rfl
  | _ => rfl

/-- No step changes the program. -/
theorem Stepped.program {r : Rig} {m : Machine} {result : StepResult}
    (stepped : r.Stepped m result) :
    m.program = r.machine.program := by
  cases stepped with
  | ended => rfl
  | interrupted => rfl
  | failed _ _ effect => exact effect.program
  | done _ _ effect _ => rw [Machine.movedPast_program, effect.program]

/-- A machine that takes one step after the other. Between two steps the stage may change by itself:
keys arrive, lights are changed by others, the context ends. -/
def IsRun (run : Nat → Rig) : Prop := ∀ k, (run (k + 1)).machine = (run k).step.1.machine

/-- The rig after so many steps with nothing happening in between. -/
def afterSteps (r : Rig) : Nat → Rig
  | 0 => r
  | k + 1 => (r.afterSteps k).step.1

theorem isRun_afterSteps (r : Rig) : IsRun r.afterSteps := fun _ => rfl

theorem IsRun.stepped {run : Nat → Rig} (h : IsRun run) (k : Nat) :
    (run k).Stepped (run (k + 1)).machine (run k).step.2 := by
  rw [h k]
  exact (run k).step_stepped

/-- What holds at the start and is kept by every step holds throughout a run. -/
theorem IsRun.invariant {run : Nat → Rig} (h : IsRun run) {P : Machine → Prop}
    (start : P (run 0).machine)
    (keeps : ∀ {r : Rig} {m : Machine} {result : StepResult},
      r.Stepped m result → P r.machine → P m) :
    ∀ k, P (run k).machine := by
  intro k
  induction k with
  | zero => exact start
  | succ k ih => exact keeps (h.stepped k) ih

/-- The program of a run is the one it started with. -/
theorem IsRun.program {run : Nat → Rig} (h : IsRun run) {m : Machine} {p : Program}
    (start : (run 0).machine = m.load p) (k : Nat) : (run k).machine.program = some p := by
  refine h.invariant (P := fun m => m.program = some p) ?_ ?_ k
  · rw [start]
    rfl
  · intro r m result stepped before
    exact stepped.program.trans before

end Rig

end Lightboard
