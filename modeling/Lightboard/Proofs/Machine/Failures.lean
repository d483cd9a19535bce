import Lightboard.Proofs.Machine.CallBalance

/-!
# What a failed step leaves

An instruction looks at everything it needs before it writes. So a step that fails leaves the machine
and the lights as they were, and the program counter still at the instruction that failed. Four
instructions write before they can know that they succeed: what `POP` and the operators on two values
took off the operand stack stays off, `END` leaves the loops before it looks for a call, and
`PRINTF` empties the buffer whether or not the output takes the text.

`Rig.leftBy` says in one place what each failed instruction leaves.
-/

namespace Lightboard

namespace Rig

/-- The machine after an instruction that failed. -/
def leftBy (r : Rig) (i : Instruction) : Machine :=
  match i.op, i.first, i.second with
  | .pop, _, _ => { r.machine with stack := r.machine.stack.tail }
  | .apply, some (.operator op), _ =>
    if op.isUnary then r.machine else { r.machine with stack := r.machine.stack.drop 2 }
  | .ret, _, _ =>
    if r.machine.calls.calls.isEmpty then { r.machine with calls := r.machine.calls.unwindLoops }
    else r.machine
  | .out, some (.io .printf), some (.str _) =>
    if r.stage.outputFailure.isSome then { r.machine with buffer := [] } else r.machine
  | _, _, _ => r.machine

/-- If the outcome of an attempt on rig `r` is a failure, it leaves machine `m`, and the lights of
`r`. -/
def FailsWith (r : Rig) (m : Machine) (o : Outcome) : Prop :=
  ∀ e, o.2 = .error e → o.1.machine = m ∧ o.1.stage.lights = r.stage.lights

variable {r : Rig} {m : Machine}

theorem failsWith_done (r' : Rig) : r.FailsWith m r'.done := by
  intro e failed
  cases failed

theorem failsWith_fail {r' : Rig} (machine : r'.machine = m)
    (lights : r'.stage.lights = r.stage.lights) (e : RunError) : r.FailsWith m (r'.fail e) := by
  intro e' _
  exact ⟨machine, lights⟩

/-- A failure on the rig itself leaves everything. -/
theorem failsWith_refused (e : RunError) : r.FailsWith r.machine (r.fail e) :=
  failsWith_fail rfl rfl e

/-- An attempt that either succeeds or fails on the rig itself. -/
theorem failsWith_of_stores {v : Slot} {o : Outcome} (stores : r.Stores v o) :
    r.FailsWith r.machine o := by
  obtain ⟨ok, -⟩ | ⟨e, rfl⟩ := stores
  · intro e failed
    rw [ok] at failed
    cases failed
  · exact failsWith_refused e

-- A command to lights fails only while the lights it addresses are looked up.
theorem color_failsWith (r : Rig) : r.FailsWith r.machine r.color := by
  unfold color
  split
  · exact failsWith_refused _
  · split
    · exact failsWith_refused _
    · exact failsWith_done _

theorem power_failsWith (r : Rig) : r.FailsWith r.machine r.power := by
  unfold power
  split
  · exact failsWith_refused _
  · exact failsWith_done _

theorem takeColor_failsWith {r' : Rig} (machine : r'.machine = r.machine)
    (lights : r'.stage.lights = r.stage.lights) (c : Color) :
    r.FailsWith r.machine (r'.takeColor c) := by
  unfold takeColor
  split
  · exact failsWith_fail machine lights _
  · exact failsWith_done _

theorem getZones_lights (s : Stage) (l : Light) (first last : Int) :
    (s.getZones l first last).1.lights = s.lights := by
  simp only [Stage.getZones]
  split
  · rfl
  · split
    · rfl
    · rfl

theorem readLight_lights (s : Stage) (l : Light) : (s.getColor l).1.lights = s.lights := by
  simp only [Stage.getColor]
  split
  · rfl
  · rfl

/-- Reading a color fails only after the light has answered, when there is no unit mode to put the
answer in. -/
theorem getColor_failsWith (r : Rig) : r.FailsWith r.machine r.getColor := by
  simp only [getColor]
  split
  · exact failsWith_done _
  · split
    · exact failsWith_refused _
    · split
      · exact failsWith_done _
      · simp only [getColorOf]
        split
        · split
          · split
            · exact failsWith_done _
            · exact failsWith_done _
            · exact takeColor_failsWith (by rfl) (getZones_lights r.stage _ _ _) _
          · exact failsWith_done _
        · split
          · exact failsWith_done _
          · exact takeColor_failsWith (by rfl) (readLight_lights r.stage _) _

theorem discover_failsWith (r : Rig) (i : Instruction) :
    r.FailsWith r.machine (r.discover i) := by
  unfold discover
  split
  · exact failsWith_refused _
  · exact failsWith_done _

theorem discoverNext_failsWith (r : Rig) (i : Instruction) :
    r.FailsWith r.machine (r.discoverNext i) := by
  unfold discoverNext
  split
  · exact failsWith_refused _
  · split
    · exact failsWith_refused _
    · exact failsWith_done _
    · exact failsWith_done _

theorem zoneLight_lights {r' : Rig} {v : Slot} {light : Option Light}
    (h : r.zoneLight v = .ok (r', light)) : r'.stage.lights = r.stage.lights := by
  unfold zoneLight at h
  split at h
  · cases h
  · split at h
    all_goals
      obtain ⟨rfl, -⟩ := Prod.mk.inj (Except.ok.inj h)
      rfl
  · cases h

theorem discoverZones_failsWith (r : Rig) (i : Instruction) :
    r.FailsWith r.machine (r.discoverZones i) := by
  unfold discoverZones
  split
  · exact failsWith_refused _
  · exact failsWith_done _

theorem discoverNextZone_failsWith (r : Rig) (i : Instruction) :
    r.FailsWith r.machine (r.discoverNextZone i) := by
  unfold discoverNextZone
  split
  · exact failsWith_refused _
  · next lit =>
    split
    · exact failsWith_fail (zoneLight_machine lit) (zoneLight_lights lit) _
    · exact failsWith_done _

theorem defineConstant_failsWith (r : Rig) (i : Instruction) :
    r.FailsWith r.machine (r.defineConstant i) := by
  unfold defineConstant
  split
  · exact failsWith_refused _
  · split
    · exact failsWith_refused _
    · exact failsWith_done _

theorem stageParam_failsWith (r : Rig) (i : Instruction) :
    r.FailsWith r.machine (r.stageParam i) := by
  unfold stageParam
  split
  · exact failsWith_refused _
  · split
    · exact failsWith_refused _
    · exact failsWith_done _

theorem callRoutine_failsWith (r : Rig) (p : Program) (i : Instruction) :
    r.FailsWith r.machine (r.callRoutine p i) := by
  unfold callRoutine
  split
  · exact failsWith_refused _
  · split
    · exact failsWith_refused _
    · exact failsWith_done _

theorem jump_failsWith (r : Rig) (i : Instruction) : r.FailsWith r.machine (r.jump i) := by
  unfold jump jumpIndirect jumpRelative
  split
  · split
    · exact failsWith_refused _
    · split
      · exact failsWith_done _
      · exact failsWith_refused _
  · split
    · exact failsWith_refused _
    · split
      · exact failsWith_refused _
      · exact failsWith_done _
      · exact failsWith_done _
  · exact failsWith_refused _

theorem leaveLoop_failsWith (r : Rig) : r.FailsWith r.machine r.leaveLoop := by
  unfold leaveLoop
  split
  · exact failsWith_refused _
  · exact failsWith_done _

/-- A return fails only if no call is open, and then the loops are left already. -/
theorem returnFromRoutine_failsWith {i : Instruction} (op : i.op = .ret) :
    r.FailsWith (r.leftBy i) r.returnFromRoutine := by
  simp only [returnFromRoutine]
  split
  · next underrun =>
    cases calls : r.machine.calls.calls with
    | nil => exact failsWith_fail (by simp [leftBy, op, calls, setCalls]) rfl _
    | cons f rest =>
        rw [CallStack.unwindLoops_pop calls] at underrun
        cases underrun
  · exact failsWith_done _

theorem push_failsWith (r : Rig) (source : Slot) : r.FailsWith r.machine (r.push source) := by
  unfold push
  split
  · exact failsWith_refused _
  · split
    · exact failsWith_refused _
    · exact failsWith_done _

/-- A value that was popped stays popped if it cannot be stored. -/
theorem pop_failsWith {i : Instruction} (op : i.op = .pop) :
    r.FailsWith (r.leftBy i) (r.pop i.first) := by
  have left : r.leftBy i = { r.machine with stack := r.machine.stack.tail } := by
    simp only [leftBy, op]
  rw [left]
  unfold pop
  cases top : r.machine.stack with
  | nil =>
      have same : { r.machine with stack := [] } = r.machine := by rw [← top]
      exact failsWith_fail same.symm rfl _
  | cons v rest =>
      have stored : ∀ {o : Outcome}, (r.setStack rest).Stores v o →
          r.FailsWith { r.machine with stack := rest } o := failsWith_of_stores
      simp only [OperandStack.pop, List.tail_cons]
      split
      · exact stored (setRegister_stores _ _ v)
      · exact stored (setVariable_stores _ _ v)
      · exact stored (setVariable_stores _ _ v)
      · exact failsWith_fail rfl rfl _

end Rig

namespace OperandStack

variable {s : OperandStack} {op : Operator} {e : RunError}

/-- An operator on one value replaces it last of all. -/
theorem unary_of_error (failed : (unary op s).2 = .error e) : (unary op s).1 = s := by
  cases s with
  | nil => rfl
  | cons v rest =>
      cases made : op.unary v with
      | ok w => simp [unary, made] at failed
      | error e => simp [unary, made]

/-- The operands of an operator on two values are gone before it is applied. -/
theorem binary_of_error (failed : (binary op s).2 = .error e) : (binary op s).1 = s.drop 2 := by
  cases s with
  | nil => rfl
  | cons right rest =>
      cases rest with
      | nil => rfl
      | cons left rest =>
          cases made : op.binary left right with
          | ok w => simp [binary, made] at failed
          | error e => simp [binary, made]

end OperandStack

namespace Rig

variable {r : Rig} {i : Instruction}

theorem applyOperator_failsWith (op : i.op = .apply) :
    r.FailsWith (r.leftBy i) (r.applyOperator i.first) := by
  unfold applyOperator
  split
  · next o operator =>
    intro e failed
    refine ⟨?_, rfl⟩
    change (OperandStack.apply o r.machine.stack).2 = _ at failed
    simp only [leftBy, op, operator, onStack, setStack]
    unfold OperandStack.apply at failed ⊢
    by_cases unary : o.isUnary
    · rw [if_pos unary] at failed ⊢
      rw [if_pos unary, OperandStack.unary_of_error failed]
    · rw [if_neg unary] at failed ⊢
      rw [if_neg unary, OperandStack.binary_of_error failed]
  · next other =>
    have left : r.leftBy i = r.machine := by
      unfold leftBy
      split
      all_goals simp_all
    rw [left]
    exact failsWith_refused _

theorem endWait_lights (s : Stage) : s.endWait.1.lights = s.lights := by
  simp only [Stage.endWait]
  split
  · rfl
  · rfl
  · rfl

theorem write_lights (s : Stage) (t : Text) : (s.write t).1.lights = s.lights := by
  simp only [Stage.write]
  split
  · rfl
  · rfl

/-- A wait changes the stage only, whatever it ends with. -/
theorem wait_failsWith (r : Rig) : r.FailsWith r.machine r.wait := by
  intro e _
  refine ⟨r.wait_machine, ?_⟩
  simp only [wait]
  split
  · exact endWait_lights _
  · exact endWait_lights _
  · rfl
  · rfl

theorem pause_failsWith (r : Rig) : r.FailsWith r.machine r.pause := by
  simp only [pause]
  split
  · exact failsWith_done _
  · split
    · exact failsWith_done _
    · exact failsWith_done _
    · exact failsWith_fail rfl (write_lights _ _) _

theorem timePattern_failsWith (r : Rig) (i : Instruction) :
    r.FailsWith r.machine (r.timePattern i) := by
  unfold timePattern
  split
  · split
    · exact failsWith_refused _
    · split
      · exact failsWith_refused _
      · split
        · exact failsWith_done _
        · exact failsWith_done _
        · exact failsWith_refused _
  · exact failsWith_refused _

theorem outRegister_failsWith (r : Rig) (v : Slot) : r.FailsWith r.machine (r.outRegister v) := by
  unfold outRegister
  split
  · split
    · exact failsWith_done _
    · exact failsWith_refused _
  · exact failsWith_refused _

theorem outLiteral_failsWith (r : Rig) (v : Slot) : r.FailsWith r.machine (r.outLiteral v) := by
  unfold outLiteral
  split
  · exact failsWith_refused _
  · split
    · exact failsWith_done _
    · exact failsWith_refused _

theorem printFirst_failsWith (r : Rig) (trailer : Text) :
    r.FailsWith r.machine (r.printFirst trailer) := by
  unfold printFirst
  split
  · exact failsWith_refused _
  · exact failsWith_done _

/-- Printing by a template fails if the output does, and then the buffer is empty already. -/
theorem printTemplate_failsWith (r : Rig) (template : Text) :
    r.FailsWith
      (if r.stage.outputFailure.isSome then { r.machine with buffer := [] } else r.machine)
      (r.printTemplate template) := by
  intro e failed
  refine ⟨?_, write_lights _ _⟩
  cases broken : r.stage.outputFailure with
  | none =>
      simp only [printTemplate, Stage.write, Stage.noteAll, broken] at failed
      cases failed
  | some why => rfl

/-- Only what prints by a template can lose the buffer. -/
theorem leftBy_of_out (op : i.op = .out)
    (other : ∀ t, i.first = some (.io .printf) → i.second ≠ some (.str t)) :
    r.leftBy i = r.machine := by
  unfold leftBy
  split
  -- The one kind that loses the buffer is the one `other` rules out.
  case h_4 first second => exact absurd second (other _ first)
  all_goals simp_all

theorem out_failsWith (op : i.op = .out) :
    r.FailsWith (r.leftBy i) (r.out i.first i.second) := by
  unfold out
  split
  -- `PRINTF`, with a template or with something else.
  case h_5 first =>
    split
    · next template second =>
      simpa only [leftBy, op, first, second] using r.printTemplate_failsWith template
    · next second =>
      rw [leftBy_of_out op fun t _ => second t]
      exact failsWith_refused _
  -- The other kinds of output print nothing by a template.
  all_goals rw [leftBy_of_out op (by simp_all)]
  · exact outRegister_failsWith r _
  · exact outLiteral_failsWith r _
  · split
    · exact printFirst_failsWith r _
    · exact printFirst_failsWith r _
  · exact printFirst_failsWith r _
  · exact failsWith_refused _
  · exact failsWith_refused _

/-- An instruction that fails leaves what `leftBy` says. -/
theorem execute_failsWith (r : Rig) (p : Program) (i : Instruction) :
    r.FailsWith (r.leftBy i) (r.execute p i) := by
  cases op : i.op
  case ret => simpa only [execute, op] using returnFromRoutine_failsWith op
  case apply => simpa only [execute, op] using applyOperator_failsWith op
  case out => simpa only [execute, op] using out_failsWith op
  case pop => simpa only [execute, op] using pop_failsWith op
  all_goals
    have left : r.leftBy i = r.machine := by simp only [leftBy, op]
    simp only [execute, op, left]
  case nop => exact failsWith_done _
  case breakpoint => exact failsWith_done _
  case color => exact r.color_failsWith
  case constant => exact r.defineConstant_failsWith i
  case disc => exact r.discover_failsWith i
  case discZone => exact r.discoverZones_failsWith i
  case discNext => exact r.discoverNext_failsWith i
  case discNextZone => exact r.discoverNextZone_failsWith i
  case endLoop => exact r.leaveLoop_failsWith
  case getColor => exact r.getColor_failsWith
  case call => exact r.callRoutine_failsWith p i
  case jump => exact r.jump_failsWith i
  case loop => exact failsWith_done _
  case move =>
    split
    · exact failsWith_refused _
    · exact failsWith_of_stores (r.store_stores _ _)
  case moveLiteral =>
    split
    · exact failsWith_refused _
    · exact failsWith_of_stores (r.store_stores _ _)
  case param => exact r.stageParam_failsWith i
  case pause => exact r.pause_failsWith
  case power => exact r.power_failsWith
  case push => exact r.push_failsWith _
  case pushLiteral =>
    split
    · exact failsWith_refused _
    · exact failsWith_done _
  case routine => exact failsWith_done _
  case stop => exact failsWith_done _
  case timePattern => exact r.timePattern_failsWith i
  case wait => exact r.wait_failsWith
  case unnamed => exact failsWith_refused _

/-- Asking whether to go on touches neither the lights nor the output. -/
theorem poll_keeps (s : Stage) :
    s.poll.1.lights = s.lights ∧ s.poll.1.outputFailure = s.outputFailure := by
  rw [s.poll_eq]
  exact ⟨rfl, rfl⟩

/-- Another stage with the same output makes no difference to what is left. -/
theorem leftBy_stage {stage : Stage} (output : stage.outputFailure = r.stage.outputFailure)
    (i : Instruction) : ({ r with stage := stage } : Rig).leftBy i = r.leftBy i := by
  simp only [leftBy, output]

@[simp] theorem leftBy_registers (r : Rig) (i : Instruction) :
    (r.leftBy i).registers = r.machine.registers := by
  unfold leftBy
  split
  · rfl
  · split <;> rfl
  · split <;> rfl
  · split <;> rfl
  · rfl

/-- What is left stands at the instruction that failed. -/
theorem leftBy_instruction? (r : Rig) (i : Instruction) :
    (r.leftBy i).instruction? = r.machine.instruction? := by
  unfold leftBy
  split
  · rfl
  · split <;> rfl
  · split <;> rfl
  · split <;> rfl
  · rfl

/-- How a step that failed came about: either no instruction was reached, or the one at the program
counter failed. -/
inductive Failed (r : Rig) (e : RunError) (after : Rig) : Prop
  | interrupted (lights : after.stage.lights = r.stage.lights) (h : r.machine.IsInterruption e)
      (machine : after.machine = r.machine)
  | instruction {i : Instruction} {cause : RunError}
      (lights : after.stage.lights = r.stage.lights) (fetched : r.machine.instruction? = some i)
      (h : e = .instruction r.machine.registers.pc i.op cause)
      (machine : after.machine = r.leftBy i)

theorem stepAt_failed {e : RunError} {p : Program} {stage : Stage}
    (lights : stage.lights = r.stage.lights)
    (output : stage.outputFailure = r.stage.outputFailure)
    (fetched : r.machine.instruction? = some i) :
    let o := ({ r with stage := stage } : Rig).stepAt p r.machine.registers.pc i
    o.2 = .error e → r.Failed e o.1 := by
  have fails := ({ r with stage := stage } : Rig).execute_failsWith p i
  simp only [stepAt]
  split
  · next after cause executed =>
    obtain ⟨machine, kept⟩ := fails cause (by rw [executed])
    rw [executed] at machine kept
    intro failed
    cases failed
    exact .instruction (kept.trans lights) fetched rfl (machine.trans (leftBy_stage output i))
  · intro failed
    split at failed <;> cases failed

theorem step_failed {e : RunError} : r.step.2 = .error e → r.Failed e r.step.1 := by
  obtain ⟨lights, output⟩ := poll_keeps r.stage
  have goes := r.step_goes
  generalize r.step = o at goes
  cases goes with
  | ended => rintro ⟨⟩
  | interrupted h asked =>
      rintro ⟨⟩
      refine .interrupted ?_ h rfl
      obtain rfl | rfl := asked
      · rfl
      · exact lights
  | executed loaded fetched polled =>
      rw [polled] at lights output
      exact stepAt_failed lights output fetched

/-- A step that fails changes no light and no register, and so still stands at the instruction that
failed. If no instruction was reached it changes nothing of the machine at all, and else no more than
what is lost with that instruction. -/
theorem failed_step_leaves {e : RunError} (failed : r.step.2 = .error e) :
    r.step.1.stage.lights = r.stage.lights ∧
    r.step.1.machine.registers = r.machine.registers ∧
    r.step.1.machine.instruction? = r.machine.instruction? ∧
    ((r.machine.IsInterruption e ∧ r.step.1.machine = r.machine) ∨
      ∃ i cause, r.machine.instruction? = some i ∧
        e = .instruction r.machine.registers.pc i.op cause ∧
        r.step.1.machine = r.leftBy i) := by
  cases step_failed failed with
  | interrupted lights h machine =>
      exact ⟨lights, by rw [machine], by rw [machine], .inl ⟨h, machine⟩⟩
  | instruction lights fetched h machine =>
      refine ⟨lights, ?_, ?_, .inr ⟨_, _, fetched, h, machine⟩⟩
      · rw [machine, leftBy_registers]
      · rw [machine, leftBy_instruction?]

/-- The step of a rig fails and leaves a machine, and the lights untouched. -/
def FailsTo (r : Rig) (m : Machine) : Prop :=
  (∃ e, r.step.2 = .error e) ∧ r.step.1.stage.lights = r.stage.lights ∧ r.step.1.machine = m

/-- A rig whose program is one instruction. -/
def about (i : Instruction) (m : Machine) (stage : Stage) : Rig :=
  { machine := { m with program := some { name := [], code := [i], routines := {} } }
    stage := stage }

/-- All four losses happen: a `POP` into nothing, a sum of one value, an `END` in a loop outside of
any call, and a `PRINTF` whose output fails. -/
theorem each_loss_met :
    (let r := about ⟨.pop, none, none⟩ { stack := [some (.bool true), some .nothing] } {}
     FailsTo r { r.machine with stack := [some .nothing] }) ∧
    (let r := about ⟨.apply, some (.operator .add), none⟩ { stack := [some (.bool true)] } {}
     FailsTo r { r.machine with stack := [] }) ∧
    (let r := about ⟨.ret, none, none⟩ { calls := { root := { loops := [{}] } } } {}
     FailsTo r { r.machine with calls := {} }) ∧
    (let r := about ⟨.out, some (.io .printf), some (.str "{}")⟩ { buffer := [some .nothing] }
       { outputFailure := some "full" }
     FailsTo r { r.machine with buffer := [] }) := by
  have lost : ∀ {r : Rig} {i : Instruction} {cause : RunError} {m : Machine},
      r.step.2 = .error (.instruction r.machine.registers.pc i.op cause) →
      r.machine.instruction? = some i → r.leftBy i = m → FailsTo r m := by
    intro r i cause m failed fetched left
    obtain ⟨lights, -, -, ⟨interrupted, -⟩ | ⟨i', _, fetched', -, machine⟩⟩ :=
      failed_step_leaves failed
    · obtain h | h | h | h := interrupted <;> cases h
    · obtain rfl := Option.some.inj (fetched'.symm.trans fetched)
      exact ⟨⟨_, failed⟩, lights, machine.trans left⟩
  exact ⟨lost rfl rfl rfl, lost rfl rfl rfl, lost rfl rfl rfl, lost rfl rfl rfl⟩

end Rig

end Lightboard
