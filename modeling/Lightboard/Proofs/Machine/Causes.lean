import Lightboard.Proofs.Assembly.Named
import Lightboard.Proofs.Machine.CallBalance
import Lightboard.Proofs.Machine.Holdings

/-!
# Which instructions fail for which reasons

Most reasons for a failure can come up in many instructions: an operand is missing, a name is not
known, a stack is empty. Two belong to one kind of instruction each. Only a call looks for a routine,
and only a wait refuses what the time register holds. `execute_raiser` says so.

Faults are states that the machine cannot go on from. Those of an empty stack or a missing loop can
always come up; all others need a value that is missing or a code that names nothing, in the machine
or in the instruction.

The proof of both goes through the instructions once. `IsUsual named x` says of a result that it is
no failure for one of the two reasons above, and under the condition `named` no other fault than
those of stacks and loops.
-/

namespace Lightboard

/-- The instruction that a reason belongs to, for the reasons that only one instruction fails for. -/
def RunError.raiser? : RunError → Option OpCode
  | .unresolvedRoutine _ => some .call
  | .badParam (.waitValue _) => some .wait
  | _ => none

/-- The fault that a failure is. -/
def RunError.fault? : RunError → Option Fault
  | .fault f => some f
  | _ => none

/-- An empty stack or a missing loop. -/
def Fault.IsStackFault (f : Fault) : Prop :=
  f = .operandStackUnderrun ∨ f = .callStackUnderrun ∨ f = .noLoop ∨ ∃ n, f = .loopVarOutside n

/-- If a result is a failure, then for a reason that belongs to no single instruction. -/
def IsCommon {α : Type} (x : Except RunError α) : Prop :=
  ∀ e, x = .error e → e.cause.raiser? = none

/-- If a result is a failure by a fault, then by one of a stack or a loop. -/
def IsTame {α : Type} (x : Except RunError α) : Prop :=
  ∀ e, x = .error e → ∀ f, e.cause = .fault f → f.IsStackFault

/-- A common result, and a tame one if everything it depends on has a name. -/
structure IsUsual {α : Type} (named : Prop) (x : Except RunError α) : Prop where
  common : IsCommon x
  tame : named → IsTame x

namespace IsUsual

variable {α β : Type} {named named' : Prop} {x : Except RunError α}

theorem ok (a : α) : IsUsual named (.ok a) := by
  refine ⟨?_, fun _ => ?_⟩
  · rintro e ⟨⟩
  · rintro e ⟨⟩

/-- A failure with the same cause as another one. -/
theorem of_cause (h : IsUsual named x) {e e' : RunError} (failed : x = .error e)
    (same : e'.cause = e.cause) : IsUsual named (.error e' : Except RunError β) := by
  refine ⟨?_, fun allNamed => ?_⟩
  · rintro _ ⟨⟩
    exact same ▸ h.common e failed
  · rintro _ ⟨⟩
    exact same ▸ h.tame allNamed e failed

theorem error (h : IsUsual named x) {e : RunError} (failed : x = .error e) :
    IsUsual named (.error e : Except RunError β) :=
  h.of_cause failed rfl

/-- A failure that is no fault. -/
theorem plain {e : RunError} (common : e.cause.raiser? = none) (noFault : e.cause.fault? = none) :
    IsUsual named (.error e : Except RunError α) := by
  refine ⟨?_, fun _ => ?_⟩
  · rintro _ ⟨⟩
    exact common
  · rintro _ ⟨⟩ f fault
    rw [fault] at noFault
    cases noFault

theorem stackFault {f : Fault} (h : f.IsStackFault) :
    IsUsual named (.error (.fault f) : Except RunError α) := by
  refine ⟨?_, fun _ => ?_⟩
  · rintro _ ⟨⟩
    rfl
  · rintro _ ⟨⟩ _ ⟨⟩
    exact h

theorem excluded {f : Fault} (h : ¬ named) :
    IsUsual named (.error (.fault f) : Except RunError α) := by
  refine ⟨?_, fun allNamed => absurd allNamed h⟩
  rintro _ ⟨⟩
  rfl

/-- A fault of something that works where everything has a name. -/
theorem excluded_of_ok {y : Except Fault β} {f : Fault} (failed : y = .error f)
    (works : named → ∃ b, y = .ok b) : IsUsual named (.error (.fault f) : Except RunError α) := by
  refine excluded fun allNamed => ?_
  obtain ⟨b, worked⟩ := works allNamed
  cases failed.symm.trans worked

theorem mono (h : IsUsual named x) (stronger : named' → named) : IsUsual named' x :=
  ⟨h.common, fun allNamed => h.tame (stronger allNamed)⟩

theorem map (h : IsUsual named x) (f : α → β) : IsUsual named (x.map f) := by
  cases x with
  | error e => exact h.error rfl
  | ok a => exact ok (f a)

end IsUsual

theorem makes_isNamed : Makes Value.IsNamed :=
  ⟨fun _ => trivial, fun _ => trivial, fun _ => trivial, trivial, fun _ => trivial⟩

namespace Registers

theorem get_of_isNamed (b : Registers) {reg : Register} (h : reg ∈ Register.named) :
    ∃ v, b.get reg = .ok v := by
  cases reg with
  | unnamed past => simp [Register.named] at h
  | _ => exact ⟨_, rfl⟩

theorem set_usual (b : Registers) (reg : Register) (v : Slot) :
    IsUsual (reg ∈ Register.named ∧ v.Holds Value.IsNamed) (b.set reg v) := by
  have written := b.set_written reg v
  generalize b.set reg v = o at written
  cases written with
  | refused => exact .plain rfl rfl
  | missing =>
      refine .excluded ?_
      rintro ⟨-, w, held, -⟩
      cases held
  | unknown => exact .excluded fun named => by simp [Register.named] at named
  | _ => exact .ok _

/-- There is a conversion between any two modes that have a name. -/
theorem convert_of_isNamed {start goal : UnitMode} (hs : start ∈ UnitMode.named)
    (hg : goal ∈ UnitMode.named) (c : Channels Float) : ∃ c', convert start goal c = .ok c' := by
  simp only [UnitMode.named, List.mem_cons, List.not_mem_nil, or_false] at hs hg
  obtain rfl | rfl | rfl := hs <;> obtain rfl | rfl | rfl := hg
  all_goals exact ⟨_, rfl⟩

theorem switchUnits_of_isNamed {b : Registers} {mode : UnitMode} (hb : b.unitMode ∈ UnitMode.named)
    (hm : mode ∈ UnitMode.named) : ∃ b', b.switchUnits mode = .ok b' := by
  obtain ⟨c, converted⟩ := convert_of_isNamed hb hm b.color
  simp only [switchUnits, converted]
  split
  · exact ⟨_, rfl⟩
  · exact ⟨_, rfl⟩

end Registers

theorem Operator.need_usual (v : Slot) : IsUsual (v.Holds Value.IsNamed) (Operator.need v) := by
  cases v with
  | none =>
      refine .excluded ?_
      rintro ⟨w, held, -⟩
      cases held
  | some v => exact .ok v

theorem OperandStack.apply_usual (op : Operator) (s : OperandStack) :
    IsUsual (∀ v ∈ s, Slot.Holds Value.IsNamed v) (OperandStack.apply op s).2 := by
  have applied := OperandStack.apply_applied op s
  generalize OperandStack.apply op s = o at applied
  cases applied with
  | underrun => exact .stackFault (.inl rfl)
  | made => exact .ok _
  | failed taken _ gives =>
      cases gives with
      | missing among =>
          refine .excluded fun named => ?_
          obtain ⟨v, held, -⟩ := named none (taken among)
          cases held
      | _ => exact .plain rfl rfl

namespace Stage

variable {named : Prop}

theorem write_usual (s : Stage) (t : Text) : IsUsual named (s.write t).2 := by
  unfold write
  split
  · exact .plain rfl rfl
  · exact .ok _

theorem endWait_usual (s : Stage) : IsUsual named s.endWait.2 := by
  simp only [endWait]
  split
  · exact .plain rfl rfl
  · exact .plain rfl rfl
  · exact .ok _

theorem readKey_usual (s : Stage) : IsUsual named s.readKey.2 := by
  simp only [readKey, Keyboard.readKey]
  split
  · split
    · exact .plain rfl rfl
    · exact .plain rfl rfl
  · exact .ok _

end Stage

namespace Rig

variable {r : Rig} {p : Program} {i : Instruction}

theorem resolve_usual (r : Rig) (source : Slot) :
    IsUsual (∀ w, source = some w → w.IsNamed) (r.resolve source) := by
  unfold resolve
  split
  · exact .plain rfl rfl
  · split
    · exact .ok _
    · next failed =>
      exact .excluded_of_ok failed fun named => r.machine.registers.get_of_isNamed (named _ rfl)
  · split
    · split
      · exact .ok _
      · exact .plain rfl rfl
    · split
      · exact .ok _
      · exact .plain rfl rfl
    · exact .ok _

theorem setRegister_usual (r : Rig) (reg : Register) (v : Slot) :
    IsUsual (reg ∈ Register.named ∧ v.Holds Value.IsNamed) (r.setRegister reg v).2 := by
  unfold setRegister
  split
  · exact .ok _
  · next failed => exact (r.machine.registers.set_usual reg v).error failed

/-- A symbol is always written; a loop token needs a loop. -/
theorem setVariable_usual {named : Prop} (r : Rig) {token : Slot}
    (h : (∃ n, token = some (.symbol n)) ∨ ∃ n, token = some (.loopVar n)) (v : Slot) :
    IsUsual named (r.setVariable token v).2 := by
  obtain ⟨n, rfl⟩ | ⟨n, rfl⟩ := h
  · exact .ok _
  · simp only [setVariable, CallStack.putVariable, CallStack.putToken]
    split
    · exact .ok _
    · next failed =>
      split at failed
      · cases failed
        exact .stackFault (.inr (.inr (.inr ⟨n, rfl⟩)))
      · cases failed

theorem switchUnits_usual (r : Rig) (v : Slot) :
    IsUsual (r.machine.Holds Value.IsNamed ∧ v.Holds Value.IsNamed) (r.switchUnits v).2 := by
  unfold switchUnits
  split
  · split
    · exact .ok _
    · next failed =>
      refine .excluded_of_ok failed ?_
      rintro ⟨hm, w, held, named⟩
      obtain rfl := Option.some.inj held
      exact Registers.switchUnits_of_isNamed hm.registers.unitMode named
  · exact .plain rfl rfl

theorem store_usual (r : Rig) (dest v : Slot) :
    IsUsual (r.machine.Holds Value.IsNamed ∧ (∀ w, dest = some w → w.IsNamed) ∧
      v.Holds Value.IsNamed) (r.store dest v).2 := by
  unfold store
  split
  · exact (r.switchUnits_usual v).mono fun h => ⟨h.1, h.2.2⟩
  · exact (r.setRegister_usual _ v).mono fun h => ⟨h.2.1 _ rfl, h.2.2⟩
  · exact r.setVariable_usual (.inl ⟨_, rfl⟩) v
  · exact r.setVariable_usual (.inr ⟨_, rfl⟩) v
  · exact .plain rfl rfl

theorem pop_usual (r : Rig) (dest : Slot) :
    IsUsual (r.machine.Holds Value.IsNamed ∧ ∀ w, dest = some w → w.IsNamed) (r.pop dest).2 := by
  unfold pop
  cases top : r.machine.stack with
  | nil => exact .stackFault (.inl rfl)
  | cons v rest =>
      have held (hm : r.machine.Holds Value.IsNamed) : v.Holds Value.IsNamed :=
        hm.stack v (by simp [top])
      simp only [OperandStack.pop]
      split
      · exact (setRegister_usual _ _ v).mono fun h => ⟨h.2 _ rfl, held h.1⟩
      · exact setVariable_usual _ (.inl ⟨_, rfl⟩) v
      · exact setVariable_usual _ (.inr ⟨_, rfl⟩) v
      · exact .plain rfl rfl

theorem push_usual (r : Rig) (source : Slot) :
    IsUsual (∀ w, source = some w → w.IsNamed) (r.push source).2 := by
  unfold push
  split
  · exact .plain rfl rfl
  · split
    · next failed => exact (r.resolve_usual _).error failed
    · exact .ok _

theorem applyOperator_usual (r : Rig) (v : Slot) :
    IsUsual (r.machine.Holds Value.IsNamed) (r.applyOperator v).2 := by
  unfold applyOperator
  split
  · exact (OperandStack.apply_usual _ r.machine.stack).mono Machine.Holds.stack
  · exact .plain rfl rfl

/-- The values of the machine and the op-code and operands of the instruction have names. -/
structure Names (r : Rig) (i : Instruction) : Prop where
  machine : r.machine.Holds Value.IsNamed
  instruction : i.IsNamed

theorem Names.first (h : r.Names i) : ∀ w, i.first = some w → w.IsNamed :=
  fun _ => Instruction.first_of_operands h.instruction.2

theorem Names.second (h : r.Names i) : ∀ w, i.second = some w → w.IsNamed :=
  fun _ => Instruction.second_of_operands h.instruction.2

theorem first_usual (r : Rig) (i : Instruction) : IsUsual (r.Names i) (r.resolve i.first) :=
  (r.resolve_usual i.first).mono Names.first

theorem second_usual (r : Rig) (i : Instruction) : IsUsual (r.Names i) (r.resolve i.second) :=
  (r.resolve_usual i.second).mono Names.second

theorem name_usual {named : Prop} (v : Slot) : IsUsual named (name v) := by
  unfold name
  split
  · exact .ok _
  · exact .ok _
  · exact .plain rfl rfl

theorem defineConstant_usual (r : Rig) (i : Instruction) :
    IsUsual (r.Names i) (r.defineConstant i).2 := by
  unfold defineConstant
  split
  · next failed => exact (name_usual _).error failed
  · split
    · next failed => exact (r.second_usual i).error failed
    · exact .ok _

theorem stageParam_usual (r : Rig) (i : Instruction) : IsUsual (r.Names i) (r.stageParam i).2 := by
  unfold stageParam
  split
  · next failed => exact (name_usual _).error failed
  · split
    · next failed => exact (r.second_usual i).error failed
    · exact .ok _

theorem taken_usual (result : Slot) (c : JumpCondition) :
    IsUsual (result.Holds Value.IsNamed) (taken result c) := by
  unfold taken
  split
  · exact .ok _
  · exact (Operator.need_usual result).map _
  · exact (Operator.need_usual result).map _
  · exact .plain rfl rfl

theorem jump_usual (r : Rig) (i : Instruction) : IsUsual (r.Names i) (r.jump i).2 := by
  unfold jump jumpIndirect jumpRelative
  split
  · split
    · next failed => exact (r.second_usual i).error failed
    · split
      · exact .ok _
      · exact .plain rfl rfl
  · split
    · exact .plain rfl rfl
    · split
      · next failed =>
        exact ((taken_usual _ _).error failed).mono fun named => named.machine.registers.result
      · exact .ok _
      · exact .ok _
  · exact .plain rfl rfl

/-- A return unwinds the loops first, so it can only find that there is no call. -/
theorem returnFromRoutine_usual {named : Prop} (r : Rig) : IsUsual named r.returnFromRoutine.2 := by
  simp only [returnFromRoutine]
  split
  · next f underrun =>
    cases calls : r.machine.calls.calls with
    | cons g rest =>
        rw [CallStack.unwindLoops_pop calls] at underrun
        cases underrun
    | nil =>
        have empty : r.machine.calls.unwindLoops.pop = .error .callStackUnderrun := by
          simp [CallStack.unwindLoops, CallStack.setInnermost, calls, CallStack.pop,
            CallStack.inLoop, CallStack.innermost]
        cases underrun.symm.trans empty
        exact .stackFault (.inr (.inl rfl))
  · exact .ok _

theorem leaveLoop_usual {named : Prop} (r : Rig) : IsUsual named r.leaveLoop.2 := by
  simp only [leaveLoop, CallStack.exitLoop]
  split
  · next failed =>
    split at failed
    · cases failed
      exact .stackFault (.inr (.inr (.inl rfl)))
    · cases failed
  · exact .ok _

/-- Whatever the color registers hold, it can be sent if the unit mode has a name. -/
theorem exists_wireColor (mode : r.machine.registers.unitMode ∈ UnitMode.named) :
    ∃ c, r.wireColor = .ok c := by
  obtain ⟨c, converted⟩ :=
    @Registers.convert_of_isNamed _ .raw mode (by decide) r.machine.registers.color
  simp only [wireColor, converted]
  exact ⟨_, rfl⟩

theorem exists_targetName (held : r.machine.registers.name ≠ none) : ∃ t, r.targetName = .ok t := by
  unfold targetName
  split
  · exact ⟨_, rfl⟩
  · exact ⟨_, rfl⟩
  · exact ⟨_, rfl⟩
  · next none => exact absurd none held

theorem targetName_of_isNamed (hm : r.machine.Holds Value.IsNamed) : ∃ t, r.targetName = .ok t := by
  obtain ⟨v, held, -⟩ := hm.registers.name
  exact exists_targetName (by rw [held]; nofun)

theorem targets_of_isNamed (hm : r.machine.Holds Value.IsNamed) (what : Text) :
    ∃ t, r.targets what = .ok t := by
  obtain ⟨name, named⟩ := targetName_of_isNamed hm
  unfold targets
  rw [named]
  split
  · exact ⟨_, rfl⟩
  · next op addressed =>
    have known : op ∈ Operand.named := by
      unfold addressing? at addressed
      split at addressed
      · next held =>
        obtain rfl := Option.some.inj addressed
        have operand := hm.registers.operand
        rw [held] at operand
        exact operand
      · cases addressed
    cases op with
    | unnamed past => simp [Operand.named] at known
    | all => exact ⟨_, rfl⟩
    | light => exact ⟨_, rfl⟩
    | mzLight => exact ⟨_, rfl⟩
    | group =>
        simp only
        split
        · exact ⟨_, rfl⟩
        · exact ⟨_, rfl⟩
    | location =>
        simp only
        split
        · exact ⟨_, rfl⟩
        · exact ⟨_, rfl⟩

theorem color_usual (r : Rig) : IsUsual (r.machine.Holds Value.IsNamed) r.color.2 := by
  unfold color
  split
  · next failed =>
    exact .excluded_of_ok failed fun hm => exists_wireColor hm.registers.unitMode
  · split
    · next failed => exact .excluded_of_ok failed fun hm => targets_of_isNamed hm "COLOR"
    · exact .ok _

theorem power_usual (r : Rig) : IsUsual (r.machine.Holds Value.IsNamed) r.power.2 := by
  unfold power
  split
  · next failed => exact .excluded_of_ok failed fun hm => targets_of_isNamed hm "POWER"
  · exact .ok _

theorem takeColor_usual (r : Rig) (c : Color) :
    IsUsual (r.machine.Holds Value.IsNamed) (r.takeColor c).2 := by
  unfold takeColor
  split
  · next failed =>
    refine .excluded_of_ok failed fun hm => ?_
    obtain ⟨c', converted⟩ := @Registers.convert_of_isNamed .raw _ (by decide)
      hm.registers.unitMode
      ⟨Number.ofInt c.hue.toNat, Number.ofInt c.saturation.toNat, Number.ofInt c.brightness.toNat,
       Number.ofInt c.kelvin.toNat⟩
    simp only [readColor, converted]
    exact ⟨_, rfl⟩
  · exact .ok _

theorem getColorOf_usual (r : Rig) (zoned : Bool) (l : Light) (name : Text) :
    IsUsual (r.machine.Holds Value.IsNamed) (r.getColorOf zoned l name).2 := by
  simp only [getColorOf]
  split
  · split
    · split
      · exact .ok _
      · exact .ok _
      · exact (takeColor_usual _ _).mono id
    · exact .ok _
  · split
    · exact .ok _
    · exact (takeColor_usual _ _).mono id

theorem getColor_usual (r : Rig) : IsUsual (r.machine.Holds Value.IsNamed) r.getColor.2 := by
  simp only [getColor]
  split
  · exact .ok _
  · split
    · next failed => exact .excluded_of_ok failed targetName_of_isNamed
    · split
      · exact .ok _
      · exact r.getColorOf_usual _ _ _

theorem discoveryNames_usual {named : Prop} (r : Rig) (v : Slot) :
    IsUsual named (r.discoveryNames v) := by
  unfold discoveryNames
  split
  · split
    · exact .ok _
    · exact .ok _
    · exact .ok _
    · exact .ok _
    · exact .ok _
    · exact .plain rfl rfl
  · exact .plain rfl rfl

theorem discover_usual {named : Prop} (r : Rig) (i : Instruction) :
    IsUsual named (r.discover i).2 := by
  unfold discover
  split
  · next failed => exact (r.discoveryNames_usual _).error failed
  · exact .ok _

theorem discoverNext_usual (r : Rig) (i : Instruction) :
    IsUsual (r.Names i) (r.discoverNext i).2 := by
  unfold discoverNext
  split
  · next failed => exact (r.discoveryNames_usual _).error failed
  · split
    · next failed => exact (r.second_usual i).error failed
    · exact .ok _
    · exact .ok _

theorem zoneLight_usual (r : Rig) (i : Instruction) :
    IsUsual (r.Names i) (r.zoneLight i.first) := by
  unfold zoneLight
  split
  · next failed => exact (r.first_usual i).error failed
  · split
    · exact .ok _
    · exact .ok _
  · exact .plain rfl rfl

theorem discoverZones_usual (r : Rig) (i : Instruction) :
    IsUsual (r.Names i) (r.discoverZones i).2 := by
  unfold discoverZones
  split
  · next failed => exact (r.zoneLight_usual i).error failed
  · exact .ok _

theorem discoverNextZone_usual (r : Rig) (i : Instruction) :
    IsUsual (r.Names i) (r.discoverNextZone i).2 := by
  unfold discoverNextZone
  split
  · next failed => exact (r.zoneLight_usual i).error failed
  · split
    · next failed => exact ((resolve_usual _ _).error failed).mono Names.second
    · exact .ok _

theorem patternOf_usual {named : Prop} (v : Slot) : IsUsual named (patternOf v) := by
  unfold patternOf
  split
  · exact .ok _
  · split
    · exact .ok _
    · exact .plain rfl rfl
  · exact .plain rfl rfl

theorem timePattern_usual (r : Rig) (i : Instruction) : IsUsual (r.Names i) (r.timePattern i).2 := by
  unfold timePattern
  split
  · split
    · next failed => exact (r.second_usual i).error failed
    · split
      · next failed => exact (patternOf_usual _).error failed
      · split
        · exact .ok _
        · exact .ok _
        · exact .plain rfl rfl
  · exact .plain rfl rfl

theorem pause_usual {named : Prop} (r : Rig) : IsUsual named r.pause.2 := by
  simp only [pause]
  split
  · exact .ok _
  · split
    · exact .ok _
    · exact .ok _
    · next failed => exact (Stage.readKey_usual _).of_cause failed rfl

theorem outRegister_usual (r : Rig) (v : Slot) :
    IsUsual (∀ w, v = some w → w.IsNamed) (r.outRegister v).2 := by
  unfold outRegister
  split
  · split
    · exact .ok _
    · next failed =>
      exact .excluded_of_ok failed fun named => r.machine.registers.get_of_isNamed (named _ rfl)
  · exact .plain rfl rfl

theorem outLiteral_usual (r : Rig) (v : Slot) :
    IsUsual (∀ w, v = some w → w.IsNamed) (r.outLiteral v).2 := by
  unfold outLiteral
  split
  · exact .plain rfl rfl
  · split
    · exact .ok _
    · next failed => exact (r.resolve_usual _).error failed

theorem printFirst_usual (r : Rig) (trailer : Text) :
    IsUsual (r.machine.Holds Value.IsNamed) (r.printFirst trailer).2 := by
  unfold printFirst
  split
  · next rest missing =>
    refine .excluded fun hm => ?_
    obtain ⟨v, held, -⟩ := hm.buffer none (by simp [missing])
    cases held
  · exact .ok _

theorem out_usual (r : Rig) (i : Instruction) :
    IsUsual (r.Names i) (r.out i.first i.second).2 := by
  unfold out
  split
  · exact (r.outRegister_usual _).mono Names.second
  · exact (r.outLiteral_usual _).mono Names.second
  · split
    · exact (r.printFirst_usual _).mono Names.machine
    · exact (r.printFirst_usual _).mono Names.machine
  · exact (r.printFirst_usual _).mono Names.machine
  · split
    · exact Stage.write_usual _ _
    · exact .plain rfl rfl
  · exact .plain rfl rfl
  · exact .plain rfl rfl

/-- A call fails for want of a routine, or for no reason of its own. -/
theorem callRoutine_error {e : RunError} (failed : (r.callRoutine p i).2 = .error e) :
    e.cause.raiser? = none ∨
      ∃ n, name i.first = .ok n ∧ p.resolve n = none ∧ e = .unresolvedRoutine n := by
  unfold callRoutine at failed
  split at failed
  · next unnamed =>
    obtain rfl := Except.error.inj failed
    exact .inl ((@name_usual True _).common _ unnamed)
  · next n named =>
    split at failed
    · next missing => exact .inr ⟨n, named, missing, (Except.error.inj failed).symm⟩
    · cases failed

theorem callRoutine_isTame (r : Rig) (p : Program) (i : Instruction) :
    IsTame (r.callRoutine p i).2 := by
  unfold callRoutine
  split
  · next failed => exact ((@name_usual True _).error failed).tame trivial
  · split
    · rintro _ ⟨⟩ f ⟨⟩
    · rintro _ ⟨⟩

/-- A wait refuses the time register if that holds neither a number nor a pattern nor nothing. -/
theorem wait_error {e : RunError} (failed : r.wait.2 = .error e) :
    e.cause.raiser? = none ∨ ∃ v,
      (v = r.machine.registers.time ∧ (∀ x, v ≠ .number x) ∧ (∀ t, v ≠ .pattern t) ∧
        v ≠ .nothing) ∧ e = .badParam (.waitValue (some v)) := by
  simp only [wait] at failed
  split at failed
  · exact .inl ((@Stage.endWait_usual True _).common _ failed)
  · exact .inl ((@Stage.endWait_usual True _).common _ failed)
  · cases failed
  · next pattern number nothing =>
    exact .inr ⟨_, ⟨rfl, number, pattern, nothing⟩, (Except.error.inj failed).symm⟩

theorem wait_isTame (r : Rig) : IsTame r.wait.2 := by
  simp only [wait]
  split
  · exact (@Stage.endWait_usual True _).tame trivial
  · exact (@Stage.endWait_usual True _).tame trivial
  · rintro _ ⟨⟩
  · rintro _ ⟨⟩ f ⟨⟩

/-- All instructions but calls and waits fail for common reasons only. -/
theorem execute_usual (r : Rig) (p : Program) {i : Instruction} (call : i.op ≠ .call)
    (wait : i.op ≠ .wait) : IsUsual (r.Names i) (r.execute p i).2 := by
  cases op : i.op <;> simp only [execute, op]
  case nop => exact .ok _
  case breakpoint => exact .ok _
  case color => exact r.color_usual.mono Names.machine
  case constant => exact r.defineConstant_usual i
  case disc => exact r.discover_usual i
  case discZone => exact r.discoverZones_usual i
  case discNext => exact r.discoverNext_usual i
  case discNextZone => exact r.discoverNextZone_usual i
  case ret => exact r.returnFromRoutine_usual
  case endLoop => exact r.leaveLoop_usual
  case getColor => exact r.getColor_usual.mono Names.machine
  case call => exact absurd op call
  case jump => exact r.jump_usual i
  case loop => exact .ok _
  case move =>
    split
    · next failed => exact (r.first_usual i).error failed
    · next v resolved =>
      refine (r.store_usual _ v).mono fun named => ⟨named.machine, named.second, ?_⟩
      exact resolve_holds makes_isNamed named.machine (fun w given _ => named.first w given) resolved
  case moveLiteral =>
    split
    · exact .plain rfl rfl
    · next v given =>
      exact (r.store_usual _ _).mono fun named =>
        ⟨named.machine, named.second, v, rfl, named.first v given⟩
  case apply => exact (r.applyOperator_usual _).mono Names.machine
  case out => exact r.out_usual i
  case param => exact r.stageParam_usual i
  case pause => exact r.pause_usual
  case pop => exact (r.pop_usual _).mono fun named => ⟨named.machine, named.first⟩
  case power => exact r.power_usual.mono Names.machine
  case push => exact (r.push_usual _).mono Names.first
  case pushLiteral =>
    split
    · exact .plain rfl rfl
    · exact .ok _
  case routine => exact .ok _
  case stop => exact .ok _
  case timePattern => exact r.timePattern_usual i
  case wait => exact absurd op wait
  case unnamed => exact .excluded fun named => by simpa [op, OpCode.named] using named.instruction.1

/-- An instruction fails for a reason that belongs to one kind of instruction only if it is of that
kind. -/
theorem execute_raiser {e : RunError} {op : OpCode} (failed : (r.execute p i).2 = .error e)
    (raises : e.cause.raiser? = some op) : i.op = op := by
  by_cases call : i.op = .call
  · simp only [execute, call] at failed
    obtain none | ⟨n, -, -, rfl⟩ := callRoutine_error failed
    · cases none.symm.trans raises
    · exact call.trans (Option.some.inj raises)
  · by_cases wait : i.op = .wait
    · simp only [execute, wait] at failed
      obtain none | ⟨v, -, rfl⟩ := wait_error failed
      · cases none.symm.trans raises
      · exact wait.trans (Option.some.inj raises)
    · cases ((r.execute_usual p call wait).common e failed).symm.trans raises

/-- Where everything has a name, the only faults are those of stacks and loops. -/
theorem execute_isTame (hm : r.machine.Holds Value.IsNamed) (hi : i.IsNamed) (p : Program) :
    IsTame (r.execute p i).2 := by
  by_cases call : i.op = .call
  · simpa only [execute, call] using r.callRoutine_isTame p i
  · by_cases wait : i.op = .wait
    · simpa only [execute, wait] using r.wait_isTame
    · exact (r.execute_usual p call wait).tame ⟨hm, hi⟩

end Rig

end Lightboard
