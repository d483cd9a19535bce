import Lightboard.Machine.CallStack
import Lightboard.Machine.Registers

/-!
# Updates of the registers and of the call stack

Most updates look at something before they write. What each one asks for and what it leaves is said
here once: `Registers.Written` lists what a write to a register can come to, and the updates of the
call stack are taken apart where they succeed. The invariants of the machine are proved from these
statements.
-/

namespace Lightboard

namespace Registers

/-- What a write of a value to a register of bank `b` can come to. -/
inductive Written (b : Registers) : Register → Slot → Except RunError Registers → Prop
  | time {w : Value} (kind : (∃ x, w = .number x) ∨ (∃ t, w = .pattern t) ∨ w = .nothing) :
      Written b .time (some w) (.ok { b with time := w })
  | operand {w : Value} (kind : (∃ o, w = .operand o) ∨ w = .nothing) :
      Written b .operand (some w) (.ok { b with operand := w })
  | firstZone {w : Value} (kind : (∃ x, w = .number x) ∨ w = .nothing) :
      Written b .firstZone (some w) (.ok { b with firstZone := w })
  | lastZone {w : Value} (kind : (∃ x, w = .number x) ∨ w = .nothing) :
      Written b .lastZone (some w) (.ok { b with lastZone := w })
  | unitMode (m : UnitMode) :
      Written b .unitMode (some (.unitMode m)) (.ok { b with unitMode := m })
  | name (v : Slot) : Written b .name v (.ok { b with name := v })
  | result (v : Slot) : Written b .result v (.ok { b with result := v })
  /-- The other registers hold numbers, and whether to switch on. -/
  | plain (reg : Register) (v : Slot) (hue saturation brightness kelvin duration : Float)
      (power : Bool) (pc : Int) :
      Written b reg v
        (.ok { b with
          hue := hue, saturation := saturation, brightness := brightness, kelvin := kelvin
          duration := duration, power := power, pc := pc })
  | refused (reg : Register) (v : Slot) : Written b reg v (refuse reg v)
  | missing : Written b .power none (.error (.fault .missingValue))
  | unknown (past : Fin 239) (v : Slot) :
      Written b (.unnamed past) v (.error (.fault (.unknownRegister (Register.unnamed past).code)))

variable {b b' : Registers} {goal : UnitMode}

theorem setNumber_written {reg : Register} {v : Slot} {write : Float → Registers}
    (plain : ∀ x, b.Written reg v (.ok (write x))) : b.Written reg v (setNumber reg v write) := by
  unfold setNumber
  split
  · exact plain _
  · exact .refused reg v

theorem set_written (b : Registers) (reg : Register) (v : Slot) :
    b.Written reg v (b.set reg v) := by
  cases reg with
  | name => exact .name v
  | result => exact .result v
  | unnamed past => exact .unknown past v
  | power =>
      cases v with
      | none => exact .missing
      | some w => exact .plain ..
  | time =>
      simp only [set]
      split
      · exact .time (.inl ⟨_, rfl⟩)
      · exact .time (.inr (.inl ⟨_, rfl⟩))
      · exact .time (.inr (.inr rfl))
      · exact .refused ..
  | operand =>
      simp only [set]
      split
      · exact .operand (.inl ⟨_, rfl⟩)
      · exact .operand (.inr rfl)
      · exact .refused ..
  | firstZone =>
      simp only [set]
      split
      · exact .firstZone (.inl ⟨_, rfl⟩)
      · exact .firstZone (.inr rfl)
      · exact .refused ..
  | lastZone =>
      simp only [set]
      split
      · exact .lastZone (.inl ⟨_, rfl⟩)
      · exact .lastZone (.inr rfl)
      · exact .refused ..
  | unitMode =>
      simp only [set]
      split
      · exact .unitMode _
      · exact .refused ..
  | _ => exact setNumber_written fun x => .plain ..

/-- A switch that succeeds changes the mode, the color and the times. -/
theorem switchUnits_eq_ok (switched : b.switchUnits goal = .ok b') :
    b' = b ∨ ∃ c : Channels Float,
      b' = { b.setColor c with
        duration := Units.convertTime b.unitMode goal b.duration
        time := convertTime b.unitMode goal b.time
        unitMode := goal } := by
  simp only [switchUnits] at switched
  split at switched
  · exact .inl (Except.ok.inj switched).symm
  · split at switched
    · cases switched
    · next c _ => exact .inr ⟨c, (Except.ok.inj switched).symm⟩

end Registers

namespace CallStack

variable {s t : CallStack}

theorem innermost_setInnermost (s : CallStack) (f : CallFrame) :
    (s.setInnermost f).innermost = f := by
  cases calls : s.calls <;> simp [setInnermost, innermost, calls]

theorem stagedScope_setInnermost (s : CallStack) (f : CallFrame) :
    (s.setInnermost f).stagedScope = s.stagedScope := by
  unfold setInnermost
  split <;> rfl

theorem stagedReturn_setInnermost (s : CallStack) (f : CallFrame) :
    (s.setInnermost f).stagedReturn = s.stagedReturn := by
  unfold setInnermost
  split <;> rfl

theorem constants_setInnermost (s : CallStack) (f : CallFrame) :
    (s.setInnermost f).constants = s.constants := by
  unfold setInnermost
  split <;> rfl

/-- A token is written to the innermost loop. -/
theorem putToken_eq_ok {n : Int} {v : Slot} (put : s.putToken n v = .ok t) :
    ∃ l rest, s.innermost.loops = l :: rest ∧
      t = s.setInnermost { s.innermost with loops := l.insert n v :: rest } := by
  simp only [putToken] at put
  split at put
  · cases put
  · next l rest loops => exact ⟨l, rest, loops, (Except.ok.inj put).symm⟩

/-- A loop token is written as a token, a symbol and a text as a name. -/
theorem putVariable_eq_ok {token v : Slot} (put : s.putVariable token v = .ok t) :
    (∃ n, token = some (.loopVar n) ∧ s.putToken n v = .ok t) ∨
      ∃ n, (token = some (.symbol n) ∨ token = some (.str n)) ∧ t = s.putName n v := by
  unfold putVariable at put
  split at put
  · exact .inl ⟨_, rfl, put⟩
  · exact .inr ⟨_, .inl rfl, (Except.ok.inj put).symm⟩
  · exact .inr ⟨_, .inr rfl, (Except.ok.inj put).symm⟩
  · cases put

/-- The innermost loop of the frame that runs is left. -/
theorem exitLoop_eq_ok (left : s.exitLoop = .ok t) :
    ∃ l rest, s.innermost.loops = l :: rest ∧
      t = s.setInnermost { s.innermost with loops := rest } := by
  simp only [exitLoop] at left
  split at left
  · cases left
  · next l rest loops => exact ⟨l, rest, loops, (Except.ok.inj left).symm⟩

/-- The call that runs is popped, and what was staged is gone. -/
theorem pop_eq_ok (popped : s.pop = .ok t) :
    ∃ f rest, s.calls = f :: rest ∧
      t = { s with calls := rest, stagedScope := {}, stagedReturn := 0 } := by
  unfold pop at popped
  split at popped
  · cases popped
  · split at popped
    · cases popped
    · next f rest calls => exact ⟨f, rest, calls, (Except.ok.inj popped).symm⟩

end CallStack

end Lightboard
