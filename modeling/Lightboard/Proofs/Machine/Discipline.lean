import Lightboard.Proofs.Machine.Causes
import Lightboard.Proofs.Machine.Holdings

/-!
# What kinds of values the places of a machine hold

Four registers are choosy: the time register holds a number, a pattern or nothing, the operand
register an operand or nothing, and the zone registers a number or nothing. Values reach them on many
ways, and not all of these check what they write; `Stepped.disciplined` shows that all of them keep
the registers as they should be. So a wait always knows what to do with the time register.

All other places take any value, but never none. They hold no references either, since an operand
that is one is looked up before it is stored. Only a literal is stored without a look, and a program
that has no reference for a literal keeps its machine free of them.
-/

namespace Lightboard

namespace Registers

/-- The registers that are choosy hold what they should. -/
structure Disciplined (b : Registers) : Prop where
  time : (∃ x, b.time = .number x) ∨ (∃ t, b.time = .pattern t) ∨ b.time = .nothing
  operand : (∃ o, b.operand = .operand o) ∨ b.operand = .nothing
  firstZone : (∃ x, b.firstZone = .number x) ∨ b.firstZone = .nothing
  lastZone : (∃ x, b.lastZone = .number x) ∨ b.lastZone = .nothing

variable {b b' : Registers}

theorem disciplined_initial (mode : UnitMode) : Disciplined { unitMode := mode } :=
  ⟨.inl ⟨0, rfl⟩, .inr rfl, .inr rfl, .inr rfl⟩

/-- Registers that agree on the choosy ones are as good. -/
theorem Disciplined.congr (h : b.Disciplined) (time : b'.time = b.time)
    (operand : b'.operand = b.operand) (firstZone : b'.firstZone = b.firstZone)
    (lastZone : b'.lastZone = b.lastZone) : b'.Disciplined := by
  obtain ⟨hTime, hOperand, hFirst, hLast⟩ := h
  rw [← time] at hTime
  rw [← operand] at hOperand
  rw [← firstZone] at hFirst
  rw [← lastZone] at hLast
  exact ⟨hTime, hOperand, hFirst, hLast⟩

theorem Disciplined.set (h : b.Disciplined) {reg : Register} {v : Slot}
    (set : b.set reg v = .ok b') : b'.Disciplined := by
  have written := b.set_written reg v
  rw [set] at written
  cases written with
  | time kind => exact ⟨kind, h.operand, h.firstZone, h.lastZone⟩
  | operand kind => exact ⟨h.time, kind, h.firstZone, h.lastZone⟩
  | firstZone kind => exact ⟨h.time, h.operand, kind, h.lastZone⟩
  | lastZone kind => exact ⟨h.time, h.operand, h.firstZone, kind⟩
  | _ => exact h.congr rfl rfl rfl rfl

/-- Another unit mode makes a number of a number, and leaves a pattern alone. -/
theorem Disciplined.switchUnits (h : b.Disciplined) {mode : UnitMode}
    (switched : b.switchUnits mode = .ok b') : b'.Disciplined := by
  obtain rfl | ⟨c, rfl⟩ := switchUnits_eq_ok switched
  · exact h
  · refine ⟨?_, h.operand, h.firstZone, h.lastZone⟩
    obtain ⟨x, time⟩ | ⟨t, time⟩ | time := h.time
    · exact .inl ⟨_, by rw [time]; rfl⟩
    · exact .inr (.inl ⟨t, by rw [time]; rfl⟩)
    · exact .inr (.inr (by rw [time]; rfl))

end Registers

theorem Machine.Stored.disciplined {m m' : Machine} {v : Slot} (stored : m.Stored v m')
    (h : m.registers.Disciplined) : m'.registers.Disciplined := by
  cases stored with
  | register set => exact h.set set
  | units _ switched => exact h.switchUnits switched
  | «variable» put => exact h

namespace Rig

variable {r : Rig} {p : Program} {i : Instruction} {m : Machine}

theorem Effect.disciplined {outcome : Except RunError Unit} (effect : r.Effect p i m outcome)
    (h : r.machine.registers.Disciplined) : m.registers.Disciplined := by
  cases effect with
  | colored _ c => exact h.congr rfl rfl rfl rfl
  | found _ _ => exact h.congr rfl rfl rfl rfl
  | timed _ t => exact ⟨.inr (.inl ⟨t, rfl⟩), h.operand, h.firstZone, h.lastZone⟩
  | called _ _ _ => exact h.congr rfl rfl rfl rfl
  | returned _ _ => exact h.congr rfl rfl rfl rfl
  | jumped _ pc => exact h.congr rfl rfl rfl rfl
  | moved _ _ stored => exact stored.disciplined h
  | movedLiteral _ _ stored => exact stored.disciplined h
  | popped _ _ stored => exact stored.disciplined h
  | _ => exact h

theorem Stepped.disciplined {result : StepResult} (stepped : r.Stepped m result)
    (h : r.machine.registers.Disciplined) : m.registers.Disciplined := by
  cases stepped with
  | ended => exact h
  | interrupted => exact h
  | failed _ _ effect => exact effect.disciplined h
  | done _ _ effect _ =>
      have kept := effect.disciplined h
      unfold Machine.movedPast
      split
      · exact kept.congr rfl rfl rfl rfl
      · exact kept

theorem IsRun.disciplined {run : Nat → Rig} (isRun : IsRun run)
    (start : (run 0).machine = m.load p) (k : Nat) :
    (run k).machine.registers.Disciplined := by
  refine isRun.invariant (P := fun m => m.registers.Disciplined) ?_ ?_ k
  · rw [start]
    exact Registers.disciplined_initial _
  · intro r m result stepped h
    exact stepped.disciplined h

/-- No step refuses the time register if that holds what it should. -/
theorem step_ne_waitValue (h : r.machine.registers.Disciplined) {e : RunError}
    (failed : r.step.2 = .error e) (v : Slot) : e.cause ≠ .badParam (.waitValue v) := by
  intro cause
  obtain interrupted | ⟨p, i, stage, e', -, -, executed, rfl⟩ := step_of_error failed
  · obtain rfl | rfl | rfl | rfl := interrupted <;> cases cause
  · have raises : e'.cause.raiser? = some .wait := congrArg RunError.raiser? cause
    have op := execute_raiser executed raises
    simp only [execute, op] at executed
    obtain none | ⟨w, ⟨time, number, pattern, nothing⟩, -⟩ := wait_error executed
    · cases none.symm.trans raises
    · obtain ⟨x, same⟩ | ⟨t, same⟩ | same := h.time
      · exact number x (time.trans same)
      · exact pattern t (time.trans same)
      · exact nothing (time.trans same)

theorem makes_plain : Makes fun v => v.isReference = false :=
  ⟨fun _ => rfl, fun _ => rfl, fun _ => rfl, rfl, fun _ => rfl⟩

theorem makes_any : Makes fun _ => True :=
  ⟨fun _ => trivial, fun _ => trivial, fun _ => trivial, trivial, fun _ => trivial⟩

/-- In every state of a run, whatever the program, the choosy registers hold what they should and
every place holds a value, so no step fails because of what a wait finds in the time register. If no
literal of the program is a reference, then no place ever holds a reference. -/
theorem IsRun.values_kept {run : Nat → Rig} (isRun : IsRun run)
    (start : (run 0).machine = m.load p) :
    (∀ k, (run k).machine.registers.Disciplined ∧ (run k).machine.Holds fun _ => True) ∧
    (∀ k e v, (run k).step.2 = .error e → e.cause ≠ .badParam (.waitValue v)) ∧
    ((∀ i ∈ p.code, (i.op = .moveLiteral ∨ i.op = .pushLiteral) →
        ∀ v, i.first = some v → v.isReference = false) →
      ∀ k, (run k).machine.Holds fun v => v.isReference = false) := by
  refine ⟨?_, ?_, ?_⟩
  · intro k
    exact ⟨isRun.disciplined start k,
      (isRun.holds_brought makes_any start trivial (fun _ _ _ _ => trivial) k).2⟩
  · intro k e v failed
    exact step_ne_waitValue (isRun.disciplined start k) failed v
  · intro literals k
    refine (isRun.holds_brought makes_plain start rfl ?_ k).2
    rintro i member v (⟨-, plain⟩ | ⟨-, plain⟩ | ⟨given, op⟩)
    · exact plain
    · exact plain
    · exact literals i member op v given

/-- A program with a missing operand, an operator and an op-code that name nothing, and a wait. -/
def oddProgram : Program where
  name := []
  code :=
    [⟨.moveLiteral, some .nothing, some (.register .time)⟩, { op := .wait },
     ⟨.move, some (.register .time), some (.symbol [120])⟩,
     ⟨.pushLiteral, some (.operator (.unnamed (Fin.last _))), none⟩,
     ⟨.pop, some (.register .result), none⟩,
     ⟨.param, some (.str [112]), some (.symbol [120])⟩, { op := .push },
     { op := .unnamed (Fin.last _) }]
  routines := {}

/-- Its wait does not fail, and after the last instruction that succeeds nothing is missing and
nothing is a reference. -/
theorem oddProgram_kept :
    let run := (({} : Rig).load oddProgram).afterSteps
    (∃ i, (run 1).machine.instruction? = some i ∧ i.op = .wait) ∧
      (∀ e v, (run 1).step.2 = .error e → e.cause ≠ .badParam (.waitValue v)) ∧
      (run 6).machine.registers.result = some (.operator (.unnamed (Fin.last _))) ∧
      (run 6).machine.calls.stagedScope.get? [112] = some (some .nothing) ∧
      (run 6).machine.registers.Disciplined ∧
      (run 6).machine.Holds fun v => v.isReference = false := by
  obtain ⟨states, wait, plain⟩ := (isRun_afterSteps (({} : Rig).load oddProgram)).values_kept
    (m := {}) (p := oddProgram) rfl
  have literals : ∀ i ∈ oddProgram.code, (i.op = .moveLiteral ∨ i.op = .pushLiteral) →
      ∀ v, i.first = some v → v.isReference = false := by
    simp [oddProgram, Value.isReference]
  exact ⟨⟨_, rfl, rfl⟩, wait 1, rfl, rfl, (states 6).1, plain literals 6⟩

end Rig

end Lightboard
