import Lightboard.Proofs.Machine.Causes

/-!
# The faults of loaded programs

A fault is a state that the machine cannot go on from. Most faults are about a missing value or
about a code that names nothing. Neither is ever held by a machine that runs a program loaded from
assembly text, whatever way values take through it, so of all the faults only four remain: the
operand stack or the call stack is empty, or a loop is missing.
-/

namespace Lightboard

namespace Rig

variable {r : Rig} {p : Program}

/-- A step that fails was interrupted, or an instruction of the program failed. -/
theorem step_error {e : RunError} (loaded : r.machine.program = some p)
    (failed : r.step.2 = .error e) :
    r.machine.IsInterruption e ∨ ∃ i ∈ p.code, ∃ stage e',
      (({ r with stage := stage } : Rig).execute p i).2 = .error e' ∧ e.cause = e'.cause := by
  obtain interrupted | ⟨p', i, stage, cause, loaded', fetched, executed, rfl⟩ :=
    step_of_error failed
  · exact .inl interrupted
  · obtain rfl := Option.some.inj (loaded'.symm.trans loaded)
    exact .inr ⟨i, mem_of_instruction? loaded fetched, stage, cause, executed, rfl⟩

/-- Whatever happens around a machine that runs a loaded program, it meets no fault but an empty
stack or a missing loop. -/
theorem IsRun.fault_of_loaded {name : Text} {source : Stream} {m : Machine} {run : Nat → Rig}
    (loaded : (Assembly.load name source).result = .ok p)
    (mode : m.options.unitMode ∈ UnitMode.named) (isRun : IsRun run)
    (start : (run 0).machine = m.load p) {k : Nat} {e : RunError} {f : Fault}
    (failed : (run k).step.2 = .error e) (fault : e.cause = .fault f) :
    f = .operandStackUnderrun ∨ f = .callStackUnderrun ∨ f = .noLoop ∨
      ∃ n, f = .loopVarOutside n := by
  have named := Assembly.load_isNamed loaded
  have carries : p.Carries Value.IsNamed := fun i member => (named i member).2
  obtain ⟨running, held⟩ := isRun.holds makes_isNamed start mode carries k
  obtain interrupted | ⟨i, member, stage, e', executed, cause⟩ := step_error running failed
  · obtain rfl | rfl | rfl | rfl := interrupted <;> cases fault
  · have tame : IsTame (({ run k with stage := stage } : Rig).execute p i).2 :=
      execute_isTame (by exact held) (named i member) p
    exact tame e' executed f (cause.symm.trans fault)

/-- A fault that the first step of some loaded program meets, and that is among the four. -/
def MetAtOnce (f : Fault) : Prop :=
  (∃ source p e, (Assembly.load "p" source).result = .ok p ∧ (({} : Rig).load p).step.2 = .error e ∧
    e.cause = .fault f) ∧ f.IsStackFault

/-- Each of the four is met by the first step of some loaded program, so the list cannot be
shortened. -/
theorem each_stack_fault_met :
    MetAtOnce .operandStackUnderrun ∧ MetAtOnce .callStackUnderrun ∧ MetAtOnce .noLoop ∧
      MetAtOnce (.loopVarOutside 0) := by
  have met : ∀ {source p e f}, (Assembly.load "p" source).result = .ok p →
      (({} : Rig).load p).step.2 = .error e → e.cause = .fault f → MetAtOnce f := by
    intro source p e f loaded failed fault
    exact ⟨⟨source, p, e, loaded, failed, fault⟩,
      IsRun.fault_of_loaded loaded (by decide) (isRun_afterSteps (({} : Rig).load p)) rfl
        (show (afterSteps _ 0).step.2 = _ from failed) fault⟩
  have pop : (Assembly.load "p" { bytes := "code = [[\"POP\", \"$x\"]]" }).result =
      .ok { name := "p", routines := {}
            code := [{ op := .pop, first := some (.symbol "x") }] } := by
    rfl
  have ret : (Assembly.load "p" { bytes := "code = [[\"END\"]]" }).result =
      .ok { name := "p", code := [{ op := .ret }], routines := {} } := by
    rfl
  have endLoop : (Assembly.load "p" { bytes := "code = [[\"END_LOOP\"]]" }).result =
      .ok { name := "p", code := [{ op := .endLoop }], routines := {} } := by
    rfl
  have move : (Assembly.load "p" { bytes := "code = [[\"MOVEQ\", true, \"@0\"]]" }).result =
      .ok { name := "p", routines := {}
            code := [⟨.moveLiteral, some (.bool true), some (.loopVar 0)⟩] } := by
    rfl
  exact ⟨met pop rfl rfl, met ret rfl rfl, met endLoop rfl rfl, met move rfl rfl⟩

end Rig

end Lightboard
