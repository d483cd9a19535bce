import Lightboard.Assembly.Loader
import Lightboard.Proofs.Machine.Causes
import Lightboard.Proofs.Machine.Holdings

/-!
# Calls to routines that are not there

The loader warns about calls whose target is a text that names no routine. The machine also takes a
symbol as the name of a routine, and the loader does not look at those. So where the loader did not
warn, a run fails for want of a routine exactly at the calls by a symbol that names none;
`IsRun.unresolved_iff` says so.
-/

namespace Lightboard

namespace Assembly

variable {name : Text} {source : Stream} {p : Program} {i : Instruction} {n : Text}

/-- What the loader logs about a call to a routine that is not there. -/
def undefinedRoutine : Text := "Call to undefined routine"

theorem mem_undefinedCalls (member : i ∈ p.code) (op : i.op = .call)
    (first : i.first = some (.str n)) (missing : p.routines.contains n = false) :
    ∃ pc, (pc, n) ∈ undefinedCalls p := by
  obtain ⟨pc, found⟩ := List.mem_iff_getElem?.mp member
  refine ⟨pc, List.mem_filterMap.mpr ⟨(i, pc), ?_, ?_⟩⟩
  · exact List.mk_mem_zipIdx_iff_getElem?.mpr found
  · simp [op, first, missing]

/-- The log of a program that was loaded has the warnings about its calls. -/
theorem callWarnings_subset (loaded : (load name source).result = .ok p) :
    ∀ entry ∈ callWarnings p, entry ∈ (load name source).log := by
  unfold load at loaded ⊢
  split at loaded
  · cases loaded
  · split at loaded
    · simp only [loadSource] at loaded ⊢
      split at loaded
      · cases loaded
      · next code routines read =>
        obtain rfl := Except.ok.inj loaded
        intro entry member
        exact List.mem_append_right _ member
    · cases loaded

/-- If the loader did not warn, all calls by a text name a routine. -/
theorem contains_of_silent (loaded : (load name source).result = .ok p)
    (silent : ∀ entry ∈ (load name source).log, entry.message ≠ undefinedRoutine)
    (member : i ∈ p.code) (op : i.op = .call) (first : i.first = some (.str n)) :
    p.routines.contains n = true := by
  cases known : p.routines.contains n with
  | true => rfl
  | false =>
      obtain ⟨pc, undefined⟩ := mem_undefinedCalls member op first known
      have warned := callWarnings_subset loaded _ (List.mem_map_of_mem undefined)
      exact absurd rfl (silent _ warned)

end Assembly

namespace Rig

variable {r : Rig} {p : Program} {n : Text}

/-- A step fails for want of a routine if it executes a call whose target names none. -/
theorem step_unresolved_iff (loaded : r.machine.program = some p) :
    (∃ e, r.step.2 = .error e ∧ e.cause = .unresolvedRoutine n) ↔
      r.stage.poll.2 = .ok () ∧ ∃ i, r.machine.instruction? = some i ∧ i.op = .call ∧
        name i.first = .ok n ∧ p.resolve n = none := by
  constructor
  · rintro ⟨e, failed, cause⟩
    have goes := r.step_goes
    generalize r.step = o at goes failed
    cases goes with
    | ended => cases failed
    | interrupted h =>
        obtain rfl := StepResult.error.inj failed
        obtain rfl | rfl | rfl | rfl := h <;> cases cause
    | @executed p' i stage loaded' fetched polled =>
        obtain rfl := Option.some.inj (loaded'.symm.trans loaded)
        obtain ⟨e, executed, rfl⟩ := stepAt_error_iff.mp failed
        have raises : e.cause.raiser? = some .call := congrArg RunError.raiser? cause
        have op := execute_raiser executed raises
        simp only [execute, op] at executed
        obtain none | ⟨n', named, missing, rfl⟩ := callRoutine_error executed
        · cases none.symm.trans raises
        · obtain rfl := RunError.unresolvedRoutine.inj cause
          exact ⟨by rw [polled], i, fetched, op, named, missing⟩
  · rintro ⟨polled, i, fetched, op, named, missing⟩
    refine ⟨.instruction r.machine.registers.pc i.op (.unresolvedRoutine n), ?_, rfl⟩
    rw [step_eq_stepAt loaded fetched (Prod.ext rfl polled)]
    refine stepAt_error_iff.mpr ⟨_, ?_, rfl⟩
    simp only [execute, op, callRoutine, named, missing]
    rfl

/-- In a run of a program that was loaded without a warning about its calls, a step fails for want of
a routine if and only if the run goes on to a call whose target is a symbol that names no routine. -/
theorem IsRun.unresolved_iff {name : Text} {source : Stream} {m : Machine} {run : Nat → Rig}
    (loaded : (Assembly.load name source).result = .ok p)
    (silent : ∀ entry ∈ (Assembly.load name source).log,
      entry.message ≠ Assembly.undefinedRoutine)
    (isRun : IsRun run) (start : (run 0).machine = m.load p) (k : Nat) (n : Text) :
    (∃ e, (run k).step.2 = .error e ∧ e.cause = .unresolvedRoutine n) ↔
      (run k).stage.poll.2 = .ok () ∧ ∃ i, (run k).machine.instruction? = some i ∧ i.op = .call ∧
        i.first = some (.symbol n) ∧ p.resolve n = none := by
  have running := isRun.program start k
  rw [step_unresolved_iff running]
  constructor
  · rintro ⟨polled, i, fetched, op, named, missing⟩
    refine ⟨polled, i, fetched, op, ?_, missing⟩
    unfold Rig.name at named
    split at named
    · next text first =>
      obtain rfl := Except.ok.inj named
      have member := mem_of_instruction? running fetched
      have known := Assembly.contains_of_silent loaded silent member op first
      simp [Table.contains, show p.routines.get? text = none from missing] at known
    · next text first =>
      obtain rfl := Except.ok.inj named
      exact first
    · cases named
  · rintro ⟨polled, i, fetched, op, first, missing⟩
    exact ⟨polled, i, fetched, op, by rw [first]; rfl, missing⟩

/-- A call by a symbol that names no routine is loaded without a word, and fails. -/
theorem symbolCall_unresolved :
    let source : Stream := { bytes := "code = [[\"JSR\", \"$missing\"]]" }
    ∃ p, (Assembly.load "p" source).result = .ok p ∧ (Assembly.load "p" source).log = [] ∧
      ∃ e, (({} : Rig).load p).step.2 = .error e ∧ e.cause = .unresolvedRoutine "missing" := by
  intro source
  have loaded : (Assembly.load "p" source).result =
      .ok { name := "p", code := [{ op := .call, first := some (.symbol "missing") }]
            routines := {} } := by
    rfl
  have log : (Assembly.load "p" source).log = [] := by rfl
  refine ⟨_, loaded, log, ?_⟩
  have silent : ∀ entry ∈ (Assembly.load "p" source).log,
      entry.message ≠ Assembly.undefinedRoutine := by
    rw [log]
    nofun
  exact (IsRun.unresolved_iff (m := {}) loaded silent (isRun_afterSteps _) rfl 0 "missing").mpr
    ⟨rfl, _, rfl, rfl, rfl, rfl⟩

end Rig

end Lightboard
