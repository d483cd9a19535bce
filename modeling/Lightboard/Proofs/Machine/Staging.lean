import Lightboard.Proofs.Machine.CallChanges
import Lightboard.Proofs.Machine.Unseen

/-!
# Parameters wait for the next call

Parameters are staged one by one, and a call takes all that are staged into the scope of its frame.
Nothing is staged any more after a call or a return, so a frame gets the parameters that were staged
since then and no others; `IsRun.staged_iff` says so for a whole run.
-/

namespace Lightboard

namespace CallStack

variable {s s' : CallStack}

theorem stagedScope_pop (popped : s.pop = .ok s') (n : Text) : s'.stagedScope.get? n = none := by
  obtain ⟨f, rest, -, rfl⟩ := pop_eq_ok popped
  rfl

/-- What is staged changes only with a parameter, a call or a return. -/
theorem stagedScope_apply {c : Change} (param : ∀ n v, c ≠ .param n v) (call : ∀ back, c ≠ .call back)
    (ret : c ≠ .ret) (s : CallStack) : (c.apply s).stagedScope = s.stagedScope := by
  cases c with
  | keep => rfl
  | constant n v =>
      simp only [Change.apply, putConstant]
      split <;> rfl
  | param n v => exact absurd rfl (param n v)
  | symbol n v =>
      simp only [Change.apply, putName]
      split
      · rfl
      · exact stagedScope_setInnermost s _
  | token n v =>
      simp only [Change.apply, putToken]
      split
      · rfl
      · exact stagedScope_setInnermost s _
  | call back => exact absurd rfl (call back)
  | ret => exact absurd rfl ret
  | unwind => exact stagedScope_setInnermost s _
  | loop => exact stagedScope_setInnermost s _
  | endLoop =>
      simp only [Change.apply, exitLoop]
      split
      · rfl
      · exact stagedScope_setInnermost s _

end CallStack

open CallStack

namespace Rig

/-- The next step stages a parameter, with the value that its operand stands for now. -/
def Stages (r : Rig) (n : Text) (v : Slot) : Prop :=
  (∃ i, r.machine.instruction? = some i ∧ i.op = .param ∧ name i.first = .ok n ∧
    r.resolve i.second = .ok v) ∧ ∀ e, r.step.2 ≠ .error e

/-- The kind of instruction that makes a change, for the changes that only one kind makes. -/
def maker? : Change → Option OpCode
  | .constant _ _ => some .constant
  | .param _ _ => some .param
  | .call _ => some .call
  | .ret => some .ret
  | .loop => some .loop
  | .endLoop => some .endLoop
  | _ => none

theorem maker?_ofStore (dest v : Slot) : maker? (.ofStore dest v) = none := by
  unfold Change.ofStore
  split <;> rfl

theorem maker?_changeBy (r : Rig) (i : Instruction) :
    maker? (r.changeBy i) = none ∨ maker? (r.changeBy i) = some i.op := by
  cases op : i.op <;> simp only [changeBy, op]
  case constant =>
    split
    · exact .inr rfl
    · exact .inl rfl
  case param =>
    split
    · exact .inr rfl
    · exact .inl rfl
  case move =>
    split
    · exact .inl (maker?_ofStore _ _)
    · exact .inl rfl
  case moveLiteral => exact .inl (maker?_ofStore _ _)
  case pop =>
    split
    · exact .inl (maker?_ofStore _ _)
    · exact .inl rfl
  case call => exact .inr rfl
  case ret => exact .inr rfl
  case loop => exact .inr rfl
  case endLoop => exact .inr rfl
  all_goals exact .inl rfl

theorem maker?_of_error {r : Rig} {e : RunError} (failed : r.step.2 = .error e) :
    maker? r.change = none := by
  unfold change
  rw [failed]
  split
  · split <;> rfl
  · rfl
  · next other => exact absurd rfl (other e)

/-- A change that only one kind of instruction makes comes from a step that executes one. -/
theorem change_made {r : Rig} {op : OpCode} (made : maker? r.change = some op) :
    ∃ i, r.machine.instruction? = some i ∧ i.op = op ∧ r.change = r.changeBy i ∧
      ∀ e, r.step.2 ≠ .error e := by
  have succeeded : ∀ e, r.step.2 ≠ .error e := by
    intro e failed
    rw [maker?_of_error failed] at made
    cases made
  cases fetched : r.machine.instruction? with
  | none =>
      unfold change at made
      split at made
      all_goals simp_all [maker?]
  | some i =>
      have change := change_of_ok succeeded fetched
      rw [change] at made
      obtain none | some := r.maker?_changeBy i
      · cases made.symm.trans none
      · exact ⟨i, rfl, Option.some.inj (some.symm.trans made), change, succeeded⟩

theorem succeeds_of_made {r : Rig} {op : OpCode} (made : maker? r.change = some op) :
    r.Succeeds op := by
  obtain ⟨i, fetched, op, -, succeeded⟩ := change_made made
  exact ⟨⟨i, fetched, op⟩, succeeded⟩

theorem change_eq_param_iff {r : Rig} {n : Text} {v : Slot} :
    r.change = .param n v ↔ r.Stages n v := by
  constructor
  · intro staged
    obtain ⟨i, fetched, op, change, succeeded⟩ := change_made (r := r) (by rw [staged]; rfl)
    rw [staged] at change
    refine ⟨⟨i, fetched, op, ?_⟩, succeeded⟩
    simp only [changeBy, op] at change
    split at change
    · next named resolved =>
      obtain ⟨rfl, rfl⟩ := Change.param.inj change
      exact ⟨named, resolved⟩
    · cases change
  · rintro ⟨⟨i, fetched, op, named, resolved⟩, succeeded⟩
    rw [change_of_ok succeeded fetched]
    simp only [changeBy, op, named, resolved]

theorem Succeeds.change_call {r : Rig} (called : r.Succeeds .call) :
    r.change = .call (r.machine.registers.pc + 1) := by
  obtain ⟨⟨i, fetched, op⟩, succeeded⟩ := called
  rw [change_of_ok succeeded fetched]
  simp only [changeBy, op]

theorem change_eq_call_iff {r : Rig} : (∃ back, r.change = .call back) ↔ r.Succeeds .call := by
  constructor
  · rintro ⟨back, called⟩
    exact succeeds_of_made (by rw [called]; rfl)
  · intro called
    exact ⟨_, called.change_call⟩

theorem change_eq_ret_iff {r : Rig} : r.change = .ret ↔ r.Succeeds .ret := by
  constructor
  · intro returned
    exact succeeds_of_made (by rw [returned]; rfl)
  · rintro ⟨⟨i, fetched, op⟩, succeeded⟩
    rw [change_of_ok succeeded fetched]
    simp only [changeBy, op]

/-- A return that succeeds takes a frame off. -/
theorem Succeeds.pops {r : Rig} (returns : r.Succeeds .ret) :
    ∃ s, r.machine.calls.unwindLoops.pop = .ok s := by
  obtain ⟨⟨i, fetched, op⟩, succeeded⟩ := returns
  obtain ⟨none, -⟩ | ⟨p, i', stage, -, fetched', executed, -⟩ := step_of_ok succeeded
  · cases none.symm.trans fetched
  · obtain rfl := Option.some.inj (fetched'.symm.trans fetched)
    simp only [execute, op, returnFromRoutine] at executed
    split at executed
    · cases executed
    · next s popped => exact ⟨s, popped⟩

/-- After a step a parameter is staged if the step staged it, or if it was staged before and the step
neither staged another under its name nor called nor returned. -/
theorem step_staged (r : Rig) (n : Text) (v : Slot) :
    r.step.1.machine.calls.stagedScope.get? n = some v ↔
      r.Stages n v ∨ (¬ ((∃ u, r.Stages n u) ∨ r.Succeeds .call ∨ r.Succeeds .ret) ∧
        r.machine.calls.stagedScope.get? n = some v) := by
  rw [step_calls, ← change_eq_param_iff, ← change_eq_call_iff, ← change_eq_ret_iff]
  simp only [← change_eq_param_iff]
  cases change : r.change with
  | param n' v' =>
      have put : ((Change.param n' v').apply r.machine.calls).stagedScope.get? n =
          if n = n' then some v' else r.machine.calls.stagedScope.get? n := Table.get?_insert _ _ _ _
      rw [put]
      by_cases same : n = n'
      · simp [same]
      · simp [same, Ne.symm same]
  | call back =>
      have taken : ((Change.call back).apply r.machine.calls).stagedScope.get? n = none := rfl
      simp [taken]
  | ret =>
      obtain ⟨s, popped⟩ := (change_eq_ret_iff.mp change).pops
      have dropped : (Change.ret.apply r.machine.calls).stagedScope.get? n = none := by
        rw [Change.apply, popped]
        exact stagedScope_pop popped n
      simp [dropped]
  | _ =>
      rw [stagedScope_apply]
      all_goals simp

/-- The parameter of a name that the next call will take: the last one that was staged since the
latest call or return. -/
def LastStaged (run : Nat → Rig) (n : Text) (k : Nat) (v : Slot) : Prop :=
  Latest (fun j u => (run j).Stages n u)
    (fun j => (∃ u, (run j).Stages n u) ∨ (run j).Succeeds .call ∨ (run j).Succeeds .ret) k v

theorem IsRun.staged_iff {run : Nat → Rig} (isRun : IsRun run)
    (start : (run 0).machine.calls.stagedScope = {}) (n : Text) (k : Nat) (v : Slot) :
    (run k).machine.calls.stagedScope.get? n = some v ↔ LastStaged run n k v := by
  induction k with
  | zero =>
      rw [start]
      constructor
      · intro found
        cases found
      · intro latest
        exact absurd latest not_latest_zero
  | succ k ih =>
      rw [isRun k, step_staged, ih]
      unfold LastStaged
      rw [latest_succ_iff]

/-- What is taken by the next call was staged after the latest return. -/
theorem LastStaged.after_return {run : Nat → Rig} {n : Text} {k e : Nat} {v : Slot}
    (staged : LastStaged run n k v) (before : e < k) (returned : (run e).Succeeds .ret) :
    ∃ w, e < w ∧ w < k ∧ (run w).Stages n v := by
  obtain ⟨w, earlier, written, stands⟩ := staged
  obtain later | rfl | sooner := Nat.lt_trichotomy e w
  · exact ⟨w, later, earlier, written⟩
  · -- One step does not both stage and return.
    cases (change_eq_param_iff.mpr written).symm.trans (change_eq_ret_iff.mpr returned)
  · exact absurd (.inr (.inr returned)) (stands e sooner before)

/-- In a run of a program, a call that succeeds puts a frame on top whose scope has the parameters
staged since the latest call or return, each with the value last staged under its name, and no
others; nothing that was staged before a return is among them. Until it is taken by a call, what is
staged is found by no look-up, and every step goes the same way whatever is staged. -/
theorem IsRun.parameters_taken {run : Nat → Rig} {m : Machine} {p : Program} (isRun : IsRun run)
    (start : (run 0).machine = m.load p) :
    (∀ a, (run a).Succeeds .call →
      ∃ f, (run (a + 1)).machine.calls.calls = f :: (run a).machine.calls.calls ∧
        f.returnAddr = (run a).machine.registers.pc + 1 ∧ f.loops = [] ∧
        (∀ n v, f.scope.get? n = some v ↔ LastStaged run n a v) ∧
        ∀ e n v, e < a → (run e).Succeeds .ret → f.scope.get? n = some v →
          ∃ w, e < w ∧ w < a ∧ (run w).Stages n v) ∧
    ∀ k t,
      (∀ token, ((run k).restage t).machine.calls.getVariable token =
        (run k).machine.calls.getVariable token) ∧
      (∀ n, ((run k).restage t).machine.calls.isParam n = (run k).machine.calls.isParam n) ∧
      (¬ (run k).Succeeds .call →
        ∃ t', ((run k).restage t).step = ((run k).step.1.restage t', (run k).step.2)) := by
  have empty : (run 0).machine.calls.stagedScope = {} := by rw [start]; rfl
  constructor
  · intro a called
    have staged := isRun.staged_iff empty
    refine ⟨{ scope := (run a).machine.calls.stagedScope
              returnAddr := (run a).machine.registers.pc + 1 }, ?_, rfl, rfl, ?_, ?_⟩
    · rw [isRun.calls a, called.change_call]
      rfl
    · intro n v
      exact staged n a v
    · intro e n v before returned found
      exact ((staged n a v).mp found).after_return before returned
  · intro k t
    exact ⟨fun token => rfl, fun n => rfl, fun other => restage_step other t⟩

/-- A parameter staged twice, one that a routine stages and leaves, and a call after that. -/
def leftParameter : Program where
  name := []
  code :=
    [⟨.param, some (.str [97]), some (.bool true)⟩, ⟨.param, some (.str [97]), some (.bool false)⟩,
     { op := .call, first := some (.str [102]) },
     ⟨.param, some (.str [98]), some (.bool true)⟩,
     { op := .call, first := some (.str [102]) }, { op := .stop },
     { op := .routine, first := some (.str [102]) },
     ⟨.param, some (.str [99]), some (.bool true)⟩, { op := .ret }]
  routines := Table.empty.insert [102] 6

/-- The first call takes the second value, and the second call gets nothing of what the routine
staged before it returned in the sixth step. -/
theorem leftParameter_taken :
    let run := (({} : Rig).load leftParameter).afterSteps
    (∃ f, (run 3).machine.calls.calls = f :: (run 2).machine.calls.calls ∧
      f.scope.get? [97] = some (some (.bool false))) ∧
    ∃ f, (run 8).machine.calls.calls = f :: (run 7).machine.calls.calls ∧
      f.scope.get? [98] = some (some (.bool true)) ∧
      ∀ n v, f.scope.get? n = some v →
        ∃ w, 5 < w ∧ w < 7 ∧ (run w).Stages n v := by
  have taken := ((isRun_afterSteps (({} : Rig).load leftParameter)).parameters_taken
    (m := {}) (p := leftParameter) rfl).1
  obtain ⟨f, frames, -, -, scope, -⟩ := taken 2 ⟨⟨_, rfl, rfl⟩, fun e h => nomatch h⟩
  obtain ⟨g, frames', -, -, scope', after⟩ := taken 7 ⟨⟨_, rfl, rfl⟩, fun e h => nomatch h⟩
  refine ⟨⟨f, frames, ?_⟩, g, frames', ?_, ?_⟩
  · refine (scope _ _).mpr ⟨1, by decide, ⟨⟨_, rfl, rfl, rfl, rfl⟩, fun e h => nomatch h⟩, ?_⟩
    intro j later sooner
    omega
  · refine (scope' _ _).mpr ⟨6, by decide, ⟨⟨_, rfl, rfl, rfl, rfl⟩, fun e h => nomatch h⟩, ?_⟩
    intro j later sooner
    omega
  · intro n v found
    exact after 5 n v (by decide) ⟨⟨_, rfl, rfl⟩, fun e h => nomatch h⟩ found

end Rig

end Lightboard
