import Lightboard.Proofs.Machine.Failures

/-!
# What steps do to the call stack

`Rig.change` tells what a step does to the call stack: which name or token it writes and with what
value, or which frame it opens or leaves. It is read off the instruction and off how the step ends,
and `step_calls` shows that the call stack of the next state is the change applied to the one before,
so that statements about whole runs can speak of single changes.
-/

namespace Lightboard

namespace CallStack

/-- What a step can do to a call stack. -/
inductive Change where
  | keep
  | constant (name : Text) (v : Slot)
  | param (name : Text) (v : Slot)
  /-- A variable is written, global or not. -/
  | symbol (name : Text) (v : Slot)
  /-- A token of the loop on top is written. -/
  | token (n : Int) (v : Slot)
  | call (back : Int)
  | ret
  /-- The loops outside of any call are left by a return that fails. -/
  | unwind
  | loop
  | endLoop

namespace Change

/-- The call stack after a change. -/
def apply : Change → CallStack → CallStack
  | .keep, s => s
  | .constant n v, s => s.putConstant n v
  | .param n v, s => s.putParam n v
  | .symbol n v, s => s.putName n v
  | .token n v, s => (s.putToken n v).toOption.getD s
  | .call back, s => (s.setReturn back).push
  | .ret, s => s.unwindLoops.pop.toOption.getD s
  | .unwind, s => s.unwindLoops
  | .loop, s => s.enterLoop
  | .endLoop, s => s.exitLoop.toOption.getD s

/-- The change that storing a value brings about: none if the place is a register. -/
def ofStore (dest v : Slot) : Change :=
  match dest with
  | some (.symbol name) => .symbol name v
  | some (.loopVar n) => .token n v
  | _ => .keep

theorem ofStore_of_ne {dest : Slot} (symbol : ∀ n, dest ≠ some (.symbol n))
    (token : ∀ n, dest ≠ some (.loopVar n)) (v : Slot) : ofStore dest v = .keep := by
  unfold ofStore
  split
  · exact absurd rfl (symbol _)
  · exact absurd rfl (token _)
  · rfl

end Change

end CallStack

open CallStack

namespace Rig

variable {r : Rig} {p : Program} {i : Instruction}

/-- The change that an instruction makes if it succeeds. -/
def changeBy (r : Rig) (i : Instruction) : Change :=
  match i.op with
  | .constant =>
    match name i.first, r.resolve i.second with
    | .ok n, .ok v => .constant n v
    | _, _ => .keep
  | .param =>
    match name i.first, r.resolve i.second with
    | .ok n, .ok v => .param n v
    | _, _ => .keep
  | .move =>
    match r.resolve i.first with
    | .ok v => .ofStore i.second v
    | .error _ => .keep
  | .moveLiteral => .ofStore i.second i.first
  | .pop =>
    match r.machine.stack with
    | v :: _ => .ofStore i.first v
    | [] => .keep
  | .call => .call (r.machine.registers.pc + 1)
  | .ret => .ret
  | .loop => .loop
  | .endLoop => .endLoop
  | _ => .keep

/-- The change that the next step makes. -/
def change (r : Rig) : Change :=
  match r.step.2 with
  | .error (.instruction _ .ret _) => if r.machine.calls.calls.isEmpty then .unwind else .keep
  | .error _ => .keep
  | _ =>
    match r.machine.instruction? with
    | some i => r.changeBy i
    | none => .keep

theorem setRegister_calls (r : Rig) (reg : Register) (v : Slot) :
    (r.setRegister reg v).1.machine.calls = r.machine.calls := by
  unfold setRegister
  split <;> rfl

theorem switchUnits_calls (r : Rig) (v : Slot) :
    (r.switchUnits v).1.machine.calls = r.machine.calls := by
  unfold switchUnits
  split
  · split <;> rfl
  · rfl

/-- A token that cannot be written leaves the call stack alone, as its change does. -/
theorem setVariable_calls (r : Rig) {dest : Slot} (v : Slot)
    (named : (∃ n, dest = some (.symbol n)) ∨ ∃ n, dest = some (.loopVar n)) :
    (r.setVariable dest v).1.machine.calls = (Change.ofStore dest v).apply r.machine.calls := by
  obtain ⟨n, rfl⟩ | ⟨n, rfl⟩ := named
  · rfl
  · simp only [setVariable, putVariable, Change.ofStore, Change.apply]
    cases r.machine.calls.putToken n v with
    | ok s => rfl
    | error f => rfl

theorem store_calls (r : Rig) (dest v : Slot) :
    (r.store dest v).1.machine.calls = (Change.ofStore dest v).apply r.machine.calls := by
  unfold store
  split
  · exact r.switchUnits_calls v
  · exact r.setRegister_calls _ v
  · exact r.setVariable_calls v (.inl ⟨_, rfl⟩)
  · exact r.setVariable_calls v (.inr ⟨_, rfl⟩)
  · next symbol token =>
    rw [Change.ofStore_of_ne symbol token]
    rfl

/-- A value that was popped is stored like any other. -/
theorem pop_calls {v : Slot} {rest : OperandStack} (top : r.machine.stack = v :: rest)
    (dest : Slot) :
    (r.pop dest).1.machine.calls = (Change.ofStore dest v).apply r.machine.calls := by
  simp only [pop, top, OperandStack.pop]
  split
  · exact (r.setStack rest).setRegister_calls _ v
  · exact (r.setStack rest).setVariable_calls v (.inl ⟨_, rfl⟩)
  · exact (r.setStack rest).setVariable_calls v (.inr ⟨_, rfl⟩)
  · next symbol token =>
    rw [Change.ofStore_of_ne symbol token]
    rfl

/-- The instructions that concern the call stack. -/
def callOps : List OpCode :=
  [.constant, .param, .move, .moveLiteral, .pop, .call, .ret, .loop, .endLoop]

theorem Effect.calls_of_not_mem {m : Machine} {outcome : Except RunError Unit}
    (effect : r.Effect p i m outcome) (other : i.op ∉ callOps) : m.calls = r.machine.calls := by
  cases effect with
  | constant op => simp [op, callOps] at other
  | param op => simp [op, callOps] at other
  | called op => simp [op, callOps] at other
  | returned op => simp [op, callOps] at other
  | unwound op => simp [op, callOps] at other
  | looped op => simp [op, callOps] at other
  | unlooped op => simp [op, callOps] at other
  | moved op => simp [op, callOps] at other
  | movedLiteral op => simp [op, callOps] at other
  | popped op => simp [op, callOps] at other
  | _ => rfl

theorem changeBy_of_not_mem (other : i.op ∉ callOps) : r.changeBy i = .keep := by
  unfold changeBy
  split
  all_goals first | rfl | simp_all [callOps]

theorem defineConstant_calls (op : i.op = .constant) (ok : (r.defineConstant i).2 = .ok ()) :
    (r.defineConstant i).1.machine.calls = (r.changeBy i).apply r.machine.calls := by
  simp only [defineConstant, changeBy, op] at ok ⊢
  cases named : name i.first with
  | error e => simp [named, fail] at ok
  | ok n =>
      cases resolved : r.resolve i.second with
      | error e => simp [named, resolved, fail] at ok
      | ok v => rfl

theorem stageParam_calls (op : i.op = .param) (ok : (r.stageParam i).2 = .ok ()) :
    (r.stageParam i).1.machine.calls = (r.changeBy i).apply r.machine.calls := by
  simp only [stageParam, changeBy, op] at ok ⊢
  cases named : name i.first with
  | error e => simp [named, fail] at ok
  | ok n =>
      cases resolved : r.resolve i.second with
      | error e => simp [named, resolved, fail] at ok
      | ok v => rfl

theorem callRoutine_calls (op : i.op = .call) (ok : (r.callRoutine p i).2 = .ok ()) :
    (r.callRoutine p i).1.machine.calls = (r.changeBy i).apply r.machine.calls := by
  simp only [callRoutine, changeBy, op] at ok ⊢
  cases named : name i.first with
  | error e => simp [named, fail] at ok
  | ok n =>
      cases resolved : p.resolve n with
      | none => simp [named, resolved, fail] at ok
      | some entry => simp [Change.apply, resolved, done, setCalls, setCounter]

theorem returnFromRoutine_calls (op : i.op = .ret) (ok : r.returnFromRoutine.2 = .ok ()) :
    r.returnFromRoutine.1.machine.calls = (r.changeBy i).apply r.machine.calls := by
  simp only [returnFromRoutine, changeBy, op, Change.apply] at ok ⊢
  cases popped : r.machine.calls.unwindLoops.pop with
  | error f => simp [popped, fault, fail] at ok
  | ok s => rfl

theorem leaveLoop_calls (op : i.op = .endLoop) :
    r.leaveLoop.1.machine.calls = (r.changeBy i).apply r.machine.calls := by
  simp only [leaveLoop, changeBy, op, Change.apply]
  cases r.machine.calls.exitLoop with
  | error f => rfl
  | ok s => rfl

/-- An instruction that succeeds changes the call stack as `changeBy` says. -/
theorem execute_calls (ok : (r.execute p i).2 = .ok ()) :
    (r.execute p i).1.machine.calls = (r.changeBy i).apply r.machine.calls := by
  by_cases other : i.op ∈ callOps
  case neg =>
    rw [changeBy_of_not_mem other]
    exact (r.execute_effect p i).calls_of_not_mem other
  simp only [callOps, List.mem_cons, List.not_mem_nil, or_false] at other
  obtain op | op | op | op | op | op | op | op | op := other <;> simp only [execute, op] at ok ⊢
  · exact defineConstant_calls op ok
  · exact stageParam_calls op ok
  · simp only [changeBy, op]
    cases resolved : r.resolve i.first with
    | error e => simp [resolved, fail] at ok
    | ok v => exact r.store_calls i.second v
  · simp only [changeBy, op]
    cases given : i.first with
    | none => simp [given, bad, fail] at ok
    | some v => exact r.store_calls i.second (some v)
  · simp only [changeBy, op]
    cases top : r.machine.stack with
    | nil => simp [pop, top, OperandStack.pop, fault, fail] at ok
    | cons v rest => exact pop_calls top i.first
  · exact callRoutine_calls op ok
  · exact returnFromRoutine_calls op ok
  · simp only [changeBy, op]
    rfl
  · exact leaveLoop_calls op

theorem leftBy_calls (r : Rig) (i : Instruction) :
    (r.leftBy i).calls =
      if i.op = .ret ∧ r.machine.calls.calls.isEmpty then r.machine.calls.unwindLoops
      else r.machine.calls := by
  unfold leftBy
  split
  all_goals simp_all
  all_goals split <;> simp_all

theorem change_of_ok (succeeded : ∀ e, r.step.2 ≠ .error e)
    (fetched : r.machine.instruction? = some i) : r.change = r.changeBy i := by
  unfold change
  split
  · next failed => exact absurd failed (succeeded _)
  · next failed => exact absurd failed (succeeded _)
  · rw [fetched]

/-- The call stack after a step is the one before it with the change made. -/
theorem step_calls (r : Rig) : r.step.1.machine.calls = r.change.apply r.machine.calls := by
  cases outcome : r.step.2 with
  | error e =>
      cases step_failed outcome with
      | interrupted _ h machine =>
          rw [machine]
          obtain rfl | rfl | rfl | rfl := h <;> simp only [change, outcome, Change.apply]
      | @instruction i cause _ _ h machine =>
          subst h
          rw [machine, leftBy_calls]
          by_cases op : i.op = .ret
          · by_cases empty : r.machine.calls.calls.isEmpty
            · simp [change, outcome, op, empty, Change.apply]
            · simp [change, outcome, op, empty, Change.apply]
          · simp [change, outcome, op, Change.apply]
  | _ =>
      have succeeded : ∀ e, r.step.2 ≠ .error e := by simp [outcome]
      obtain ⟨none, machine⟩ | ⟨p, i, stage, -, fetched, ok, machine⟩ := step_of_ok succeeded
      · rw [machine]
        simp [change, outcome, none, Change.apply]
      · rw [machine, Machine.movedPast_calls, execute_calls ok, change_of_ok succeeded fetched]
        rfl

theorem IsRun.calls {run : Nat → Rig} (isRun : IsRun run) (k : Nat) :
    (run (k + 1)).machine.calls = (run k).change.apply (run k).machine.calls := by
  rw [isRun k, step_calls]

end Rig

/-- The value `v` was written at some step before the `k`-th, and no step since then ended it. -/
def Latest {ν : Type} (writes : Nat → ν → Prop) (ends : Nat → Prop) (k : Nat) (v : ν) : Prop :=
  ∃ w < k, writes w v ∧ ∀ j, w < j → j < k → ¬ ends j

theorem not_latest_zero {ν : Type} {writes : Nat → ν → Prop} {ends : Nat → Prop} {v : ν} :
    ¬ Latest writes ends 0 v := by
  rintro ⟨w, before, -⟩
  exact Nat.not_lt_zero w before

/-- One more step writes the value, or lets stand what was written before. -/
theorem latest_succ_iff {ν : Type} {writes : Nat → ν → Prop} {ends : Nat → Prop} {k : Nat} {v : ν} :
    Latest writes ends (k + 1) v ↔ writes k v ∨ (¬ ends k ∧ Latest writes ends k v) := by
  constructor
  · rintro ⟨w, before, written, stands⟩
    obtain earlier | rfl := Nat.lt_succ_iff_lt_or_eq.mp before
    · exact .inr ⟨stands k earlier (Nat.lt_succ_self k), w, earlier, written,
        fun j after upTo => stands j after (Nat.lt_succ_of_lt upTo)⟩
    · exact .inl written
  · rintro (written | ⟨goesOn, w, earlier, written, stands⟩)
    · exact ⟨k, Nat.lt_succ_self k, written, fun j after upTo => by omega⟩
    · refine ⟨w, Nat.lt_succ_of_lt earlier, written, ?_⟩
      intro j after upTo
      obtain sooner | rfl := Nat.lt_succ_iff_lt_or_eq.mp upTo
      · exact stands j after sooner
      · exact goesOn

/-- Where every write ends the one before it, a step that does not write changes nothing. -/
theorem latest_of_idle {ν : Type} {writes : Nat → ν → Prop} {k : Nat} (idle : ∀ u, ¬ writes k u)
    (v : ν) : Latest writes (fun j => ∃ u, writes j u) (k + 1) v ↔
      Latest writes (fun j => ∃ u, writes j u) k v := by
  have goesOn : ¬ ∃ u, writes k u := fun ⟨u, written⟩ => idle u written
  rw [latest_succ_iff]
  simp only [idle v, goesOn, not_false_eq_true, true_and, false_or]

/-- Where every write ends the one before it, a step that writes one value leaves that. -/
theorem latest_of_writes {ν : Type} {writes : Nat → ν → Prop} {k : Nat} {u : ν} (written : writes k u)
    (only : ∀ v, writes k v → u = v) (v : ν) :
    Latest writes (fun j => ∃ u, writes j u) (k + 1) v ↔ u = v := by
  rw [latest_succ_iff]
  constructor
  · rintro (other | ⟨ended, -⟩)
    · exact only v other
    · exact absurd ⟨u, written⟩ ended
  · rintro rfl
    exact .inl written

end Lightboard
