import Lightboard.Proofs.Machine.Effect
import Lightboard.Proofs.Machine.Updates

/-!
# Calls and returns balance

A call puts a frame on top of the call stack. As long as that frame is there, instructions reach the
frame that runs and the values of global variables, and nothing else: the frames below it stay what
they were, and no global name comes or goes. The frame is taken off by a return only, which then
continues behind the call.

`CallStack.StandsOn` is the invariant. It names the frame that a call pushed by its place: it stands
directly on the frames that were there before the call.
-/

namespace Lightboard

namespace CallStack

/-- The two stacks have the same frames up to the contents of the one that runs, which is the frame
of a call in both, and up to the values of global variables. -/
structure SameBelow (s t : CallStack) : Prop where
  calls : ∃ f g rest, s.calls = f :: rest ∧ t.calls = g :: rest ∧ g.returnAddr = f.returnAddr
  loops : t.root.loops = s.root.loops
  names : ∀ n, t.root.scope.contains n = s.root.scope.contains n

variable {s t : CallStack} {f : CallFrame} {rest : List CallFrame}

theorem innermost_of_calls (h : s.calls = f :: rest) : s.innermost = f := by
  simp [innermost, h]

theorem setInnermost_of_calls (h : s.calls = f :: rest) (g : CallFrame) :
    s.setInnermost g = { s with calls := g :: rest } := by
  simp [setInnermost, h]

theorem SameBelow.refl (h : s.calls = f :: rest) : s.SameBelow s :=
  ⟨⟨f, f, rest, h, h, rfl⟩, rfl, fun _ => rfl⟩

/-- Another frame in place of the one that runs, with the same return address. -/
theorem sameBelow_setInnermost (h : s.calls = f :: rest) {g : CallFrame}
    (addr : g.returnAddr = s.innermost.returnAddr) : s.SameBelow (s.setInnermost g) := by
  rw [innermost_of_calls h] at addr
  rw [setInnermost_of_calls h]
  exact ⟨⟨f, g, rest, h, rfl, addr⟩, rfl, fun _ => rfl⟩

theorem sameBelow_putConstant (h : s.calls = f :: rest) (n : Text) (v : Slot) :
    s.SameBelow (s.putConstant n v) := by
  unfold putConstant
  split
  · exact .refl h
  · exact ⟨⟨f, f, rest, h, h, rfl⟩, rfl, fun _ => rfl⟩

/-- A variable is written in the frame that runs, or to a global name that exists already. -/
theorem sameBelow_putName (h : s.calls = f :: rest) (n : Text) (v : Slot) :
    s.SameBelow (s.putName n v) := by
  unfold putName
  split
  · next global =>
    refine ⟨⟨f, f, rest, h, h, rfl⟩, rfl, ?_⟩
    intro n'
    rw [Table.contains_insert]
    by_cases same : n' = n
    · rw [same, global, Bool.or_true]
    · simp [same]
  · exact sameBelow_setInnermost h rfl

theorem sameBelow_putVariable (h : s.calls = f :: rest) {token v : Slot}
    (put : s.putVariable token v = .ok t) : s.SameBelow t := by
  obtain ⟨n, -, put⟩ | ⟨n, -, rfl⟩ := putVariable_eq_ok put
  · obtain ⟨l, inner, -, rfl⟩ := putToken_eq_ok put
    exact sameBelow_setInnermost h rfl
  · exact sameBelow_putName h n v

theorem sameBelow_exitLoop (h : s.calls = f :: rest) (left : s.exitLoop = .ok t) :
    s.SameBelow t := by
  obtain ⟨l, inner, -, rfl⟩ := exitLoop_eq_ok left
  exact sameBelow_setInnermost h rfl

/-- Popping takes the frame that runs off, and only that. -/
theorem unwindLoops_pop (h : s.calls = f :: rest) :
    s.unwindLoops.pop = .ok { s with calls := rest, stagedScope := {}, stagedReturn := 0 } := by
  simp [unwindLoops, setInnermost_of_calls h, pop, inLoop, innermost]

theorem unwindLoops_getReturn (h : s.calls = f :: rest) :
    s.unwindLoops.getReturn = f.returnAddr := by
  rw [unwindLoops, setInnermost_of_calls h, getReturn, innermost_of_calls rfl]
  rw [innermost_of_calls h]

/-- The frames of `base` with a frame that returns to `addr` directly on top of them, and possibly
more. -/
structure StandsOn (base : CallStack) (addr : Int) (s : CallStack) : Prop where
  calls : ∃ above callee, s.calls = above ++ callee :: base.calls ∧ callee.returnAddr = addr
  loops : s.root.loops = base.root.loops
  names : ∀ n, s.root.scope.contains n = base.root.scope.contains n

/-- The frames of `base` again, with no frame on top of them. -/
structure BackAt (base s : CallStack) : Prop where
  calls : s.calls = base.calls
  loops : s.root.loops = base.root.loops
  names : ∀ n, s.root.scope.contains n = base.root.scope.contains n

variable {base : CallStack} {addr : Int}

theorem StandsOn.of_push : StandsOn s addr (s.setReturn addr).push :=
  ⟨⟨[], _, rfl, rfl⟩, rfl, fun _ => rfl⟩

theorem StandsOn.sameBelow (h : StandsOn base addr s) (same : s.SameBelow t) :
    StandsOn base addr t := by
  obtain ⟨above, callee, calls, returns⟩ := h.calls
  obtain ⟨f, g, rest, hs, ht, sameAddr⟩ := same.calls
  refine ⟨?_, same.loops.trans h.loops, fun n => (same.names n).trans (h.names n)⟩
  cases above with
  | nil =>
      obtain ⟨rfl, rfl⟩ := List.cons.inj (hs.symm.trans calls)
      exact ⟨[], g, ht, sameAddr.trans returns⟩
  | cons a above =>
      obtain ⟨rfl, rfl⟩ := List.cons.inj (hs.symm.trans calls)
      exact ⟨g :: above, callee, ht, returns⟩

/-- One more call leaves the frames below alone. -/
theorem StandsOn.push (h : StandsOn base addr s) (a : Int) :
    StandsOn base addr (s.setReturn a).push := by
  obtain ⟨above, callee, calls, returns⟩ := h.calls
  refine ⟨⟨{ scope := s.stagedScope, returnAddr := a } :: above, callee, ?_, returns⟩,
    h.loops, h.names⟩
  exact congrArg (_ :: ·) calls

/-- Somebody's frame runs on top of the base. -/
theorem StandsOn.calls_eq_cons (h : StandsOn base addr s) : ∃ f rest, s.calls = f :: rest := by
  obtain ⟨above, callee, calls, -⟩ := h.calls
  cases above with
  | nil => exact ⟨callee, base.calls, calls⟩
  | cons a above => exact ⟨a, _, calls⟩

/-- A return pops a frame above the one in question, or that one. -/
theorem StandsOn.pop (h : StandsOn base addr s) (calls : s.calls = f :: rest)
    (ht : t = { s with calls := rest, stagedScope := {}, stagedReturn := 0 }) :
    StandsOn base addr t ∨ (f.returnAddr = addr ∧ BackAt base t) := by
  subst ht
  obtain ⟨above, callee, split, returns⟩ := h.calls
  cases above with
  | nil =>
      obtain ⟨rfl, rfl⟩ := List.cons.inj (calls.symm.trans split)
      exact .inr ⟨returns, rfl, h.loops, h.names⟩
  | cons a above =>
      obtain ⟨rfl, rfl⟩ := List.cons.inj (calls.symm.trans split)
      exact .inl ⟨⟨above, callee, rfl, returns⟩, h.loops, h.names⟩

theorem StandsOn.callDepth_lt (h : StandsOn base addr s) : base.callDepth < s.callDepth := by
  obtain ⟨above, callee, calls, -⟩ := h.calls
  simp only [callDepth, calls, List.length_append, List.length_cons]
  omega

/-- All frames of the base but the globals stand unchanged at the bottom of the list. -/
theorem StandsOn.frames_prefix (h : StandsOn base addr s) :
    base.frames.tail <+: s.frames.tail := by
  obtain ⟨above, callee, calls, -⟩ := h.calls
  simp only [frames, List.cons_append, List.tail_cons, h.loops, calls]
  rw [List.reverse_append, List.reverse_cons, List.append_assoc, List.flatMap_append]
  refine ⟨_, List.append_assoc _ _ _⟩

theorem BackAt.frames_tail (h : BackAt base s) : s.frames.tail = base.frames.tail := by
  simp only [frames, List.cons_append, List.tail_cons, h.loops, h.calls]

theorem BackAt.callDepth_eq (h : BackAt base s) : s.callDepth = base.callDepth := by
  simp only [callDepth, h.calls]

end CallStack

namespace Rig

open CallStack

variable {r : Rig} {p : Program} {i : Instruction} {m : Machine} {base : CallStack} {addr : Int}

theorem standsOn_of_stored {m m' : Machine} {v : Slot} (stored : m.Stored v m')
    (h : StandsOn base addr m.calls) : StandsOn base addr m'.calls := by
  obtain ⟨f, rest, calls⟩ := h.calls_eq_cons
  cases stored with
  | register => exact h
  | units => exact h
  | «variable» put => exact h.sameBelow (sameBelow_putVariable calls put)

/-- Whatever an instruction does, the frame and those below it stay, unless the instruction is the
return of that frame. -/
theorem Effect.standsOn {outcome : Except RunError Unit} (effect : r.Effect p i m outcome)
    (h : StandsOn base addr r.machine.calls) :
    StandsOn base addr m.calls ∨
      (i.op = .ret ∧ outcome = .ok () ∧ m.registers.pc = addr ∧ BackAt base m.calls) := by
  obtain ⟨f, rest, calls⟩ := h.calls_eq_cons
  cases effect with
  | constant _ _ _ => exact .inl (h.sameBelow (sameBelow_putConstant calls _ _))
  | param _ _ _ => exact .inl ⟨h.calls, h.loops, h.names⟩
  | called _ _ _ => exact .inl (h.push _)
  | returned op popped =>
      rw [unwindLoops_pop calls] at popped
      obtain back | ⟨returns, back⟩ := h.pop calls (Except.ok.inj popped).symm
      · exact .inl back
      · exact .inr ⟨op, rfl, (unwindLoops_getReturn calls).trans returns, back⟩
  | unwound _ underrun =>
      rw [unwindLoops_pop calls] at underrun
      cases underrun
  | looped _ => exact .inl (h.sameBelow (sameBelow_setInnermost calls rfl))
  | unlooped _ left => exact .inl (h.sameBelow (sameBelow_exitLoop calls left))
  | moved _ _ stored => exact .inl (standsOn_of_stored stored h)
  | movedLiteral _ _ stored => exact .inl (standsOn_of_stored stored h)
  | popped _ _ stored => exact .inl (standsOn_of_stored stored h)
  | _ => exact .inl h

/-- A call that succeeds puts its frame on the frames that are there. -/
theorem Effect.call_standsOn {outcome : Except RunError Unit} (effect : r.Effect p i m outcome)
    (ok : outcome = .ok ()) (op : i.op = .call) :
    StandsOn r.machine.calls (r.machine.registers.pc + 1) m.calls := by
  cases effect
  case called => exact .of_push
  case refused => cases ok
  -- Every other success is that of another instruction.
  all_goals simp_all [OpCode.advances]

/-- A step keeps the frame and those below it, or returns from it. -/
theorem Stepped.standsOn {result : StepResult} (stepped : r.Stepped m result)
    (h : StandsOn base addr r.machine.calls) :
    StandsOn base addr m.calls ∨
      ((∃ i, r.machine.instruction? = some i ∧ i.op = .ret) ∧ (∀ e, result ≠ .error e) ∧
        m.registers.pc = addr ∧ BackAt base m.calls) := by
  cases stepped with
  | ended => exact .inl h
  | interrupted => exact .inl h
  | failed _ _ effect =>
      obtain kept | ⟨-, failure, -⟩ := effect.standsOn h
      · exact .inl kept
      · cases failure
  | @done p i _ _ _ _ fetched effect kind =>
      obtain kept | ⟨op, -, pc, back⟩ := effect.standsOn h
      · exact .inl (by rwa [Machine.movedPast_calls])
      · refine .inr ⟨⟨i, fetched, op⟩, ?_, ?_, by rwa [Machine.movedPast_calls]⟩
        · rintro e rfl
          obtain kind | kind := kind <;> cases kind
        · -- A return sets the counter itself.
          simpa [Machine.movedPast, op, OpCode.advances] using pc

theorem IsRun.call_standsOn {run : Nat → Rig} (isRun : IsRun run) {a : Nat} {call : Instruction}
    (fetched : (run a).machine.instruction? = some call) (op : call.op = .call)
    (succeeded : ∀ e, (run a).step.2 ≠ .error e) :
    StandsOn (run a).machine.calls ((run a).machine.registers.pc + 1)
      (run (a + 1)).machine.calls := by
  have stepped := isRun.stepped a
  generalize (run (a + 1)).machine = m at stepped
  generalize result_eq : (run a).step.2 = result at stepped succeeded
  cases stepped with
  | ended none => cases none.symm.trans fetched
  | interrupted => exact absurd rfl (succeeded _)
  | failed => exact absurd rfl (succeeded _)
  | done _ fetched' effect _ =>
      obtain rfl := Option.some.inj (fetched'.symm.trans fetched)
      rw [Machine.movedPast_calls]
      exact effect.call_standsOn rfl op

/-- As long as the call depth has not fallen back since the call, its frame is where it was put. -/
theorem IsRun.standsOn {run : Nat → Rig} (isRun : IsRun run) {a : Nat}
    (entered : StandsOn (run a).machine.calls addr (run (a + 1)).machine.calls) {b : Nat}
    (later : a < b)
    (inside : ∀ k, a < k → k ≤ b →
      (run a).machine.calls.callDepth < (run k).machine.calls.callDepth) :
    StandsOn (run a).machine.calls addr (run b).machine.calls := by
  induction later with
  | refl => exact entered
  | @step b later ih =>
      have before := ih fun k after upTo => inside k after (Nat.le_succ_of_le upTo)
      obtain kept | ⟨-, -, -, back⟩ := (isRun.stepped b).standsOn before
      · exact kept
      · have deep := inside (b + 1) (Nat.lt_succ_of_lt later) (Nat.le_refl _)
        rw [back.callDepth_eq] at deep
        exact absurd deep (Nat.lt_irrefl _)

/-- Let the `a`-th step of a run be a call that succeeds, and let its frame still be there after `b`
steps: in between, the call depth never fell back to what it was before the call. Then the frames
that were there before the call are still there, as they were but for the values of global
variables. If the next step takes the frame off, then that step is a return that succeeds, the
program goes on right behind the call, and the list of frames is the one before the call. -/
theorem IsRun.return_restores_frames {run : Nat → Rig} (isRun : IsRun run) {a b : Nat}
    {call : Instruction} (fetched : (run a).machine.instruction? = some call)
    (op : call.op = .call) (succeeded : ∀ e, (run a).step.2 ≠ .error e) (later : a < b)
    (inside : ∀ k, a < k → k ≤ b →
      (run a).machine.calls.callDepth < (run k).machine.calls.callDepth) :
    let before := (run a).machine
    let within := (run b).machine
    let after := (run (b + 1)).machine
    (before.calls.frames.tail <+: within.calls.frames.tail ∧
      ∀ n, within.calls.root.scope.contains n = before.calls.root.scope.contains n) ∧
    (after.calls.callDepth ≤ before.calls.callDepth →
      (∃ i, within.instruction? = some i ∧ i.op = .ret) ∧ (∀ e, (run b).step.2 ≠ .error e) ∧
      after.registers.pc = before.registers.pc + 1 ∧
      after.calls.frames.tail = before.calls.frames.tail ∧
      ∀ n, after.calls.root.scope.contains n = before.calls.root.scope.contains n) := by
  have stands := isRun.standsOn (isRun.call_standsOn fetched op succeeded) later inside
  refine ⟨⟨stands.frames_prefix, stands.names⟩, ?_⟩
  intro left
  obtain kept | ⟨ret, ok, pc, back⟩ := (isRun.stepped b).standsOn stands
  · exact absurd kept.callDepth_lt (Nat.not_lt.mpr left)
  · exact ⟨ret, ok, pc, back.frames_tail, back.names⟩

/-- A routine that opens a loop and returns without closing it. -/
def openLoopRoutine : Program where
  name := []
  code :=
    [{ op := .call, first := some (.str [102]) }, { op := .stop },
     { op := .routine, first := some (.str [102]) }, { op := .loop }, { op := .ret }]
  routines := Table.empty.insert [102] 2

/-- The return of that routine, four steps after its call, drops the open loop with the frame. -/
theorem openLoopRoutine_returns :
    let run := (({} : Rig).load openLoopRoutine).afterSteps
    (run 3).machine.calls.depth = 3 ∧ (run 4).machine.calls.depth = 1 ∧
      (run 4).machine.registers.pc = (run 0).machine.registers.pc + 1 := by
  have returned := (isRun_afterSteps (({} : Rig).load openLoopRoutine)).return_restores_frames
    (a := 0) (b := 3) rfl rfl
    (fun e h => nomatch h) (by decide)
    (by
      intro k after upTo
      match k, after, upTo with
      | 1, _, _ => decide
      | 2, _, _ => decide
      | 3, _, _ => decide)
  exact ⟨rfl, rfl, (returned.2 (by decide)).2.2.1⟩

end Rig

end Lightboard
