import Lightboard.Proofs.Code.Unions
import Lightboard.Proofs.Machine.Discovery
import Lightboard.Proofs.Machine.Faults
import Lightboard.Proofs.Machine.UnitSwitches

/-!
# Putting a time of day together

A program sets the time register to a time pattern and adds others to it, one after the other and each
as a pattern or as a text. It may switch units in between, which changes a time in seconds but no time
of day. In the end the register holds the union of all these patterns
(`Rig.IsRun.time_of_gathers`).
-/

namespace Lightboard

namespace TimePattern

/-- A union of many patterns matches when one of them does. -/
theorem fits_foldl_union (p : TimePattern) (qs : List TimePattern) (hour minute : Int) :
    (qs.foldl union p).fits hour minute =
      (p.fits hour minute || qs.any (·.fits hour minute)) := by
  induction qs generalizing p with
  | nil => simp
  | cons q qs ih => rw [List.foldl_cons, ih, fits_union, List.any_cons, Bool.or_assoc]

end TimePattern

namespace Rig

variable {r : Rig} {i : Instruction}

/-- An operand stands for a pattern, or for a text that reads as one. -/
inductive Gives (r : Rig) (source : Slot) (p : TimePattern) : Prop
  | pattern (value : r.resolve source = .ok (some (.pattern p)))
  | text {t : Text} (value : r.resolve source = .ok (some (.str t)))
      (read : TimePattern.read t = .ok p)

/-- The next step executes a `TIME_PATTERN` with a pattern. -/
structure Takes (r : Rig) (i : Instruction) (op : SetOp) (p : TimePattern) : Prop where
  executes : r.Executes i
  code : i.op = .timePattern
  kind : i.first = some (.setOp op)
  gives : r.Gives i.second p

/-- The next step sets the unit mode: a move converts the registers to it, and a pop does not. -/
inductive Switches (r : Rig) (i : Instruction) (m : UnitMode) : Prop
  | moveLiteral (executes : r.Executes i) (code : i.op = .moveLiteral)
      (value : i.first = some (.unitMode m)) (dest : i.second = some (.register .unitMode))
  | move (executes : r.Executes i) (code : i.op = .move)
      (value : r.resolve i.first = .ok (some (.unitMode m)))
      (dest : i.second = some (.register .unitMode))
  | pop (executes : r.Executes i) (code : i.op = .pop) (dest : i.first = some (.register .unitMode))
      (value : r.machine.stack.head? = some (some (.unitMode m)))

/-- The steps from `k` to `j` set the time register to the first of the patterns and add the others in
their order. They may switch units in between. -/
inductive Gathers (run : Nat → Rig) (k : Nat) : Nat → List TimePattern → Prop
  | init {i : Instruction} {p : TimePattern} (takes : (run k).Takes i .init p) :
      Gathers run k (k + 1) [p]
  | union {j : Nat} {ps : List TimePattern} {i : Instruction} {p : TimePattern}
      (before : Gathers run k j ps) (takes : (run j).Takes i .union p) :
      Gathers run k (j + 1) (ps ++ [p])
  | switch {j : Nat} {ps : List TimePattern} {i : Instruction} {m : UnitMode}
      (before : Gathers run k j ps) (switches : (run j).Switches i m) : Gathers run k (j + 1) ps

theorem stepAt_time (r : Rig) (p : Program) (pc : Int) (i : Instruction) :
    (r.stepAt p pc i).1.machine.registers.time = (r.execute p i).1.machine.registers.time := by
  unfold stepAt
  split
  · next failed => rw [failed]
  · next executed => rw [executed, advance_time]

/-- The pattern that `TIME_PATTERN` leaves in the time register. -/
def patternAfter (op : SetOp) (time : Value) (p : TimePattern) : TimePattern :=
  if op = .union then joinPattern time p else p

theorem Gives.patternOf {source : Slot} {p : TimePattern} (gives : r.Gives source p) :
    ∃ v, r.resolve source = .ok v ∧ patternOf v = .ok p := by
  cases gives with
  | pattern value => exact ⟨_, value, rfl⟩
  | text value read => exact ⟨_, value, by rw [Rig.patternOf, read]⟩

/-- `TIME_PATTERN` succeeds on whatever gives a pattern, and the form in which it is given makes no
difference. -/
theorem Takes.step {op : SetOp} {p : TimePattern} (takes : r.Takes i op p)
    (named : op ∈ SetOp.named) : r.step.2 = .goOn ∧
      r.step.1.machine.registers.time = .pattern (patternAfter op r.machine.registers.time p) := by
  obtain ⟨program, going, stepped⟩ := takes.executes.step_eq
  obtain ⟨v, resolved, given⟩ := takes.gives.patternOf
  have resolved : ({ r with stage := r.stage.poll.1 } : Rig).resolve i.second = .ok v := resolved
  have executed : ({ r with stage := r.stage.poll.1 } : Rig).execute program i =
      ({ r with
        stage := r.stage.poll.1
        machine.registers.time := .pattern (patternAfter op r.machine.registers.time p) } :
          Rig).done := by
    simp only [execute, takes.code, timePattern, takes.kind, resolved, given]
    cases op with
    | init => rfl
    | union => rfl
    | unnamed => simp [SetOp.named] at named
  rw [stepped, stepAt_time, executed]
  exact ⟨(stepAt_done executed going _).1, rfl⟩

/-- Setting the unit mode is a switch, or it changes the mode alone and the operand stack. -/
theorem Switches.execute_eq {m : UnitMode} (switches : r.Switches i m) : r.Executes i ∧
    ∀ (stage : Stage) (p : Program),
      ({ r with stage := stage } : Rig).execute p i =
          ({ r with stage := stage } : Rig).switchUnits (some (.unitMode m)) ∨
        ∃ rest, ({ r with stage := stage } : Rig).execute p i =
          ({ r with
            stage := stage
            machine.stack := rest
            machine.registers.unitMode := m } : Rig).done := by
  cases switches with
  | moveLiteral executes code value dest =>
      refine ⟨executes, fun stage p => .inl ?_⟩
      simp only [execute, code, value, store, dest]
  | move executes code value dest =>
      refine ⟨executes, fun stage p => .inl ?_⟩
      have value : ({ r with stage := stage } : Rig).resolve i.first = _ := value
      simp only [execute, code, value, store, dest]
  | pop executes code dest value =>
      obtain ⟨rest, top⟩ := List.head?_eq_some_iff.mp value
      refine ⟨executes, fun stage p => .inr ⟨rest, ?_⟩⟩
      simp only [execute, code, Rig.pop, top, OperandStack.pop, dest]
      rfl

theorem switchUnits_pattern {m : UnitMode} {q : TimePattern}
    (held : r.machine.registers.time = .pattern q) :
    (r.switchUnits (some (.unitMode m))).1.machine.registers.time = .pattern q := by
  simp only [switchUnits]
  cases switched : r.machine.registers.switchUnits m with
  | error f => exact held
  | ok b => exact Registers.pattern_of_switchUnits switched held

/-- Switching units leaves a time of day as it is. -/
theorem Switches.keeps {m : UnitMode} {q : TimePattern} (switches : r.Switches i m)
    (held : r.machine.registers.time = .pattern q) :
    r.step.1.machine.registers.time = .pattern q := by
  obtain ⟨executes, executed⟩ := switches.execute_eq
  obtain ⟨p, -, stepped⟩ := executes.step_eq
  rw [stepped, stepAt_time]
  obtain switch | ⟨rest, popped⟩ := executed r.stage.poll.1 p
  · rw [switch]
    exact switchUnits_pattern held
  · rw [popped]
    exact held

/-- Units are switched without fail between modes that have a name. -/
theorem Switches.goesOn {m : UnitMode} (switches : r.Switches i m)
    (start : r.machine.registers.unitMode ∈ UnitMode.named) (goal : m ∈ UnitMode.named) :
    r.step.2 = .goOn := by
  obtain ⟨executes, executed⟩ := switches.execute_eq
  obtain ⟨p, going, stepped⟩ := executes.step_eq
  rw [stepped]
  obtain switch | ⟨rest, popped⟩ := executed r.stage.poll.1 p
  · obtain ⟨b, switched⟩ := Registers.switchUnits_of_isNamed start goal
    rw [switchUnits] at switch
    simp only [switched] at switch
    exact (stepAt_done switch going _).1
  · exact (stepAt_done popped going _).1

variable {run : Nat → Rig} {k j : Nat} {ps : List TimePattern}

theorem IsRun.time_of_gathers (isRun : IsRun run) (gathers : Gathers run k j ps) :
    (run j).machine.registers.time = .pattern (ps.foldl TimePattern.union .empty) := by
  induction gathers with
  | init takes =>
      rw [isRun, (takes.step (by decide)).2]
      exact congrArg Value.pattern (TimePattern.empty_union _).symm
  | union before takes ih =>
      rw [isRun, (takes.step (by decide)).2, ih, List.foldl_append]
      rfl
  | switch before switches ih =>
      rw [isRun]
      exact switches.keeps ih

/-- A union of patterns matches just when one of them does. As lists of alternatives, unions may be
bracketed in any way, a pattern with itself is that pattern, the order of two patterns matters for the
order of the alternatives only, and the pattern without alternatives adds nothing. In a text a bar is
a union: the text reads as a pattern if and only if what is before the bar and what is after it do. In a
run, steps that set the time to a pattern and add others succeed, and the time register then holds a
pattern that matches just when one of these does, however they were given and wherever units were
switched. -/
theorem patterns_gathered :
    (∀ (p q : TimePattern) (hour minute : Int),
      (p.union q).fits hour minute = (p.fits hour minute || q.fits hour minute)) ∧
    (∀ p q s : TimePattern, (p.union q).union s = p.union (q.union s)) ∧
    (∀ p : TimePattern, p.union p = p) ∧
    (∀ p q : TimePattern, (p.union q).alternatives.Perm (q.union p).alternatives) ∧
    (∀ p : TimePattern, TimePattern.empty.union p = p ∧ p.union .empty = p) ∧
    (∀ (s t : Text) (u : TimePattern), TimePattern.read (s ++ ascii '|' :: t) = .ok u ↔
      ∃ p q, TimePattern.read s = .ok p ∧ TimePattern.read t = .ok q ∧ u = p.union q) ∧
    (∀ (r : Rig) i op p, op ∈ SetOp.named → r.Takes i op p → r.step.2 = .goOn) ∧
    (∀ (r : Rig) i m, r.machine.registers.unitMode ∈ UnitMode.named → m ∈ UnitMode.named →
      r.Switches i m → r.step.2 = .goOn) ∧
    ∀ run, IsRun run → ∀ k j ps, Gathers run k j ps →
      ∃ q : TimePattern, (run j).machine.registers.time = .pattern q ∧
        q = ps.foldl TimePattern.union .empty ∧
        ∀ hour minute, q.fits hour minute = ps.any (·.fits hour minute) := by
  refine ⟨TimePattern.fits_union, TimePattern.union_assoc, TimePattern.union_self,
    TimePattern.union_comm, fun p => ⟨p.empty_union, p.union_empty⟩, TimePattern.read_append_bar,
    fun r i op p named takes => (takes.step named).1,
    fun r i m start goal switches => switches.goesOn start goal, ?_⟩
  intro run isRun k j ps gathers
  refine ⟨_, isRun.time_of_gathers gathers, rfl, fun hour minute => ?_⟩
  rw [TimePattern.fits_foldl_union]
  rfl

/-- Every full hour. -/
def fullHours : TimePattern :=
  .ofList
    [⟨none, none, some ⟨0, Nat.zero_lt_succ 5⟩, some ⟨0, Nat.zero_lt_succ 9⟩,
      fun _ absent => absurd absent (Option.not_mem_none _)⟩]

/-- A pattern as a text and one as it is, with a switch of units between them. -/
def gatheringTimes : Program where
  name := []
  code :=
    [⟨.timePattern, some (.setOp .init), some (.str "7:30")⟩, switchTo .raw,
     ⟨.timePattern, some (.setOp .union), some (.pattern fullHours)⟩]
  routines := .empty

/-- After three steps the time is half past seven or any full hour. -/
theorem gatheringTimes_gathered :
    let run := (({} : Rig).load gatheringTimes).afterSteps
    ∃ p q, TimePattern.read "7:30" = .ok p ∧ (run 3).machine.registers.time = .pattern q ∧
      ∀ hour minute, q.fits hour minute = (p.fits hour minute || fullHours.fits hour minute) := by
  intro run
  obtain ⟨p, read⟩ : ∃ p, TimePattern.read "7:30" = .ok p := ⟨_, rfl⟩
  have gathers : Gathers run 0 3 [p, fullHours] :=
    .union (.switch (.init ⟨⟨rfl, rfl⟩, rfl, rfl, .text rfl read⟩)
      (.moveLiteral ⟨rfl, rfl⟩ rfl rfl rfl)) ⟨⟨rfl, rfl⟩, rfl, rfl, .pattern rfl⟩
  obtain ⟨-, -, -, -, -, -, -, -, gathered⟩ := patterns_gathered
  obtain ⟨q, held, -, fits⟩ := gathered run (isRun_afterSteps _) 0 3 _ gathers
  refine ⟨p, q, read, held, fun hour minute => ?_⟩
  rw [fits, List.any_cons, List.any_cons, List.any_nil, Bool.or_false]

end Rig

end Lightboard
