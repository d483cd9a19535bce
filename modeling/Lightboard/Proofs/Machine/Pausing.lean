import Lightboard.Proofs.Machine.Discovery
import Lightboard.Proofs.Machine.Keys
import Mathlib.Data.Nat.Count

/-!
# Pausing and stopping

`PAUSE` asks for a key as long as pausing is enabled. In a session (`IsSession`) a program is loaded with
pausing enabled while a text is typed, and the machine may be told to stop at any time. The `PAUSE`s of a
session that ask take the lines of the text one after the other (`Prompts`); after an exclamation mark or
the end of the text they ask no more (`Passes`), and a stopped machine does nothing at all.
-/

namespace Lightboard

open Keyboard (keyAt afterLines lines readKey_afterLines keyAt_eq_none_iff)

/-- What a key does to a machine that asked for one, or the end of what is typed. -/
def Machine.answered (m : Machine) (key : Option Char) : Machine :=
  if key = some 'q' then { m with stopped := true }
  else if key = some '!' ∨ key = none then { m with pausing := false }
  else m

theorem Machine.answered_stopped (m : Machine) (key : Option Char) :
    (m.answered key).stopped = true ↔ m.stopped = true ∨ key = some 'q' := by
  unfold answered
  split
  · next quits => simp [quits]
  · next other => split <;> simp [other]

theorem Machine.answered_pausing (m : Machine) (key : Option Char) :
    (m.answered key).pausing = false ↔ m.pausing = false ∨ key = some '!' ∨ key = none := by
  unfold answered
  split
  · next quits => simp [quits]
  · split
    · next ends => simp [ends]
    · next other => simp [other]

theorem Stage.poll_write_written (s : Stage) (t : Text) :
    (s.poll.1.write t).1.written = (s.write t).1.written := by
  rw [poll_eq]
  simp only [write]
  split <;> rfl

theorem Stage.readKey_of_afterLines {s : Stage} {t : Text} {i : Nat}
    (left : s.keyboard = afterLines t i) :
    s.readKey = ({ s with keyboard := afterLines t (i + 1) }.record (.readKey (keyAt t i)),
      (keyAt t i).elim (.error .endOfInput) .ok) := by
  simp only [readKey, left, readKey_afterLines]
  cases keyAt t i <;> rfl

namespace Rig

variable {r r' : Rig} {p : Program} {t : Text} {n : Nat} {op : OpCode}

/-- A `PAUSE` that asks writes the prompt, takes a line and does what its first character says. -/
theorem pause_asks (on : r.machine.pausing = true) (left : r.stage.keyboard = afterLines t n) :
    r.pause.2 = .ok () ∧ r.pause.1.machine = r.machine.answered (keyAt t n) ∧
      r.pause.1.stage.keyboard = afterLines t (n + 1) ∧
      r.pause.1.stage.written = (r.stage.write pausePrompt).1.written ∧
      r.pause.1.stage.events = .readKey (keyAt t n) :: r.stage.events := by
  have left' := (r.stage.write_keyboard pausePrompt).trans left
  have asked : (r.stage.write pausePrompt).1.events = r.stage.events := by
    unfold Stage.write
    split <;> rfl
  simp only [pause, on, Bool.not_true, Bool.false_eq_true, if_false, Stage.readKey_of_afterLines left']
  cases keyAt t n with
  | none => exact ⟨rfl, rfl, rfl, rfl, congrArg _ asked⟩
  | some c =>
      simp only [Option.elim_some, pressed, Machine.answered, Option.some.injEq, reduceCtorEq, or_false]
      split
      · exact ⟨rfl, rfl, rfl, rfl, congrArg _ asked⟩
      · split <;> exact ⟨rfl, rfl, rfl, rfl, congrArg _ asked⟩

/-- The next step executes an instruction with the op-code. -/
def Does (r : Rig) (op : OpCode) : Prop := ∃ i, r.Executes i ∧ i.op = op

theorem does_iff : r.Does op ↔
    r.machine.instruction?.map Instruction.op = some op ∧ r.stage.poll.2.isOk = true := by
  constructor
  · rintro ⟨i, ⟨fetched, polled⟩, rfl⟩
    rw [fetched, polled]
    exact ⟨rfl, rfl⟩
  · rintro ⟨found, asked⟩
    obtain ⟨i, fetched, same⟩ := Option.map_eq_some_iff.mp found
    refine ⟨i, ⟨fetched, ?_⟩, same⟩
    cases outcome : r.stage.poll.2 with
    | error e =>
        rw [outcome] at asked
        cases asked
    | ok u => rfl

instance (r : Rig) (op : OpCode) : Decidable (r.Does op) := decidable_of_iff _ does_iff.symm

/-- A step that executes nothing only asks the context. -/
theorem step_of_idle (idle : ∀ i, ¬ r.Executes i) :
    r.step.1.machine = r.machine ∧ (r.step.1.stage = r.stage ∨ r.step.1.stage = r.stage.poll.1) := by
  simp only [step]
  split
  · exact ⟨rfl, .inl rfl⟩
  · next p loaded =>
    split
    · exact ⟨rfl, .inl rfl⟩
    · next running =>
      split
      · next asked => exact ⟨rfl, .inr (by rw [asked])⟩
      · next asked =>
        have polled : r.stage.poll.2 = .ok () := by rw [asked]
        split
        · exact ⟨rfl, .inr (by rw [asked])⟩
        · next inRange =>
          split
          · exact ⟨rfl, .inr (by rw [asked])⟩
          · next i found =>
            have fetched : r.machine.instruction? = some i := by
              simp [Machine.instruction?, running, inRange, loaded, found]
            exact absurd ⟨fetched, polled⟩ (idle i)

theorem stepAt_switches (r : Rig) (p : Program) (pc : Int) (i : Instruction) :
    (r.stepAt p pc i).1.machine.pausing = (r.execute p i).1.machine.pausing ∧
      (r.stepAt p pc i).1.machine.stopped = (r.execute p i).1.machine.stopped := by
  unfold stepAt
  split
  · next failed =>
    rw [failed]
    exact ⟨rfl, rfl⟩
  · next succeeded => simp [succeeded]

theorem execute_pause {i : Instruction} (op : i.op = .pause) (p : Program) :
    r.execute p i = r.pause := by
  simp only [execute, op]

/-- Whether pausing is enabled is up to `PAUSE`, and whether the machine is stopped to `PAUSE` and
`STOP`. -/
theorem Effect.switches {i : Instruction} {m : Machine} {outcome : Except RunError Unit}
    (effect : r.Effect p i m outcome) (other : i.op ≠ .pause) :
    m.pausing = r.machine.pausing ∧ (i.op ≠ .stop → m.stopped = r.machine.stopped) := by
  cases effect with
  | stopped op => exact ⟨rfl, fun other' => absurd op (not_or.mpr ⟨other', other⟩)⟩
  | unpaused op => exact absurd op other
  | moved _ _ stored => cases stored <;> exact ⟨rfl, fun _ => rfl⟩
  | movedLiteral _ _ stored => cases stored <;> exact ⟨rfl, fun _ => rfl⟩
  | popped _ _ stored => cases stored <;> exact ⟨rfl, fun _ => rfl⟩
  | _ => exact ⟨rfl, fun _ => rfl⟩

/-- A `PAUSE` that asks writes the prompt, takes the line with this number of what is typed and does
what its first character says. -/
structure Prompts (r : Rig) (t : Text) (n : Nat) : Prop where
  prompt : r.step.1.stage.written = (r.stage.write pausePrompt).1.written
  before : r.stage.keyboard = afterLines t n
  after : r.step.1.stage.keyboard = afterLines t (n + 1)
  key : r.step.1.stage.events = .readKey (keyAt t n) :: r.stage.events
  machine : r.step.1.machine = (r.machine.answered (keyAt t n)).movedPast .pause
  result : r.step.2 = if keyAt t n = some 'q' then .stop else .goOn

/-- A `PAUSE` that asks nothing goes on to the next instruction. -/
structure Passes (r : Rig) : Prop where
  written : r.step.1.stage.written = r.stage.written
  keyboard : r.step.1.stage.keyboard = r.stage.keyboard
  events : r.step.1.stage.events = r.stage.events
  machine : r.step.1.machine = r.machine.movedPast .pause
  result : r.step.2 = .goOn

/-- A stopped machine does nothing. -/
theorem step_of_stopped (loaded : r.machine.program = some p) (stopped : r.machine.stopped = true) :
    r.step = (r, .stop) := by
  simp only [step, loaded, stopped, if_true]

theorem prompts_of_does (does : r.Does .pause) (on : r.machine.pausing = true)
    (left : r.stage.keyboard = afterLines t n) : r.Prompts t n := by
  obtain ⟨i, executes, op⟩ := does
  obtain ⟨p, going, stepped⟩ := executes.step_eq
  obtain ⟨done, machine, keyboard, written, events⟩ :=
    @pause_asks { r with stage := r.stage.poll.1 } t n on (r.stage.poll_keyboard.trans left)
  rw [← execute_pause op p] at done machine keyboard written events
  obtain ⟨moved, result⟩ := stepAt_of_ok done r.machine.registers.pc
  refine ⟨?_, left, ?_, ?_, ?_, ?_⟩
  · rw [stepped, stepAt_stage, written, Stage.poll_write_written]
  · rw [stepped, stepAt_stage, keyboard]
  · rw [stepped, stepAt_stage, events, Stage.poll_eq]
  · rw [stepped, moved, machine, op]
  · rw [stepped, result, machine]
    refine if_congr ?_ rfl rfl
    rw [Machine.answered_stopped]
    simp [going]

theorem passes_of_does (does : r.Does .pause) (off : r.machine.pausing = false) : r.Passes := by
  obtain ⟨i, executes, op⟩ := does
  obtain ⟨p, going, stepped⟩ := executes.step_eq
  have done : ({ r with stage := r.stage.poll.1 } : Rig).execute p i =
      ({ r with stage := r.stage.poll.1 } : Rig).done := by
    rw [execute_pause op, pause]
    simp [off]
  obtain ⟨moved, result⟩ := stepAt_of_ok (congrArg Prod.snd done) r.machine.registers.pc
  rw [done] at moved result
  rw [op] at moved
  have stage : r.step.1.stage = { r.stage with polls := r.stage.poll.1.polls } := by
    rw [stepped, stepAt_stage, done]
    exact r.stage.poll_eq
  refine ⟨by rw [stage], by rw [stage], by rw [stage], ?_, ?_⟩
  · rw [stepped, moved]
    rfl
  · rw [stepped, result]
    exact if_neg (by simp [Rig.done, going])

/-- A step that executes no `PAUSE` leaves the keyboard alone and does not disable pausing, and it
stops the machine just if it executes a `STOP`. -/
theorem step_of_other (other : ¬ r.Does .pause) :
    r.step.1.stage.keyboard = r.stage.keyboard ∧
      r.step.1.machine.pausing = r.machine.pausing ∧
      (¬ r.Does .stop → r.step.1.machine.stopped = r.machine.stopped) := by
  by_cases idle : ∀ i, ¬ r.Executes i
  · obtain ⟨same, stage | stage⟩ := step_of_idle idle
    · rw [same, stage]
      exact ⟨rfl, rfl, fun _ => rfl⟩
    · rw [same, stage, Stage.poll_keyboard]
      exact ⟨rfl, rfl, fun _ => rfl⟩
  · rw [not_forall_not] at idle
    obtain ⟨i, executes⟩ := idle
    obtain ⟨p, -, stepped⟩ := executes.step_eq
    have notPause : i.op ≠ .pause := fun op => other ⟨i, executes, op⟩
    obtain ⟨pausing, stopped⟩ :=
      Effect.switches (({ r with stage := r.stage.poll.1 } : Rig).execute_effect p i) notPause
    obtain ⟨pausing', stopped'⟩ :=
      ({ r with stage := r.stage.poll.1 } : Rig).stepAt_switches p r.machine.registers.pc i
    rw [stepped, stepAt_stage, execute_keyboard notPause, Stage.poll_keyboard, pausing', stopped']
    exact ⟨rfl, pausing, fun notStop => stopped fun op => notStop ⟨i, executes, op⟩⟩

theorem Does.unique {op' : OpCode} (does : r.Does op) (does' : r.Does op') : op = op' :=
  Option.some.inj ((does_iff.mp does).1.symm.trans (does_iff.mp does').1)

/-- What stops a machine. -/
theorem stopped_of_step (loaded : r.machine.program = some p)
    (left : r.machine.pausing = true → r.stage.keyboard = afterLines t n) :
    (r.step.1.machine.stopped = true ↔ r.machine.stopped = true ∨ r.Does .stop ∨
      r.Does .pause ∧ r.machine.pausing = true ∧ keyAt t n = some 'q') ∧
    (r.step.1.machine.stopped = true → r.step.2 = .stop) := by
  by_cases halted : r.machine.stopped = true
  · rw [step_of_stopped loaded halted]
    exact ⟨iff_of_true halted (.inl halted), fun _ => rfl⟩
  by_cases pause : r.Does .pause
  · have notStop : ¬ r.Does .stop := fun stop => absurd (pause.unique stop) (by decide)
    cases on : r.machine.pausing with
    | false =>
        have passes := passes_of_does pause on
        rw [passes.machine, Machine.movedPast_stopped]
        simp [halted, notStop]
    | true =>
        have prompts := prompts_of_does pause on (left on)
        rw [prompts.machine, prompts.result, Machine.movedPast_stopped, Machine.answered_stopped]
        simp [halted, notStop, pause]
  · obtain ⟨-, -, stays⟩ := step_of_other pause
    by_cases stop : r.Does .stop
    · obtain ⟨i, executes, op⟩ := stop
      obtain ⟨p, -, stepped⟩ := executes.step_eq
      have done : ({ r with stage := r.stage.poll.1 } : Rig).execute p i =
          ({ r with stage := r.stage.poll.1, machine.stopped := true } : Rig).done := by
        simp only [execute, op]
      obtain ⟨moved, result⟩ := stepAt_of_ok (congrArg Prod.snd done) r.machine.registers.pc
      rw [stepped, moved, result, done, Machine.movedPast_stopped]
      exact ⟨iff_of_true rfl (.inr (.inl ⟨i, executes, op⟩)), fun _ => rfl⟩
    · rw [stays stop]
      simp [halted, stop, pause]

/-- What can happen between two steps: the lights, the clock, the context and the output change by
themselves, and the machine is told to stop. What is still to be read stays. To be told to stop while a
step is under way comes to the same, as a step looks at it only before and after the instruction. -/
structure Meanwhile (r r' : Rig) : Prop where
  keyboard : r'.stage.keyboard = r.stage.keyboard
  machine : r'.machine = r.machine ∨ r'.machine = { r.machine with stopped := true }

/-- The machine before each of its steps, after a program was loaded with pausing enabled at a keyboard
where a text is typed. -/
structure IsSession (p : Program) (t : Text) (run : Nat → Rig) : Prop where
  start : ∃ r : Rig, r.machine.options.noPause = false ∧ r.stage.keyboard = { text := t } ∧
    (r.load p).Meanwhile (run 0)
  next : ∀ k, (run k).step.1.Meanwhile (run (k + 1))

/-- A machine that is left alone between its steps. -/
theorem isSession_afterSteps {r : Rig} (enabled : r.machine.options.noPause = false)
    (typed : r.stage.keyboard = { text := t }) : IsSession p t (r.load p).afterSteps :=
  ⟨⟨r, enabled, typed, rfl, .inl rfl⟩, fun _ => ⟨rfl, .inl rfl⟩⟩

/-- How many `PAUSE`s were executed before a step. -/
def pausesBefore (run : Nat → Rig) (k : Nat) : Nat := Nat.count (fun j => (run j).Does .pause) k

/-- The reading with this number ends pausing. -/
def EndsPausing (t : Text) (i : Nat) : Prop := keyAt t i = some '!' ∨ (lines t).length ≤ i

section

variable {run : Nat → Rig}

/-- Between two steps nothing happens to the program and the switch of pausing, and a stopped machine
stays as it is. -/
theorem Meanwhile.kept (meanwhile : r.Meanwhile r') :
    r'.machine.program = r.machine.program ∧ r'.machine.pausing = r.machine.pausing ∧
      (r.machine.stopped = true → r'.machine = r.machine) := by
  obtain same | stopped := meanwhile.machine
  · rw [same]
    exact ⟨rfl, rfl, fun _ => rfl⟩
  · rw [stopped]
    refine ⟨rfl, rfl, fun already => ?_⟩
    rw [← already]

theorem IsSession.program (session : IsSession p t run) (k : Nat) :
    (run k).machine.program = some p := by
  induction k with
  | zero =>
      obtain ⟨r, -, -, meanwhile⟩ := session.start
      exact meanwhile.kept.1
  | succ k ih => exact (session.next k).kept.1.trans ((run k).step_stepped.program.trans ih)

theorem pausesBefore_succ (run : Nat → Rig) (k : Nat) :
    pausesBefore run (k + 1) = pausesBefore run k + if (run k).Does .pause then 1 else 0 :=
  Nat.count_succ _ k

/-- As long as pausing is enabled the lines that were taken are those of the `PAUSE`s so far, and it is
disabled by the first of them that finds an exclamation mark or nothing. -/
theorem IsSession.reading (session : IsSession p t run) (k : Nat) :
    ((run k).machine.pausing = true → (run k).stage.keyboard = afterLines t (pausesBefore run k)) ∧
      ((run k).machine.pausing = false ↔
        ∃ j < k, (run j).Does .pause ∧ EndsPausing t (pausesBefore run j)) := by
  induction k with
  | zero =>
      obtain ⟨r, enabled, typed, meanwhile⟩ := session.start
      have on : (run 0).machine.pausing = true := by
        rw [meanwhile.kept.2.1]
        simp [load, Machine.load, Machine.reset, enabled]
      refine ⟨fun _ => ?_, ?_⟩
      · rw [meanwhile.keyboard]
        exact typed.trans (congrArg (fun u => ({ text := u } : Keyboard)) (Keyboard.flatten_lines t).symm)
      · simp [on]
  | succ k ih =>
      obtain ⟨left, disabled⟩ := ih
      have between := session.next k
      rw [between.keyboard, between.kept.2.1, pausesBefore_succ, Nat.exists_lt_succ_right, ← disabled]
      by_cases pause : (run k).Does .pause
      · rw [if_pos pause]
        cases on : (run k).machine.pausing with
        | false =>
            have passes := passes_of_does pause on
            rw [passes.machine, Machine.movedPast_pausing, on]
            simp
        | true =>
            have prompts := prompts_of_does pause on (left on)
            rw [prompts.after, prompts.machine, Machine.movedPast_pausing, Machine.answered_pausing,
              keyAt_eq_none_iff]
            simp [on, pause, EndsPausing]
      · obtain ⟨keyboard, pausing, -⟩ := step_of_other pause
        rw [keyboard, pausing, if_neg pause]
        exact ⟨left, by simp [pause]⟩

/-- Told to stop, a machine stays where it is. -/
theorem IsSession.stays_stopped (session : IsSession p t run) {k : Nat}
    (stopped : (run k).machine.stopped = true) {j : Nat} (later : k ≤ j) :
    (run j).machine = (run k).machine := by
  induction j, later using Nat.le_induction with
  | base => rfl
  | succ j _ ih =>
      have stopped' : (run j).machine.stopped = true := ih ▸ stopped
      have step := step_of_stopped (session.program j) stopped'
      have stays := (session.next j).kept.2.2
      rw [step] at stays
      exact (stays stopped').trans ih

/-- In every session the `PAUSE` with number `n` that is executed while pausing is enabled asks for the
line with number `n`. Pausing is disabled just by those that find an exclamation mark or nothing there,
and then every `PAUSE` passes. A machine is stopped just by `STOP`, by a line that begins with the letter
q and by being told to, and once it is stopped its steps change nothing. -/
theorem IsSession.pauses_and_stops (session : IsSession p t run) :
    (∀ k, (run k).Does .pause → (run k).machine.pausing = true →
      (run k).Prompts t (pausesBefore run k)) ∧
    (∀ k, (run k).machine.pausing = false ↔
      ∃ j < k, (run j).Does .pause ∧ EndsPausing t (pausesBefore run j)) ∧
    (∀ k, (run k).Does .pause → (run k).machine.pausing = false → (run k).Passes) ∧
    (∀ k, ((run k).step.1.machine.stopped = true ↔ (run k).machine.stopped = true ∨
        (run k).Does .stop ∨ (run k).Does .pause ∧ (run k).machine.pausing = true ∧
          keyAt t (pausesBefore run k) = some 'q') ∧
      ((run k).step.1.machine.stopped = true → (run k).step.2 = .stop)) ∧
    ∀ k, (run k).machine.stopped = true → ∀ j, k ≤ j →
      (run j).step = (run j, .stop) ∧ (run j).machine = (run k).machine := by
  refine ⟨fun k pause on => ?_, fun k => (session.reading k).2, fun k pause off => ?_,
    fun k => ?_, fun k stopped j later => ?_⟩
  · exact prompts_of_does pause on ((session.reading k).1 on)
  · exact passes_of_does pause off
  · exact stopped_of_step (session.program k) (session.reading k).1
  · have same := session.stays_stopped stopped later
    exact ⟨step_of_stopped (session.program j) (same ▸ stopped), same⟩

end

/-- A program that pauses over and over. -/
def pausesForever : Program where
  name := []
  code := [⟨.pause, none, none⟩, ⟨.jump, some (.jump .always), some (.number (Number.ofInt (-1)))⟩]
  routines := .empty

/-- The program while a text is typed. -/
def pausedWith (t : Text) : Nat → Rig :=
  (({ stage := { keyboard := { text := t } } } : Rig).load pausesForever).afterSteps

theorem isSession_pausedWith (t : Text) : IsSession pausesForever t (pausedWith t) :=
  isSession_afterSteps rfl rfl

/-- Three lines are taken, the second of them empty and the last one without line end; its exclamation
mark disables pausing. In the other session the second line stops the machine. -/
theorem pausesForever_paused :
    ([0, 1, 2].map (keyAt "go\n\n!no") = [some 'g', some '\n', some '!'] ∧
      (∀ n < 3, (pausedWith "go\n\n!no" (2 * n)).Prompts "go\n\n!no" n) ∧
      (pausedWith "go\n\n!no" 6).machine.pausing = false ∧ (pausedWith "go\n\n!no" 6).Passes) ∧
    (pausedWith "\nquit" 2).step.2 = .stop ∧
      ∀ j, 3 ≤ j → (pausedWith "\nquit" j).step = (pausedWith "\nquit" j, .stop) := by
  obtain ⟨prompts, disabled, passes, -, -⟩ := (isSession_pausedWith "go\n\n!no").pauses_and_stops
  obtain ⟨-, -, -, stops, stopped⟩ := (isSession_pausedWith "\nquit").pauses_and_stops
  have asked : ∀ n < 3, (pausedWith "go\n\n!no" (2 * n)).Does .pause ∧
      (pausedWith "go\n\n!no" (2 * n)).machine.pausing = true ∧
      pausesBefore (pausedWith "go\n\n!no") (2 * n) = n := by
    decide +kernel
  have off : (pausedWith "go\n\n!no" 6).machine.pausing = false :=
    (disabled 6).mpr ⟨4, by decide, (asked 2 (by decide)).1, .inl (by decide +kernel)⟩
  have halted : (pausedWith "\nquit" 2).step.1.machine.stopped = true :=
    (stops 2).1.mpr (.inr (.inr ⟨by decide +kernel, by decide +kernel, by decide +kernel⟩))
  refine ⟨⟨by decide +kernel, fun n small => ?_, off, passes 6 (by decide +kernel) off⟩,
    (stops 2).2 halted, fun j later => (stopped 3 halted j later).1⟩
  obtain ⟨pause, on, count⟩ := asked n small
  have prompted := prompts (2 * n) pause on
  rwa [count] at prompted

end Rig

end Lightboard
