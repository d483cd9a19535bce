import Lightboard.Proofs.Machine.Effect
import Lightboard.Proofs.Machine.Operators
import Lightboard.Proofs.Machine.Updates

/-!
# What a machine holds

Values come into a machine from the operands of instructions and from the machine itself, and they
travel through registers, variables, parameters, constants, the operand stack and the output buffer.
So a property of values that all operands have, and that all values have which the machine makes, is
a property of every value that is ever held. In particular every place that should hold a value
holds one.

`Machine.Holds P` says that all places hold a value of `P`, and `Stepped.holds` that steps keep
this.
-/

namespace Lightboard

/-- A value with a property is there. -/
def Slot.Holds (P : Value → Prop) (s : Slot) : Prop := ∃ v, s = some v ∧ P v

namespace Table

variable {κ ν : Type} [DecidableEq κ] {Q : ν → Prop}

/-- Every value of a table has a property. -/
def All (Q : ν → Prop) (t : Table κ ν) : Prop := ∀ k v, t.get? k = some v → Q v

theorem All.empty : (Table.empty : Table κ ν).All Q := by
  intro k v h
  cases h

theorem All.insert {t : Table κ ν} (h : t.All Q) {k : κ} {v : ν} (value : Q v) :
    (t.insert k v).All Q := by
  intro k' v' found
  rw [get?_insert] at found
  split at found
  · exact Option.some.inj found ▸ value
  · exact h k' v' found

end Table

/-- The properties that all values have which a machine makes by itself. -/
structure Makes (P : Value → Prop) : Prop where
  number : ∀ x, P (.number x)
  text : ∀ t, P (.str t)
  bool : ∀ b, P (.bool b)
  nothing : P .nothing
  pattern : ∀ p, P (.pattern p)

variable {P : Value → Prop}

namespace Registers

structure Holds (P : Value → Prop) (b : Registers) : Prop where
  time : P b.time
  name : b.name.Holds P
  operand : P b.operand
  firstZone : P b.firstZone
  lastZone : P b.lastZone
  result : b.result.Holds P
  unitMode : P (.unitMode b.unitMode)

theorem Holds.initial (makes : Makes P) {mode : UnitMode} (h : P (.unitMode mode)) :
    Holds P { unitMode := mode } :=
  ⟨makes.number _, ⟨_, rfl, makes.nothing⟩, makes.nothing, makes.nothing, makes.nothing,
    ⟨_, rfl, makes.nothing⟩, h⟩

variable {b b' : Registers} {reg : Register} {v : Slot}

/-- The program counter is no value of its own. -/
theorem Holds.setCounter (h : b.Holds P) {pc : Int} : Holds P { b with pc := pc } :=
  ⟨h.time, h.name, h.operand, h.firstZone, h.lastZone, h.result, h.unitMode⟩

theorem Holds.get (makes : Makes P) (h : b.Holds P) (got : b.get reg = .ok v) : v.Holds P := by
  cases reg <;> cases got
  case time => exact ⟨_, rfl, h.time⟩
  case name => exact h.name
  case operand => exact ⟨_, rfl, h.operand⟩
  case firstZone => exact ⟨_, rfl, h.firstZone⟩
  case lastZone => exact ⟨_, rfl, h.lastZone⟩
  case result => exact h.result
  case unitMode => exact ⟨_, rfl, h.unitMode⟩
  case power => exact ⟨_, rfl, makes.bool _⟩
  all_goals exact ⟨_, rfl, makes.number _⟩

theorem Holds.set (h : b.Holds P) (value : v.Holds P) (set : b.set reg v = .ok b') :
    b'.Holds P := by
  obtain ⟨w, rfl, hw⟩ := value
  have written := b.set_written reg (some w)
  rw [set] at written
  cases written with
  | time => exact ⟨hw, h.name, h.operand, h.firstZone, h.lastZone, h.result, h.unitMode⟩
  | operand => exact ⟨h.time, h.name, hw, h.firstZone, h.lastZone, h.result, h.unitMode⟩
  | firstZone => exact ⟨h.time, h.name, h.operand, hw, h.lastZone, h.result, h.unitMode⟩
  | lastZone => exact ⟨h.time, h.name, h.operand, h.firstZone, hw, h.result, h.unitMode⟩
  | unitMode => exact ⟨h.time, h.name, h.operand, h.firstZone, h.lastZone, h.result, hw⟩
  | name =>
      exact ⟨h.time, ⟨w, rfl, hw⟩, h.operand, h.firstZone, h.lastZone, h.result, h.unitMode⟩
  | result =>
      exact ⟨h.time, h.name, h.operand, h.firstZone, h.lastZone, ⟨w, rfl, hw⟩, h.unitMode⟩
  | plain => exact ⟨h.time, h.name, h.operand, h.firstZone, h.lastZone, h.result, h.unitMode⟩

theorem Holds.switchUnits (makes : Makes P) (h : b.Holds P) {mode : UnitMode}
    (hm : P (.unitMode mode)) (switched : b.switchUnits mode = .ok b') : b'.Holds P := by
  obtain rfl | ⟨c, rfl⟩ := switchUnits_eq_ok switched
  · exact h
  · refine ⟨?_, h.name, h.operand, h.firstZone, h.lastZone, h.result, hm⟩
    unfold convertTime
    split
    · exact makes.number _
    · exact h.time

end Registers

structure CallFrame.Holds (P : Value → Prop) (f : CallFrame) : Prop where
  scope : f.scope.All (Slot.Holds P)
  loops : ∀ l ∈ f.loops, l.All (Slot.Holds P)

namespace CallStack

structure Holds (P : Value → Prop) (s : CallStack) : Prop where
  root : s.root.Holds P
  calls : ∀ f ∈ s.calls, f.Holds P
  staged : s.stagedScope.All (Slot.Holds P)
  constants : s.constants.All (Slot.Holds P)

theorem Holds.initial : Holds P {} where
  root := ⟨Table.All.empty, by simp⟩
  calls := by simp
  staged := Table.All.empty
  constants := Table.All.empty

variable {s t : CallStack} {v : Slot}

theorem Holds.innermost (h : s.Holds P) : s.innermost.Holds P := by
  cases calls : s.calls with
  | nil => simpa [CallStack.innermost, calls] using h.root
  | cons f rest => simpa [CallStack.innermost, calls] using h.calls f (by simp [calls])

theorem Holds.setInnermost (h : s.Holds P) {f : CallFrame} (hf : f.Holds P) :
    (s.setInnermost f).Holds P := by
  unfold CallStack.setInnermost
  split
  · exact ⟨hf, h.calls, h.staged, h.constants⟩
  · next rest calls =>
    refine ⟨h.root, ?_, h.staged, h.constants⟩
    intro g member
    rcases List.mem_cons.mp member with rfl | member
    · exact hf
    · exact h.calls g (by simp [calls, member])

theorem Holds.putName (h : s.Holds P) (hv : v.Holds P) (n : Text) : (s.putName n v).Holds P := by
  unfold CallStack.putName
  split
  · exact ⟨⟨h.root.scope.insert hv, h.root.loops⟩, h.calls, h.staged, h.constants⟩
  · exact h.setInnermost ⟨h.innermost.scope.insert hv, h.innermost.loops⟩

theorem Holds.putVariable (h : s.Holds P) (hv : v.Holds P) {token : Slot}
    (put : s.putVariable token v = .ok t) : t.Holds P := by
  obtain ⟨n, -, put⟩ | ⟨n, -, rfl⟩ := putVariable_eq_ok put
  · obtain ⟨l, rest, loops, rfl⟩ := putToken_eq_ok put
    refine h.setInnermost ⟨h.innermost.scope, ?_⟩
    intro l' member
    rcases List.mem_cons.mp member with rfl | member
    · exact (h.innermost.loops l (by simp [loops])).insert hv
    · exact h.innermost.loops l' (by simp [loops, member])
  · exact h.putName hv n

theorem Holds.putConstant (h : s.Holds P) (hv : v.Holds P) (n : Text) :
    (s.putConstant n v).Holds P := by
  unfold CallStack.putConstant
  split
  · exact h
  · exact ⟨h.root, h.calls, h.staged, h.constants.insert hv⟩

theorem Holds.putParam (h : s.Holds P) (hv : v.Holds P) (n : Text) : (s.putParam n v).Holds P :=
  ⟨h.root, h.calls, h.staged.insert hv, h.constants⟩

theorem Holds.push (h : s.Holds P) (a : Int) : (s.setReturn a).push.Holds P := by
  refine ⟨h.root, ?_, Table.All.empty, h.constants⟩
  intro f member
  rcases List.mem_cons.mp member with rfl | member
  · exact ⟨h.staged, by simp⟩
  · exact h.calls f member

theorem Holds.unwindLoops (h : s.Holds P) : s.unwindLoops.Holds P :=
  h.setInnermost ⟨h.innermost.scope, by simp⟩

theorem Holds.pop (h : s.Holds P) (popped : s.pop = .ok t) : t.Holds P := by
  obtain ⟨f, rest, calls, rfl⟩ := pop_eq_ok popped
  exact ⟨h.root, fun f member => h.calls f (by simp [calls, member]), Table.All.empty, h.constants⟩

theorem Holds.enterLoop (h : s.Holds P) : s.enterLoop.Holds P := by
  refine h.setInnermost ⟨h.innermost.scope, ?_⟩
  intro l member
  rcases List.mem_cons.mp member with rfl | member
  · exact Table.All.empty
  · exact h.innermost.loops l member

theorem Holds.exitLoop (h : s.Holds P) (left : s.exitLoop = .ok t) : t.Holds P := by
  obtain ⟨l, rest, loops, rfl⟩ := exitLoop_eq_ok left
  exact h.setInnermost
    ⟨h.innermost.scope, fun l member => h.innermost.loops l (by simp [loops, member])⟩

theorem Holds.getName (h : s.Holds P) {n : Text} (found : s.getName n = some v) : v.Holds P := by
  unfold CallStack.getName at found
  cases constant : s.constants.get? n with
  | some w =>
      rw [constant] at found
      exact Option.some.inj found ▸ h.constants n w constant
  | none =>
      cases own : s.innermost.scope.get? n with
      | some w =>
          rw [constant, own] at found
          exact Option.some.inj found ▸ h.innermost.scope n w own
      | none =>
          rw [constant, own] at found
          exact h.root.scope n v found

theorem Holds.getVariable (h : s.Holds P) {token : Slot} (found : s.getVariable token = some v) :
    v.Holds P := by
  unfold CallStack.getVariable at found
  split at found
  · unfold getToken at found
    split at found
    · cases found
    · next l rest loops => exact h.innermost.loops l (by simp [loops]) _ _ found
  · exact h.getName found
  · exact h.getName found
  · cases found

end CallStack

/-- An operator makes a number, a text or a truth value. -/
theorem Operator.Gives.holds (makes : Makes P) {operands : List Slot} {v : Slot}
    (gives : Operator.Gives operands (.ok v)) : v.Holds P := by
  cases gives with
  | number x => exact ⟨_, rfl, makes.number x⟩
  | text t => exact ⟨_, rfl, makes.text t⟩
  | truth b => exact ⟨_, rfl, makes.bool b⟩

/-- The stack after an operation has values that were there or that the operator made. -/
theorem OperandStack.apply_holds (makes : Makes P) {op : Operator} {s : OperandStack}
    (h : ∀ v ∈ s, Slot.Holds P v) : ∀ v ∈ (OperandStack.apply op s).1, Slot.Holds P v := by
  have applied := OperandStack.apply_applied op s
  generalize OperandStack.apply op s = o at applied
  cases applied with
  | underrun left => exact fun v member => h v (left.subset member)
  | failed _ left => exact fun v member => h v (left.subset member)
  | made _ left gives =>
      intro v member
      rcases List.mem_cons.mp member with rfl | member
      · exact gives.holds makes
      · exact h v (left.subset member)

structure Machine.Holds (P : Value → Prop) (m : Machine) : Prop where
  registers : m.registers.Holds P
  calls : m.calls.Holds P
  stack : ∀ v ∈ m.stack, Slot.Holds P v
  buffer : ∀ v ∈ m.buffer, Slot.Holds P v

/-- A program all of whose operands have a property. -/
def Program.Carries (P : Value → Prop) (p : Program) : Prop :=
  ∀ i ∈ p.code, ∀ v ∈ i.operands, P v

theorem Machine.load_holds (makes : Makes P) {m : Machine} {p : Program}
    (mode : P (.unitMode m.options.unitMode)) : (m.load p).Holds P where
  registers := .initial makes mode
  calls := .initial
  stack := by simp [Machine.load, Machine.reset]
  buffer := by simp [Machine.load, Machine.reset]

theorem Machine.Stored.holds (makes : Makes P) {m m' : Machine} {v : Slot} (stored : m.Stored v m')
    (h : m.Holds P) (hv : v.Holds P) : m'.Holds P := by
  cases stored with
  | register set => exact ⟨h.registers.set hv set, h.calls, h.stack, h.buffer⟩
  | units value switched =>
      obtain ⟨w, rfl, hw⟩ := hv
      obtain rfl := Option.some.inj value
      exact ⟨h.registers.switchUnits makes hw switched, h.calls, h.stack, h.buffer⟩
  | «variable» put => exact ⟨h.registers, h.calls.putVariable hv put, h.stack, h.buffer⟩

namespace Instruction

/-- The values that an instruction brings into a machine: the operands that stand for themselves, and
a literal, which is taken as it is. -/
inductive Brings (i : Instruction) (v : Value) : Prop
  | first (given : i.first = some v) (plain : v.isReference = false)
  | second (given : i.second = some v) (plain : v.isReference = false)
  | literal (given : i.first = some v) (op : i.op = .moveLiteral ∨ i.op = .pushLiteral)

theorem first_of_operands {i : Instruction} (h : ∀ v ∈ i.operands, P v) {v : Value}
    (first : i.first = some v) : P v :=
  h v (by simp [operands, first])

theorem second_of_operands {i : Instruction} (h : ∀ v ∈ i.operands, P v) {v : Value}
    (second : i.second = some v) : P v :=
  h v (by simp [operands, second])

end Instruction

/-- A program that brings in no values but those with a property. -/
def Program.Brings (P : Value → Prop) (p : Program) : Prop :=
  ∀ i ∈ p.code, ∀ v, i.Brings v → P v

theorem Program.Carries.brings {p : Program} (carries : p.Carries P) : p.Brings P := by
  rintro i member v (⟨given, -⟩ | ⟨given, -⟩ | ⟨given, -⟩)
  · exact Instruction.first_of_operands (carries i member) given
  · exact Instruction.second_of_operands (carries i member) given
  · exact Instruction.first_of_operands (carries i member) given

namespace Rig

variable {r : Rig} {p : Program} {i : Instruction} {m : Machine}

theorem resolve_holds (makes : Makes P) (h : r.machine.Holds P) {source v : Slot}
    (hs : ∀ w, source = some w → w.isReference = false → P w)
    (resolved : r.resolve source = .ok v) : v.Holds P := by
  unfold resolve at resolved
  split at resolved
  · cases resolved
  · split at resolved
    · next got => exact Except.ok.inj resolved ▸ h.registers.get makes got
    · cases resolved
  · next w register =>
    split at resolved
    · split at resolved
      · next found => exact Except.ok.inj resolved ▸ h.calls.getVariable found
      · cases resolved
    · split at resolved
      · next found => exact Except.ok.inj resolved ▸ h.calls.getVariable found
      · cases resolved
    · next symbol token =>
      -- What is neither a register nor a symbol nor a token stands for itself.
      have plain : w.isReference = false := by
        unfold Value.isReference
        split
        · exact absurd rfl (register _)
        · exact absurd rfl (symbol _)
        · exact absurd rfl (token _)
        · rfl
      exact Except.ok.inj resolved ▸ ⟨w, rfl, hs w rfl plain⟩

/-- An instruction that brings in only values with a property keeps it a property of all that is
held. -/
theorem Effect.holds (makes : Makes P) (brings : ∀ v, i.Brings v → P v)
    {outcome : Except RunError Unit} (effect : r.Effect p i m outcome) (h : r.machine.Holds P) :
    m.Holds P := by
  have first : ∀ w, i.first = some w → w.isReference = false → P w :=
    fun w given plain => brings w (.first given plain)
  have second : ∀ w, i.second = some w → w.isReference = false → P w :=
    fun w given plain => brings w (.second given plain)
  cases effect with
  | refused => exact h
  | idle => exact h
  | stopped => exact ⟨h.registers, h.calls, h.stack, h.buffer⟩
  | unpaused => exact ⟨h.registers, h.calls, h.stack, h.buffer⟩
  | colored _ c =>
      obtain ⟨time, name, operand, firstZone, lastZone, result, unitMode⟩ := h.registers
      exact ⟨⟨time, name, operand, firstZone, lastZone, result, unitMode⟩, h.calls, h.stack,
        h.buffer⟩
  | @found _ v value =>
      have made : P v := by
        obtain rfl | ⟨t, rfl⟩ | ⟨x, rfl⟩ := value
        · exact makes.nothing
        · exact makes.text t
        · exact makes.number x
      obtain ⟨time, name, operand, firstZone, lastZone, -, unitMode⟩ := h.registers
      exact ⟨⟨time, name, operand, firstZone, lastZone, ⟨v, rfl, made⟩, unitMode⟩, h.calls, h.stack,
        h.buffer⟩
  | timed _ t =>
      obtain ⟨-, name, operand, firstZone, lastZone, result, unitMode⟩ := h.registers
      exact ⟨⟨makes.pattern t, name, operand, firstZone, lastZone, result, unitMode⟩, h.calls,
        h.stack, h.buffer⟩
  | constant _ _ value =>
      exact ⟨h.registers, h.calls.putConstant (resolve_holds makes h second value) _, h.stack,
        h.buffer⟩
  | param _ _ value =>
      exact ⟨h.registers, h.calls.putParam (resolve_holds makes h second value) _,
        h.stack, h.buffer⟩
  | called => exact ⟨h.registers.setCounter, h.calls.push _, h.stack, h.buffer⟩
  | returned _ popped =>
      exact ⟨h.registers.setCounter, h.calls.unwindLoops.pop popped, h.stack, h.buffer⟩
  | unwound => exact ⟨h.registers, h.calls.unwindLoops, h.stack, h.buffer⟩
  | jumped => exact ⟨h.registers.setCounter, h.calls, h.stack, h.buffer⟩
  | looped => exact ⟨h.registers, h.calls.enterLoop, h.stack, h.buffer⟩
  | unlooped _ left => exact ⟨h.registers, h.calls.exitLoop left, h.stack, h.buffer⟩
  | moved _ value stored => exact stored.holds makes h (resolve_holds makes h first value)
  | movedLiteral op value stored =>
      exact stored.holds makes h ⟨_, rfl, brings _ (.literal value (.inl op))⟩
  | popped _ top stored =>
      have below : ∀ v ∈ _, Slot.Holds P v := fun v member =>
        h.stack v (top ▸ List.mem_cons_of_mem _ member)
      exact stored.holds makes ⟨h.registers, h.calls, below, h.buffer⟩
        (h.stack _ (top ▸ List.mem_cons_self))
  | dropped _ _ top =>
      exact ⟨h.registers, h.calls, fun v member => h.stack v (top ▸ List.mem_cons_of_mem _ member),
        h.buffer⟩
  | pushed _ value =>
      refine ⟨h.registers, h.calls, ?_, h.buffer⟩
      intro v member
      rcases List.mem_cons.mp member with rfl | member
      · exact resolve_holds makes h first value
      · exact h.stack v member
  | pushedLiteral op value =>
      refine ⟨h.registers, h.calls, ?_, h.buffer⟩
      intro v member
      rcases List.mem_cons.mp member with rfl | member
      · exact ⟨_, rfl, brings _ (.literal value (.inr op))⟩
      · exact h.stack v member
  | applied => exact ⟨h.registers, h.calls, OperandStack.apply_holds makes h.stack, h.buffer⟩
  | buffered _ value =>
      refine ⟨h.registers, h.calls, h.stack, ?_⟩
      intro v member
      rcases List.mem_append.mp member with member | member
      · exact h.buffer v member
      · exact List.mem_singleton.mp member ▸ resolve_holds makes h second value
  | printed => exact ⟨h.registers, h.calls, h.stack, by simp⟩

theorem movedPast_holds (h : m.Holds P) (op : OpCode) : (m.movedPast op).Holds P := by
  unfold Machine.movedPast
  split
  · exact ⟨h.registers.setCounter, h.calls, h.stack, h.buffer⟩
  · exact h

/-- The instruction to be executed is one of the program. -/
theorem mem_of_instruction? (loaded : m.program = some p) (fetched : m.instruction? = some i) :
    i ∈ p.code := by
  unfold Machine.instruction? at fetched
  split at fetched
  · cases fetched
  · rw [loaded] at fetched
    exact List.mem_of_getElem? fetched

/-- Steps of a program that brings in only values with a property keep it a property of all that is
held. -/
theorem Stepped.holds (makes : Makes P) {result : StepResult} (stepped : r.Stepped m result)
    (loaded : r.machine.program = some p) (brings : p.Brings P) (h : r.machine.Holds P) :
    m.Holds P := by
  cases stepped with
  | ended => exact h
  | interrupted => exact h
  | failed loaded' fetched effect =>
      obtain rfl := Option.some.inj (loaded'.symm.trans loaded)
      exact effect.holds makes (brings _ (mem_of_instruction? loaded' fetched)) h
  | done loaded' fetched effect _ =>
      obtain rfl := Option.some.inj (loaded'.symm.trans loaded)
      exact movedPast_holds
        (effect.holds makes (brings _ (mem_of_instruction? loaded' fetched)) h) _

/-- A machine that starts a program holds, throughout the run, only values with a property that the
unit mode at the start has and all that the program brings in. -/
theorem IsRun.holds_brought (makes : Makes P) {run : Nat → Rig} (isRun : IsRun run)
    (start : (run 0).machine = m.load p) (mode : P (.unitMode m.options.unitMode))
    (brings : p.Brings P) (k : Nat) :
    (run k).machine.program = some p ∧ (run k).machine.Holds P := by
  refine isRun.invariant (P := fun m => m.program = some p ∧ m.Holds P) ?_ ?_ k
  · rw [start]
    exact ⟨rfl, Machine.load_holds makes mode⟩
  · rintro r m result stepped ⟨loaded, h⟩
    exact ⟨stepped.program.trans loaded, stepped.holds makes loaded brings h⟩

/-- In particular if all operands of the program have the property. -/
theorem IsRun.holds (makes : Makes P) {run : Nat → Rig} (isRun : IsRun run)
    (start : (run 0).machine = m.load p) (mode : P (.unitMode m.options.unitMode))
    (carries : p.Carries P) (k : Nat) :
    (run k).machine.program = some p ∧ (run k).machine.Holds P :=
  isRun.holds_brought makes start mode carries.brings k

end Rig

end Lightboard
