import Lightboard.Proofs.Machine.Effect

/-!
# Expressions on the operand stack

An expression is worked out by the instructions of its nodes in post-order: they push what stands at its
leaves and apply its operators. `Expression.eval` says what an expression means, from the left to the
right and without a stack, and `Rig.IsRun.evaluates_expression` that a run over these instructions comes
to the same: to the value on top of the operand stack, or to the failure of the first node that has no
value.

The proof has two layers. `Performs` is about nodes and stacks alone, and there the induction is on the
expression. A run follows the nodes one step at a time, wherever their instructions stand.
-/

namespace Lightboard

/-- What stands at a leaf of an expression. The program counter is left out, as it moves meanwhile. -/
inductive Leaf where
  | literal (v : Value)
  | register (r : Register) (other : r ≠ .pc)
  | symbol (name : Text)
  | loopVar (n : Int)

/-- An expression with operators that take one value or two. -/
inductive Expression where
  | leaf (x : Leaf)
  | unary (op : Operator) (one : op.isUnary = true) (e : Expression)
  | binary (op : Operator) (two : op.isUnary = false) (left right : Expression)

section

variable {ε α β : Type} {x : Except ε α} {f : α → Except ε β}

theorem ok_of_bind {y : β} (h : x >>= f = .ok y) : ∃ a, x = .ok a ∧ f a = .ok y := by
  cases x with
  | error e => cases h
  | ok a => exact ⟨a, rfl, h⟩

theorem error_of_bind {e : ε} (h : x >>= f = .error e) :
    x = .error e ∨ ∃ a, x = .ok a ∧ f a = .error e := by
  cases x with
  | error e' =>
      cases h
      exact .inl rfl
  | ok a => exact .inr ⟨a, rfl, h⟩

end

namespace Leaf

/-- The value at a leaf: a literal is its own value, and names are looked up. -/
def read (b : Registers) (s : CallStack) : Leaf → Except RunError Slot
  | literal v => .ok (some v)
  | register r _ => (b.get r).mapError .fault
  | symbol name => (s.getName name).elim (.error (.unresolvedName (.symbol name))) .ok
  | loopVar n => (s.getToken n).elim (.error (.unresolvedName (.loopVar n))) .ok

def instruction : Leaf → Instruction
  | literal v => { op := .pushLiteral, first := some v }
  | register r _ => { op := .push, first := some (.register r) }
  | symbol name => { op := .push, first := some (.symbol name) }
  | loopVar n => { op := .push, first := some (.loopVar n) }

end Leaf

namespace Expression

/-- The value of an expression. What fails first, from the left to the right, is its failure. -/
def eval (b : Registers) (s : CallStack) : Expression → Except RunError Slot
  | leaf x => x.read b s
  | unary op _ e => do
    let v ← e.eval b s
    op.unary v
  | binary op _ left right => do
    let v ← left.eval b s
    let w ← right.eval b s
    op.binary v w

/-- The instruction of the node on top of an expression. -/
def instruction : Expression → Instruction
  | leaf x => x.instruction
  | unary op _ _ => { op := .apply, first := some (.operator op) }
  | binary op _ _ _ => { op := .apply, first := some (.operator op) }

/-- The nodes in post-order. Each stands for the expression below it. -/
def nodes : Expression → List Expression
  | leaf x => [leaf x]
  | unary op one e => e.nodes ++ [unary op one e]
  | binary op two left right => left.nodes ++ right.nodes ++ [binary op two left right]

/-- The instructions that work an expression out. -/
def code (e : Expression) : List Instruction := e.nodes.map instruction

/-- What the instruction of a node does to the operand stack. -/
def perform (b : Registers) (s : CallStack) (node : Expression) (t : OperandStack) :
    OperandStack × Except RunError Unit :=
  match node with
  | leaf x =>
    match x.read b s with
    | .ok v => (v :: t, .ok ())
    | .error e => (t, .error e)
  | unary op _ _ => OperandStack.apply op t
  | binary op _ _ _ => OperandStack.apply op t

/-- Nodes that succeed one after the other, from one stack to another. -/
inductive Performs (b : Registers) (s : CallStack) :
    List Expression → OperandStack → OperandStack → Prop
  | nil (t : OperandStack) : Performs b s [] t t
  | cons {node : Expression} {nodes : List Expression} {t u v : OperandStack}
      (first : node.perform b s t = (u, .ok ())) (rest : Performs b s nodes u v) :
      Performs b s (node :: nodes) t v

section

variable {b : Registers} {s : CallStack}

theorem Performs.append {xs ys : List Expression} {t u v : OperandStack}
    (first : Performs b s xs t u) (rest : Performs b s ys u v) : Performs b s (xs ++ ys) t v := by
  induction first with
  | nil => exact rest
  | cons head _ ih => exact .cons head (ih rest)

theorem Performs.single {node : Expression} {t u : OperandStack}
    (h : node.perform b s t = (u, .ok ())) : Performs b s [node] t u := .cons h (.nil u)

theorem perform_leaf {x : Leaf} {v : Slot} (h : x.read b s = .ok v) (t : OperandStack) :
    (leaf x).perform b s t = (v :: t, .ok ()) := by
  simp only [perform, h]

theorem perform_unary {op : Operator} (one : op.isUnary = true) (e : Expression) {v w : Slot}
    (h : op.unary v = .ok w) (t : OperandStack) :
    (unary op one e).perform b s (v :: t) = (w :: t, .ok ()) := by
  simp only [perform, OperandStack.apply, one, if_true, OperandStack.unary, h]

theorem perform_binary {op : Operator} (two : op.isUnary = false) (left right : Expression)
    {v w x : Slot} (h : op.binary v w = .ok x) (t : OperandStack) :
    (binary op two left right).perform b s (w :: v :: t) = (x :: t, .ok ()) := by
  simp [perform, OperandStack.apply, two, OperandStack.binary, h]

/-- If an expression has a value, its nodes put it on the stack. -/
theorem performs_nodes {e : Expression} {v : Slot} (h : e.eval b s = .ok v) (t : OperandStack) :
    Performs b s e.nodes t (v :: t) := by
  induction e generalizing v t with
  | leaf x => exact .single (perform_leaf h t)
  | unary op one e ih =>
      obtain ⟨w, inner, applied⟩ := ok_of_bind h
      exact (ih inner t).append (.single (perform_unary one e applied t))
  | binary op two left right ihLeft ihRight =>
      obtain ⟨v, l, h⟩ := ok_of_bind h
      obtain ⟨w, r, applied⟩ := ok_of_bind h
      exact ((ihLeft l t).append (ihRight r (v :: t))).append
        (.single (perform_binary two left right applied t))

/-- If an expression has a value, so has everything in it. -/
theorem eval_of_mem_nodes {e : Expression} {v : Slot} (h : e.eval b s = .ok v) :
    ∀ node ∈ e.nodes, ∃ w, node.eval b s = .ok w := by
  induction e generalizing v with
  | leaf x =>
      intro node member
      obtain rfl := List.mem_singleton.mp member
      exact ⟨v, h⟩
  | unary op one e ih =>
      obtain ⟨w, inner, -⟩ := ok_of_bind h
      intro node member
      obtain below | last := List.mem_append.mp member
      · exact ih inner node below
      · obtain rfl := List.mem_singleton.mp last
        exact ⟨v, h⟩
  | binary op two left right ihLeft ihRight =>
      obtain ⟨u, l, applied⟩ := ok_of_bind h
      obtain ⟨w, r, -⟩ := ok_of_bind applied
      intro node member
      obtain below | last := List.mem_append.mp member
      · obtain inLeft | inRight := List.mem_append.mp below
        · exact ihLeft l node inLeft
        · exact ihRight r node inRight
      · obtain rfl := List.mem_singleton.mp last
        exact ⟨v, h⟩

/-- The first node in post-order that has no value, and the nodes before it. -/
structure FirstFailure (e : Expression) (b : Registers) (s : CallStack) (err : RunError)
    (done : List Expression) (node : Expression) : Prop where
  upTo : ∃ rest, e.nodes = done ++ node :: rest
  earlier : ∀ n ∈ done, ∃ v, n.eval b s = .ok v
  failure : node.eval b s = .error err

/-- If an expression has no value, its nodes fail at the first that has none, and the stack they found
is still there below. -/
theorem fails_at_first {e : Expression} {err : RunError} (h : e.eval b s = .error err)
    (t : OperandStack) : ∃ done node, e.FirstFailure b s err done node ∧
      ∃ u own, Performs b s done t u ∧ node.perform b s u = (own ++ t, .error err) := by
  induction e generalizing t with
  | leaf x =>
      refine ⟨[], leaf x, ⟨⟨[], rfl⟩, by simp, h⟩, t, [], .nil t, ?_⟩
      have read : x.read b s = .error err := h
      simp only [perform, read, List.nil_append]
  | unary op one e ih =>
      obtain below | ⟨v, inner, applied⟩ := error_of_bind h
      · obtain ⟨done, node, ⟨⟨rest, split⟩, earlier, failure⟩, performed⟩ := ih below t
        exact ⟨done, node,
          ⟨⟨rest ++ [unary op one e], by simp [nodes, split]⟩, earlier, failure⟩, performed⟩
      · refine ⟨e.nodes, unary op one e, ⟨⟨[], rfl⟩, eval_of_mem_nodes inner, h⟩,
          v :: t, [v], performs_nodes inner t, ?_⟩
        simp [perform, OperandStack.apply, one, OperandStack.unary, applied]
  | binary op two left right ihLeft ihRight =>
      obtain below | ⟨v, l, h'⟩ := error_of_bind h
      · obtain ⟨done, node, ⟨⟨rest, split⟩, earlier, failure⟩, performed⟩ := ihLeft below t
        exact ⟨done, node,
          ⟨⟨rest ++ right.nodes ++ [binary op two left right], by simp [nodes, split]⟩, earlier, failure⟩,
          performed⟩
      · obtain below | ⟨w, r, applied⟩ := error_of_bind h'
        · -- The left operand waits below the stack of the right one.
          obtain ⟨done, node, ⟨⟨rest, split⟩, earlier, failure⟩, u, own, performs, fails⟩ :=
            ihRight below (v :: t)
          refine ⟨left.nodes ++ done, node,
            ⟨⟨rest ++ [binary op two left right], by simp [nodes, split]⟩, ?_, failure⟩,
            u, own ++ [v], (performs_nodes l t).append performs, by simpa using fails⟩
          intro n member
          obtain inLeft | inRight := List.mem_append.mp member
          · exact eval_of_mem_nodes l n inLeft
          · exact earlier n inRight
        · refine ⟨left.nodes ++ right.nodes, binary op two left right, ⟨⟨[], by simp [nodes]⟩, ?_, h⟩,
            w :: v :: t, [], (performs_nodes l t).append (performs_nodes r (v :: t)), ?_⟩
          · intro n member
            obtain inLeft | inRight := List.mem_append.mp member
            · exact eval_of_mem_nodes l n inLeft
            · exact eval_of_mem_nodes r n inRight
          · simp [perform, OperandStack.apply, two, OperandStack.binary, applied]

end

end Expression

/-- The machine about to execute the instruction at an address, with these values on its stack. -/
def Machine.standing (m : Machine) (pc : Nat) (t : OperandStack) : Machine :=
  { m with registers.pc := pc, stack := t }

theorem Registers.get_setCounter (b : Registers) {r : Register} (other : r ≠ .pc) (pc : Int) :
    ({ b with pc := pc } : Registers).get r = b.get r := by
  cases r with
  | pc => exact absurd rfl other
  | _ => rfl

/-- Instructions stand in a program from an address on. -/
def Program.PlacedAt (p : Program) (pc : Nat) (is : List Instruction) : Prop := is <+: p.code.drop pc

theorem Program.PlacedAt.cons {p : Program} {pc : Nat} {i : Instruction} {is : List Instruction}
    (h : p.PlacedAt pc (i :: is)) : p.code[pc]? = some i ∧ p.PlacedAt (pc + 1) is := by
  obtain ⟨rest, split⟩ := h
  constructor
  · rw [← List.head?_drop, ← split]
    rfl
  · refine ⟨rest, ?_⟩
    rw [← List.drop_drop, ← split]
    rfl

theorem Program.PlacedAt.append {p : Program} {pc : Nat} {is js : List Instruction}
    (h : p.PlacedAt pc (is ++ js)) : p.PlacedAt pc is ∧ p.PlacedAt (pc + is.length) js := by
  obtain ⟨rest, split⟩ := h
  refine ⟨⟨js ++ rest, by rw [← List.append_assoc, split]⟩, rest, ?_⟩
  rw [← List.drop_drop, ← split, List.append_assoc, List.drop_left]

namespace Rig

open Expression

variable {m : Machine} {p : Program} {pc : Nat} {t u : OperandStack}

/-- A leaf pushes its value or fails, whatever else is on the stack. -/
theorem execute_leaf (m : Machine) (p : Program) (pc : Nat) (t : OperandStack) (stage : Stage)
    (x : Leaf) :
    ({ machine := m.standing pc t, stage := stage } : Rig).execute p x.instruction =
      ({ machine := m.standing pc ((leaf x).perform m.registers m.calls t).1, stage := stage },
        ((leaf x).perform m.registers m.calls t).2) := by
  cases x with
  | literal v => rfl
  | register r other =>
      have same : ({ m.registers with pc := (pc : Int) } : Registers).get r = m.registers.get r :=
        m.registers.get_setCounter other pc
      simp only [Leaf.instruction, execute, push, resolve, Machine.standing, perform, Leaf.read, same]
      cases m.registers.get r <;> rfl
  | symbol name =>
      simp only [Leaf.instruction, execute, push, resolve, Machine.standing, perform, Leaf.read,
        CallStack.getVariable]
      cases m.calls.getName name <;> rfl
  | loopVar n =>
      simp only [Leaf.instruction, execute, push, resolve, Machine.standing, perform, Leaf.read,
        CallStack.getVariable]
      cases m.calls.getToken n <;> rfl

/-- The instruction of a node does to the machine what it does to the stack, and nothing else. -/
theorem execute_node (m : Machine) (p : Program) (pc : Nat) (t : OperandStack) (stage : Stage)
    (node : Expression) :
    ({ machine := m.standing pc t, stage := stage } : Rig).execute p node.instruction =
      ({ machine := m.standing pc (node.perform m.registers m.calls t).1, stage := stage },
        (node.perform m.registers m.calls t).2) := by
  cases node with
  | leaf x => exact execute_leaf m p pc t stage x
  | unary op one e => rfl
  | binary op two left right => rfl

/-- The next step ends so, and all it wants of the stage is to know whether to go on. -/
def StepsQuietly (r : Rig) (result : StepResult) : Prop :=
  r.step.2 = result ∧ r.step.1.stage = r.stage.poll.1

section

variable {r : Rig} {node : Expression} (loaded : m.program = some p) (running : m.stopped = false)
include loaded running

theorem step_node (stands : r.machine = m.standing pc t) (placed : p.code[pc]? = some node.instruction)
    (polled : r.stage.poll.2 = .ok ()) :
    r.step = ({ machine := m.standing pc t, stage := r.stage.poll.1 } : Rig).stepAt p pc
      node.instruction := by
  have fetched : r.machine.instruction? = some node.instruction := by
    rw [stands]
    have inRange : ¬ (pc : Int) < 0 := by omega
    simp [Machine.instruction?, Machine.standing, running, loaded, placed, inRange]
  have loaded' : r.machine.program = some p := by
    rw [stands]
    exact loaded
  rw [step_eq_stepAt loaded' fetched (Prod.ext rfl polled), stands]
  rfl

theorem step_node_ok (stands : r.machine = m.standing pc t)
    (placed : p.code[pc]? = some node.instruction) (polled : r.stage.poll.2 = .ok ())
    (performs : node.perform m.registers m.calls t = (u, .ok ())) :
    r.StepsQuietly .goOn ∧ r.step.1.machine = m.standing (pc + 1) u := by
  have executed := execute_node m p pc t r.stage.poll.1 node
  rw [performs] at executed
  have advances : node.instruction.op.advances = true := by
    cases node with
    | leaf x => cases x <;> rfl
    | unary => rfl
    | binary => rfl
  have step : r.step = ({ machine := m.standing (pc + 1) u, stage := r.stage.poll.1 }, .goOn) := by
    rw [step_node loaded running stands placed polled, stepAt, executed]
    simp [advance, advances, setCounter, Machine.standing, running]
  rw [StepsQuietly, step]
  exact ⟨⟨rfl, rfl⟩, rfl⟩

theorem step_node_error {e : RunError} (stands : r.machine = m.standing pc t)
    (placed : p.code[pc]? = some node.instruction) (polled : r.stage.poll.2 = .ok ())
    (performs : node.perform m.registers m.calls t = (u, .error e)) :
    r.StepsQuietly (.error (.instruction pc node.instruction.op e)) ∧
      r.step.1.machine = m.standing pc u := by
  have executed := execute_node m p pc t r.stage.poll.1 node
  rw [performs] at executed
  have step : r.step = ({ machine := m.standing pc u, stage := r.stage.poll.1 },
      .error (.instruction pc node.instruction.op e)) := by
    rw [step_node loaded running stands placed polled, stepAt, executed]
  rw [StepsQuietly, step]
  exact ⟨⟨rfl, rfl⟩, rfl⟩

end

/-- A run follows nodes that succeed one after the other. -/
theorem IsRun.performs {run : Nat → Rig} (h : IsRun run) (loaded : m.program = some p)
    (running : m.stopped = false) {nodes : List Expression}
    (performs : Performs m.registers m.calls nodes t u) {k : Nat}
    (stands : (run k).machine = m.standing pc t)
    (placed : p.PlacedAt pc (nodes.map Expression.instruction))
    (goesOn : ∀ j < nodes.length, (run (k + j)).stage.poll.2 = .ok ()) :
    (∀ j < nodes.length, (run (k + j)).StepsQuietly .goOn) ∧
      (run (k + nodes.length)).machine = m.standing (pc + nodes.length) u := by
  induction performs generalizing pc k with
  | nil => exact ⟨by simp, stands⟩
  | @cons node nodes t u v first rest ih =>
      obtain ⟨here, behind⟩ := placed.cons
      obtain ⟨quiet, next⟩ := step_node_ok loaded running stands here (goesOn 0 (by simp)) first
      rw [← h k] at next
      have later (j : Nat) (below : j < nodes.length) :
          (run (k + 1 + j)).stage.poll.2 = .ok () := by
        have := goesOn (j + 1) (by simpa using below)
        rwa [show k + (j + 1) = k + 1 + j by omega] at this
      obtain ⟨steps, last⟩ := ih next behind later
      refine ⟨?_, ?_⟩
      · intro j below
        cases j with
        | zero => exact quiet
        | succ j =>
            have := steps j (by simpa using below)
            rwa [show k + 1 + j = k + (j + 1) by omega] at this
      · rw [List.length_cons, show k + (nodes.length + 1) = k + 1 + nodes.length by omega, last,
          show pc + 1 + nodes.length = pc + (nodes.length + 1) by omega]

/-- A run over the code of an expression, wherever it stands and whatever is on the stack. If the
expression has a value, the run gets past the code in as many steps as there are instructions and leaves
the value on top. If it has none, the run fails at the first node in post-order that has none, for the
same reason, and what was on the stack before is still there. Nothing else changes, in the machine or
around it. -/
theorem IsRun.evaluates_expression {run : Nat → Rig} (h : IsRun run) {e : Expression} {p : Program}
    {k pc : Nat} (loaded : (run k).machine.program = some p)
    (running : (run k).machine.stopped = false) (counter : (run k).machine.registers.pc = pc)
    (placed : p.PlacedAt pc e.code)
    (goesOn : ∀ j < e.code.length, (run (k + j)).stage.poll.2 = .ok ()) :
    let m := (run k).machine
    (∀ v, e.eval m.registers m.calls = .ok v →
      (∀ j < e.code.length, (run (k + j)).StepsQuietly .goOn) ∧
      (run (k + e.code.length)).machine = m.standing (pc + e.code.length) (v :: m.stack)) ∧
    ∀ err, e.eval m.registers m.calls = .error err →
      ∃ done node, e.FirstFailure m.registers m.calls err done node ∧
        (∀ j < done.length, (run (k + j)).StepsQuietly .goOn) ∧
        (run (k + done.length)).StepsQuietly
          (.error (.instruction (pc + done.length : Nat) node.instruction.op err)) ∧
        ∃ own, (run (k + done.length + 1)).machine =
          m.standing (pc + done.length) (own ++ m.stack) := by
  intro m
  have stands : (run k).machine = m.standing pc m.stack := by
    rw [Machine.standing, ← counter]
  have length : e.code.length = e.nodes.length := List.length_map _
  rw [length] at goesOn ⊢
  constructor
  · intro v value
    exact h.performs loaded running (performs_nodes value m.stack) stands placed goesOn
  · intro err failure
    obtain ⟨done, node, first, u, own, performs, fails⟩ := fails_at_first failure m.stack
    obtain ⟨rest, split⟩ := first.upTo
    rw [Expression.code, split, List.map_append] at placed
    obtain ⟨before, behind⟩ := placed.append
    rw [List.length_map] at behind
    have short : done.length < e.nodes.length := by
      rw [split, List.length_append, List.length_cons]
      omega
    obtain ⟨steps, reached⟩ := h.performs loaded running performs stands before
      fun j below => goesOn j (Nat.lt_trans below short)
    obtain ⟨quiet, left⟩ := step_node_error loaded running reached behind.cons.1
      (goesOn done.length short) fails
    exact ⟨done, node, first, steps, quiet, own, (h _).trans left⟩

/-- A machine that has a text on its stack and comes to the code of an expression after a routine mark. -/
def aboveText (e : Expression) : Rig where
  machine :=
    { stack := [some (.str "below")]
      registers := { pc := 1, saturation := 2 }
      program := some
        { name := [], code := { op := .routine } :: e.code ++ [{ op := .stop }], routines := {} } }

/-- A product is worked out above the text. A difference whose right operand is the negative of a text
fails after two steps, with its left operand still waiting. -/
theorem aboveText_evaluated :
    let product : Expression :=
      .binary .mul rfl (.leaf (.register .saturation (by decide)))
        (.unary .unaryMinus rfl (.leaf (.literal (.number 3))))
    let difference : Expression :=
      .binary .sub rfl (.leaf (.literal (.number 1)))
        (.unary .unaryMinus rfl (.leaf (.literal (.str "a"))))
    let reason : RunError := .cannotApply .unaryMinus (some (.str "a"))
    ((aboveText product).afterSteps 4).machine =
        (aboveText product).machine.standing 5 [some (.number (2 * -3)), some (.str "below")] ∧
      ∃ done node, difference.FirstFailure { pc := 1, saturation := 2 } {} reason done node ∧
        ((aboveText difference).afterSteps done.length).StepsQuietly
          (.error (.instruction (1 + done.length : Nat) node.instruction.op reason)) ∧
        ∃ own, ((aboveText difference).afterSteps (done.length + 1)).machine =
          (aboveText difference).machine.standing (1 + done.length) (own ++ [some (.str "below")]) := by
  intro product difference reason
  constructor
  · refine ((isRun_afterSteps (aboveText product)).evaluates_expression (e := product) (k := 0)
      rfl rfl (rfl : _ = ((1 : Nat) : Int)) ⟨_, rfl⟩ fun j below => ?_).1 _ rfl |>.2
    obtain rfl | rfl | rfl | rfl : j = 0 ∨ j = 1 ∨ j = 2 ∨ j = 3 := by
      change j < 4 at below
      omega
    all_goals rfl
  · have goesOn (j : Nat) (below : j < 4) :
        ((aboveText difference).afterSteps (0 + j)).stage.poll.2 = .ok () := by
      obtain rfl | rfl | rfl | rfl : j = 0 ∨ j = 1 ∨ j = 2 ∨ j = 3 := by omega
      all_goals rfl
    obtain ⟨done, node, first, -, failed, own, left⟩ :=
      ((isRun_afterSteps (aboveText difference)).evaluates_expression (e := difference) (k := 0)
        rfl rfl (rfl : _ = ((1 : Nat) : Int)) ⟨_, rfl⟩ goesOn).2 reason rfl
    rw [Nat.zero_add] at failed left
    exact ⟨done, node, first, failed, own, left⟩

end Rig

end Lightboard
