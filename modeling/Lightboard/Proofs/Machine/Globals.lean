import Lightboard.Proofs.Machine.LoopScopes
import Lightboard.Proofs.Machine.Staging

/-!
# Constants and global variables

The same name can be a constant, a global variable, a variable of the call that runs and a parameter
that waits for a call. It is read in the order of this list but for the last, while a write goes to
the global variable first. Constants are set once and hide everything else; a global variable comes
into being only outside of calls and is then the same one for all of them.

`constants_apply` and `globals_apply` say what each change of the call stack does to the two, and
`IsRun.constant_iff` and `IsRun.global_iff` what has become of them after a whole run.
-/

namespace Lightboard

namespace CallStack

variable {s t : CallStack}

/-- The value that a change has for a constant. -/
def Change.constant? (x : Text) : Change → Option Slot
  | .constant n v => if n = x then some v else none
  | _ => none

/-- The value that a change has for a global variable: one that is there, or any if no call is open. -/
def Change.global? (s : CallStack) (x : Text) : Change → Option Slot
  | .symbol n v => if n = x ∧ (s.root.scope.contains x ∨ s.callDepth = 1) then some v else none
  | _ => none

theorem callDepth_eq_one_iff (s : CallStack) : s.callDepth = 1 ↔ s.calls = [] := by
  simp [callDepth]

theorem keeps_setInnermost {f : CallFrame} (scope : f.scope = s.innermost.scope) :
    (s.setInnermost f).constants = s.constants ∧ (s.setInnermost f).root.scope = s.root.scope :=
  ⟨constants_setInnermost s f, (scopes_setInnermost scope).2⟩

theorem pop_keeps (popped : s.pop = .ok t) : t.constants = s.constants ∧ t.root = s.root := by
  obtain ⟨f, rest, -, rfl⟩ := pop_eq_ok popped
  exact ⟨rfl, rfl⟩

theorem putToken_keeps {n : Int} {v : Slot} (put : s.putToken n v = .ok t) :
    t.constants = s.constants ∧ t.root.scope = s.root.scope := by
  obtain ⟨l, rest, -, rfl⟩ := putToken_eq_ok put
  exact keeps_setInnermost rfl

theorem exitLoop_keeps (left : s.exitLoop = .ok t) :
    t.constants = s.constants ∧ t.root.scope = s.root.scope := by
  obtain ⟨l, rest, -, rfl⟩ := exitLoop_eq_ok left
  exact keeps_setInnermost rfl

theorem unwindLoops_keeps (s : CallStack) :
    s.unwindLoops.constants = s.constants ∧ s.unwindLoops.root.scope = s.root.scope :=
  keeps_setInnermost rfl

/-- A change that defines no constant and writes no name leaves the constants and the globals. -/
theorem keeps_apply {c : Change} (constant : ∀ n v, c ≠ .constant n v)
    (symbol : ∀ n v, c ≠ .symbol n v) (s : CallStack) :
    (c.apply s).constants = s.constants ∧ (c.apply s).root.scope = s.root.scope := by
  have same : s.constants = s.constants ∧ s.root.scope = s.root.scope := ⟨rfl, rfl⟩
  cases c with
  | keep => exact same
  | constant n v => exact absurd rfl (constant n v)
  | param n v => exact same
  | symbol n v => exact absurd rfl (symbol n v)
  | token n v =>
      rw [Change.apply]
      cases put : s.putToken n v with
      | error f => exact same
      | ok t => exact putToken_keeps put
  | call back => exact same
  | ret =>
      rw [Change.apply]
      cases popped : s.unwindLoops.pop with
      | error f => exact same
      | ok t =>
          obtain ⟨constants, root⟩ := pop_keeps popped
          exact ⟨constants.trans s.unwindLoops_keeps.1,
            (congrArg CallFrame.scope root).trans s.unwindLoops_keeps.2⟩
  | unwind => exact s.unwindLoops_keeps
  | loop => exact keeps_setInnermost rfl
  | endLoop =>
      rw [Change.apply]
      cases left : s.exitLoop with
      | error f => exact same
      | ok t => exact exitLoop_keeps left

theorem putName_constants (s : CallStack) (n : Text) (v : Slot) :
    (s.putName n v).constants = s.constants := by
  unfold putName
  split
  · rfl
  · exact constants_setInnermost _ _

theorem putConstant_root (s : CallStack) (n : Text) (v : Slot) :
    (s.putConstant n v).root = s.root := by
  unfold putConstant
  split <;> rfl

/-- A constant that is there stays, and another one is there if the change defines it. -/
theorem constants_apply (c : Change) (s : CallStack) (x : Text) :
    (c.apply s).constants.get? x = (s.constants.get? x).or (c.constant? x) := by
  cases c with
  | constant n v =>
      rw [Change.apply, putConstant, Change.constant?]
      split
      · next known =>
        obtain ⟨w, held⟩ := Option.isSome_iff_exists.mp known
        by_cases same : n = x
        · rw [← same, held, Option.some_or]
        · rw [if_neg same, Option.or_none]
      · next new =>
        have absent : s.constants.get? n = none := by simpa [Table.contains] using new
        rw [Table.get?_insert]
        by_cases same : n = x
        · rw [← same, if_pos rfl, if_pos rfl, absent, Option.none_or]
        · rw [if_neg same, if_neg (Ne.symm same), Option.or_none]
  | symbol n v => simp [Change.apply, Change.constant?, putName_constants]
  | _ =>
      rw [(keeps_apply (by simp) (by simp) s).1]
      simp [Change.constant?]

/-- A name is written to a global variable, or else to the call that runs if one is open. -/
theorem putName_root (s : CallStack) (n x : Text) (v : Slot) :
    (s.putName n v).root.scope.get? x =
      ((Change.symbol n v).global? s x).or (s.root.scope.get? x) := by
  unfold putName Change.global?
  split
  · next global =>
    by_cases same : n = x
    · subst same
      simp [global]
    · simp [same, Ne.symm same]
  · next new =>
    cases calls : s.calls with
    | nil =>
        by_cases same : n = x
        · subst same
          simp [setInnermost, innermost, calls, callDepth]
        · simp [setInnermost, innermost, calls, same, Ne.symm same]
    | cons f rest =>
        have open' : s.callDepth ≠ 1 := by simp [callDepth, calls]
        by_cases same : n = x
        · subst same
          simp [setInnermost, calls, new, open']
        · simp [setInnermost, calls, same]

/-- A global variable has the value that the change has for it, or keeps the one it had. -/
theorem globals_apply (c : Change) (s : CallStack) (x : Text) :
    (c.apply s).root.scope.get? x = (c.global? s x).or (s.root.scope.get? x) := by
  cases c with
  | constant n v => simp [Change.apply, Change.global?, putConstant_root]
  | symbol n v => exact putName_root s n x v
  | _ =>
      rw [(keeps_apply (by simp) (by simp) s).2]
      simp [Change.global?]

/-- A constant hides all variables of its name. -/
theorem getName_of_constant {x : Text} {v : Slot} (defined : s.constants.get? x = some v) :
    s.getName x = some v := by
  simp [getName, defined]

/-- A name that neither a constant nor the call that runs has is read from the globals. -/
theorem getName_of_global {x : Text} (plain : s.constants.get? x = none)
    (free : s.callDepth = 1 ∨ s.isParam x = false) : s.getName x = s.root.scope.get? x := by
  obtain outside | free := free
  · have own : s.innermost = s.root := by
      simp [innermost, (callDepth_eq_one_iff s).mp outside]
    simp [getName, plain, own]
  · have absent : s.innermost.scope.get? x = none := by
      simpa [isParam, Table.contains] using free
    simp [getName, plain, absent]

end CallStack

open CallStack

namespace Rig

/-- The next step executes a `CONSTANT` for a name, with the value that its operand stands for now,
and does not fail. -/
def Defines (r : Rig) (x : Text) (v : Slot) : Prop :=
  (∃ i, r.machine.instruction? = some i ∧ i.op = .constant ∧ name i.first = .ok x ∧
    r.resolve i.second = .ok v) ∧ ∀ e, r.step.2 ≠ .error e

/-- Instruction `i` is a move or a pop into the variable `x`, and `v` is the value that it takes
there. -/
inductive Assigns (r : Rig) (x : Text) (v : Slot) (i : Instruction) : Prop
  | move (op : i.op = .move) (dest : i.second = some (.symbol x)) (value : r.resolve i.first = .ok v)
  | moveLiteral (op : i.op = .moveLiteral) (dest : i.second = some (.symbol x))
      (value : i.first = v)
  | pop (op : i.op = .pop) (dest : i.first = some (.symbol x))
      (value : r.machine.stack.head? = some v)

/-- The next step moves or pops a value into a variable, and does not fail. -/
def Writes (r : Rig) (x : Text) (v : Slot) : Prop :=
  (∃ i, r.machine.instruction? = some i ∧ r.Assigns x v i) ∧ ∀ e, r.step.2 ≠ .error e

variable {r : Rig} {x : Text} {v : Slot} {i : Instruction}

theorem change_eq_constant_iff : r.change = .constant x v ↔ r.Defines x v := by
  constructor
  · intro defined
    obtain ⟨i, fetched, op, change, succeeded⟩ := change_made (r := r) (by rw [defined]; rfl)
    rw [defined] at change
    refine ⟨⟨i, fetched, op, ?_⟩, succeeded⟩
    simp only [changeBy, op] at change
    split at change
    · next named resolved =>
      obtain ⟨rfl, rfl⟩ := Change.constant.inj change
      exact ⟨named, resolved⟩
    · cases change
  · rintro ⟨⟨i, fetched, op, named, resolved⟩, succeeded⟩
    rw [change_of_ok succeeded fetched]
    simp only [changeBy, op, named, resolved]

theorem ofStore_eq_symbol_iff {dest w : Slot} :
    Change.ofStore dest w = .symbol x v ↔ dest = some (.symbol x) ∧ w = v := by
  unfold Change.ofStore
  split
  · simp
  · simp
  · next symbol _ =>
    constructor
    · rintro ⟨⟩
    · rintro ⟨rfl, -⟩
      exact absurd rfl (symbol x)

theorem changeBy_eq_symbol_iff : r.changeBy i = .symbol x v ↔ r.Assigns x v i := by
  constructor
  · intro change
    cases op : i.op <;> simp only [changeBy, op] at change
    case move =>
      split at change
      · next resolved =>
        obtain ⟨dest, rfl⟩ := ofStore_eq_symbol_iff.mp change
        exact .move op dest resolved
      · cases change
    case moveLiteral =>
      obtain ⟨dest, value⟩ := ofStore_eq_symbol_iff.mp change
      exact .moveLiteral op dest value
    case pop =>
      split at change
      · next top =>
        obtain ⟨dest, rfl⟩ := ofStore_eq_symbol_iff.mp change
        exact .pop op dest (by rw [top]; rfl)
      · cases change
    case constant => split at change <;> cases change
    case param => split at change <;> cases change
    all_goals cases change
  · rintro (⟨op, dest, value⟩ | ⟨op, dest, value⟩ | ⟨op, dest, value⟩)
    · simp only [changeBy, op, value]
      exact ofStore_eq_symbol_iff.mpr ⟨dest, rfl⟩
    · simp only [changeBy, op]
      exact ofStore_eq_symbol_iff.mpr ⟨dest, value⟩
    · obtain ⟨rest, top⟩ := List.head?_eq_some_iff.mp value
      simp only [changeBy, op, top]
      exact ofStore_eq_symbol_iff.mpr ⟨dest, rfl⟩

theorem change_eq_symbol_iff : r.change = .symbol x v ↔ r.Writes x v := by
  constructor
  · intro written
    have succeeded : ∀ e, r.step.2 ≠ .error e := by
      intro e failed
      unfold change at written
      rw [failed] at written
      split at written
      · split at written <;> cases written
      · cases written
      · next other => exact absurd rfl (other e)
    cases fetched : r.machine.instruction? with
    | none =>
        unfold change at written
        split at written
        all_goals simp_all
    | some i =>
        rw [change_of_ok succeeded fetched] at written
        exact ⟨⟨i, fetched, changeBy_eq_symbol_iff.mp written⟩, succeeded⟩
  · rintro ⟨⟨i, fetched, assigns⟩, succeeded⟩
    rw [change_of_ok succeeded fetched]
    exact changeBy_eq_symbol_iff.mpr assigns

theorem constant?_change : r.change.constant? x = some v ↔ r.Defines x v := by
  rw [← change_eq_constant_iff]
  cases r.change <;> simp [Change.constant?]

theorem global?_change : r.change.global? r.machine.calls x = some v ↔
    r.Writes x v ∧ (r.machine.calls.root.scope.contains x ∨ r.machine.calls.callDepth = 1) := by
  rw [← change_eq_symbol_iff]
  cases r.change with
  | symbol n w =>
      simp only [Change.global?, Option.ite_none_right_eq_some, Option.some.injEq,
        Change.symbol.injEq]
      exact and_right_comm
  | _ => simp [Change.global?]

variable {run : Nat → Rig} {k : Nat}

/-- The value `v` is the one that the first `CONSTANT` for a name gave to it. -/
def FirstDefined (run : Nat → Rig) (x : Text) (k : Nat) (v : Slot) : Prop :=
  ∃ w < k, (run w).Defines x v ∧ ∀ j < w, ∀ u, ¬ (run j).Defines x u

/-- The value `v` is the last one that was written to a name, by whatever call. -/
def LastWritten (run : Nat → Rig) (x : Text) (k : Nat) (v : Slot) : Prop :=
  Latest (fun j u => (run j).Writes x u) (fun j => ∃ u, (run j).Writes x u) k v

theorem IsRun.constants_succ (isRun : IsRun run) (k : Nat) (x : Text) :
    (run (k + 1)).machine.calls.constants.get? x =
      ((run k).machine.calls.constants.get? x).or ((run k).change.constant? x) := by
  rw [isRun.calls k, constants_apply]

theorem IsRun.globals_succ (isRun : IsRun run) (k : Nat) (x : Text) :
    (run (k + 1)).machine.calls.root.scope.get? x =
      ((run k).change.global? (run k).machine.calls x).or
        ((run k).machine.calls.root.scope.get? x) := by
  rw [isRun.calls k, globals_apply]

theorem IsRun.constant_none_iff (isRun : IsRun run)
    (start : (run 0).machine.calls.constants = {}) (k : Nat) (x : Text) :
    (run k).machine.calls.constants.get? x = none ↔ ∀ j < k, ∀ u, ¬ (run j).Defines x u := by
  induction k with
  | zero =>
      rw [start]
      simp [Table.get?, Table.lookup]
  | succ k ih =>
      have now : (run k).change.constant? x = none ↔ ∀ u, ¬ (run k).Defines x u := by
        simp only [Option.eq_none_iff_forall_ne_some, ne_eq, constant?_change]
      rw [isRun.constants_succ, Option.or_eq_none_iff, ih, now, Nat.forall_lt_succ_right]

/-- A constant has the value that it was defined with first. -/
theorem IsRun.constant_iff (isRun : IsRun run) (start : (run 0).machine.calls.constants = {})
    (k : Nat) (x : Text) (v : Slot) :
    (run k).machine.calls.constants.get? x = some v ↔ FirstDefined run x k v := by
  induction k with
  | zero =>
      rw [start]
      constructor
      · rintro ⟨⟩
      · rintro ⟨w, before, -⟩
        exact absurd before (Nat.not_lt_zero w)
  | succ k ih =>
      rw [isRun.constants_succ, Option.or_eq_some_iff, ih, constant?_change,
        isRun.constant_none_iff start]
      constructor
      · rintro (⟨w, before, first⟩ | ⟨none, defined⟩)
        · exact ⟨w, Nat.lt_succ_of_lt before, first⟩
        · exact ⟨k, Nat.lt_succ_self k, defined, none⟩
      · rintro ⟨w, before, defined, first⟩
        obtain earlier | rfl := Nat.lt_succ_iff_lt_or_eq.mp before
        · exact .inl ⟨w, earlier, defined, first⟩
        · exact .inr ⟨first, defined⟩

/-- Constants stay what they are. -/
theorem IsRun.constant_stays (isRun : IsRun run) {j : Nat} {x : Text} {v : Slot}
    (defined : (run j).machine.calls.constants.get? x = some v) (later : j ≤ k) :
    (run k).machine.calls.constants.get? x = some v := by
  induction later with
  | refl => exact defined
  | @step k later ih => rw [isRun.constants_succ, ih, Option.some_or]

/-- A global name is there since it was written outside of calls. -/
theorem IsRun.global_added_iff (isRun : IsRun run) (k : Nat) (x : Text) :
    (run (k + 1)).machine.calls.root.scope.contains x = true ↔
      (run k).machine.calls.root.scope.contains x = true ∨
        ((run k).machine.calls.callDepth = 1 ∧ ∃ v, (run k).Writes x v) := by
  have written : ((run k).change.global? (run k).machine.calls x).isSome ↔
      ∃ v, (run k).Writes x v ∧ ((run k).machine.calls.root.scope.contains x ∨
        (run k).machine.calls.callDepth = 1) := by
    rw [Option.isSome_iff_exists]
    simp only [global?_change]
  rw [Table.contains, isRun.globals_succ, Option.isSome_or, Bool.or_eq_true, written]
  change _ ∨ (run k).machine.calls.root.scope.contains x = true ↔ _
  constructor
  · rintro (⟨v, written, known | outside⟩ | known)
    · exact .inl known
    · exact .inr ⟨outside, v, written⟩
    · exact .inl known
  · rintro (known | ⟨outside, v, written⟩)
    · exact .inr known
    · exact .inl ⟨v, written, .inr outside⟩

/-- A global variable has the value last written to its name, also where another variable of that
name was written before it came into being. -/
theorem IsRun.global_iff (isRun : IsRun run) (start : (run 0).machine.calls.root.scope = {})
    {x : Text} (global : (run k).machine.calls.root.scope.contains x = true) (v : Slot) :
    (run k).machine.calls.root.scope.get? x = some v ↔ LastWritten run x k v := by
  induction k with
  | zero =>
      rw [start] at global
      cases global
  | succ k ih =>
      rw [isRun.globals_succ]
      by_cases written : ∃ u, (run k).Writes x u
      · obtain ⟨u, written⟩ := written
        -- Had the write gone to a call, the name would not be global even now.
        have reaches : (run k).machine.calls.root.scope.contains x ∨
            (run k).machine.calls.callDepth = 1 := by
          obtain known | ⟨outside, -⟩ := (isRun.global_added_iff k x).mp global
          · exact .inl known
          · exact .inr outside
        have only : ∀ w, (run k).Writes x w → u = w := by
          intro w other
          exact (Change.symbol.inj
            ((change_eq_symbol_iff.mpr written).symm.trans (change_eq_symbol_iff.mpr other))).2
        rw [global?_change.mpr ⟨written, reaches⟩, Option.some_or, Option.some.injEq]
        exact (latest_of_writes written only v).symm
      · have none : (run k).change.global? (run k).machine.calls x = none := by
          rw [Option.eq_none_iff_forall_ne_some]
          intro u found
          exact written ⟨u, (global?_change.mp found).1⟩
        have known : (run k).machine.calls.root.scope.contains x = true := by
          obtain known | ⟨-, written'⟩ := (isRun.global_added_iff k x).mp global
          · exact known
          · exact absurd written' written
        have idle : ∀ u, ¬ (run k).Writes x u := fun u h => written ⟨u, h⟩
        rw [none, Option.none_or, ih known]
        exact (latest_of_idle idle v).symm

/-- In a run of a program, a name that has once a constant value is read as that value ever after, in
whatever call and loop, and the value is the one that the first `CONSTANT` for the name gave. A global
name stays one, and it becomes one only by a move or pop into its symbol while no call is open. As
long as it is neither a constant nor a variable of the innermost call, it is read as the value that
was last moved or popped into its symbol, in whatever call that was. -/
theorem IsRun.names_keep_meaning {m : Machine} {p : Program} (isRun : IsRun run)
    (start : (run 0).machine = m.load p) :
    (∀ j k x v, (run j).machine.calls.constants.get? x = some v → j ≤ k →
      FirstDefined run x j v ∧
      (run k).machine.calls.getVariable (some (.symbol x)) = some v ∧
      (run k).machine.calls.getVariable (some (.str x)) = some v) ∧
    (∀ j k x, (run j).machine.calls.root.scope.contains x = true → j ≤ k →
      (run k).machine.calls.root.scope.contains x = true) ∧
    (∀ k x, (run k).machine.calls.root.scope.contains x = false →
      (run (k + 1)).machine.calls.root.scope.contains x = true →
      (run k).machine.calls.callDepth = 1 ∧ ∃ v, (run k).Writes x v) ∧
    ∀ k x, (run k).machine.calls.root.scope.contains x = true →
      (run k).machine.calls.constants.get? x = none →
      ((run k).machine.calls.callDepth = 1 ∨ (run k).machine.calls.isParam x = false) →
      ∃ v, LastWritten run x k v ∧
        (run k).machine.calls.getVariable (some (.symbol x)) = some v ∧
        (run k).machine.calls.getVariable (some (.str x)) = some v := by
  have noConstants : (run 0).machine.calls.constants = {} := by rw [start]; rfl
  have noGlobals : (run 0).machine.calls.root.scope = {} := by rw [start]; rfl
  refine ⟨?_, fun j k x => isRun.global_stays, ?_, ?_⟩
  · intro j k x v defined later
    have read := getName_of_constant (isRun.constant_stays defined later)
    exact ⟨(isRun.constant_iff noConstants j x v).mp defined, read, read⟩
  · intro k x new global
    obtain known | added := (isRun.global_added_iff k x).mp global
    · cases new.symm.trans known
    · exact added
  · intro k x global plain free
    obtain ⟨v, held⟩ := Option.isSome_iff_exists.mp global
    have read := (getName_of_global plain free).trans held
    exact ⟨v, (isRun.global_iff noGlobals global v).mp held, read, read⟩

/-- A constant defined twice and then written, and a global variable that is written in a routine
under a parameter of its name. -/
def shadowedNames : Program where
  name := []
  code :=
    [⟨.constant, some (.str [107]), some (.bool true)⟩,
     ⟨.constant, some (.str [107]), some (.bool false)⟩,
     ⟨.moveLiteral, some (.bool true), some (.symbol [103])⟩,
     ⟨.param, some (.str [103]), some .nothing⟩,
     { op := .call, first := some (.str [102]) }, { op := .stop },
     { op := .routine, first := some (.str [102]) }, { op := .loop },
     ⟨.moveLiteral, some (.bool false), some (.symbol [103])⟩,
     ⟨.moveLiteral, some (.bool false), some (.symbol [107])⟩,
     { op := .call, first := some (.str [104]) }, { op := .ret },
     { op := .routine, first := some (.str [104]) }, { op := .ret }]
  routines := (Table.empty.insert [102] 6).insert [104] 12

/-- The routine reads its parameter, the one that it calls reads what was written to the global
variable, and the constant has its first value in both. -/
theorem shadowedNames_keep_meaning :
    let run := (({} : Rig).load shadowedNames).afterSteps
    ((run 2).machine.calls.callDepth = 1 ∧ ∃ v, (run 2).Writes [103] v) ∧
      (run 9).machine.calls.getVariable (some (.symbol [103])) = some (some .nothing) ∧
      (run 10).machine.calls.callDepth = 3 ∧
      (∃ v, LastWritten run [103] 10 v ∧
        (run 10).machine.calls.getVariable (some (.symbol [103])) = some v) ∧
      (run 10).machine.calls.getVariable (some (.symbol [107])) = some (some (.bool true)) := by
  obtain ⟨constants, -, added, globals⟩ :=
    (isRun_afterSteps (({} : Rig).load shadowedNames)).names_keep_meaning
      (m := {}) (p := shadowedNames) rfl
  obtain ⟨v, last, read, -⟩ := globals 10 [103] rfl rfl (.inr rfl)
  exact ⟨added 2 [103] rfl rfl, rfl, rfl, ⟨v, last, read⟩,
    (constants 1 10 [107] _ rfl (by decide)).2.1⟩

end Rig

end Lightboard
