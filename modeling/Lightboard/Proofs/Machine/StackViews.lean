import Lightboard.Proofs.Machine.CallChanges

/-!
# Two views of a call stack

`CallStack.ladder` has the tokens of every frame, and `CallStack.names` has the names of every call,
both from the top down. A change of the stack reaches only the top of either view: it rewrites the
first entry, puts one on it or takes some off. `TopStep` is this kind of step on lists, and from it
follows where an entry stands after a step and where it stood before.
-/

namespace Lightboard

/-- A list that changes at its top only, if at all: its first entry is rewritten, one is put on it, or
some are taken off. -/
inductive TopStep {α : Type} (rewrites : α → α → Prop) (pushes : α → Prop) (cuts : Prop) :
    List α → List α → Prop
  | same (x : List α) : TopStep rewrites pushes cuts x x
  | rewritten {a b : α} (rest : List α) (h : rewrites a b) :
      TopStep rewrites pushes cuts (a :: rest) (b :: rest)
  | pushed {a : α} (x : List α) (h : pushes a) : TopStep rewrites pushes cuts x (a :: x)
  | cut {x y : List α} (h : cuts) (shorter : y <:+ x) : TopStep rewrites pushes cuts x y

namespace TopStep

variable {α : Type} {rewrites : α → α → Prop} {pushes : α → Prop} {cuts : Prop}
  {x y above base : List α} {e : α}

/-- An entry stays where it is as long as the list stays longer than what is below it. Only as the
first entry it can be rewritten. -/
theorem stands (step : TopStep rewrites pushes cuts x y) (split : x = above ++ e :: base)
    (deep : base.length < y.length) :
    (∃ above', y = above' ++ e :: base) ∨ (above = [] ∧ ∃ e', rewrites e e' ∧ y = e' :: base) := by
  cases step with
  | same => exact .inl ⟨above, split⟩
  | @rewritten a b rest h =>
      cases above with
      | nil =>
          obtain ⟨rfl, rfl⟩ := List.cons.inj split
          exact .inr ⟨rfl, b, h, rfl⟩
      | cons c above =>
          obtain ⟨-, rfl⟩ := List.cons.inj split
          exact .inl ⟨b :: above, rfl⟩
  | @pushed a _ h => exact .inl ⟨a :: above, congrArg (a :: ·) split⟩
  | cut _ shorter =>
      subst split
      have below : e :: base <:+ y :=
        List.suffix_of_suffix_length_le (List.suffix_append above _) shorter deep
      obtain ⟨above', whole⟩ := below
      exact .inl ⟨above', whole.symm⟩

/-- An entry that stands in a list was put on it just now, or stood at the same place before,
perhaps with another content. -/
theorem stood (step : TopStep rewrites pushes cuts x y) (split : y = above ++ e :: base) :
    (pushes e ∧ x = base) ∨ ∃ above' e', x = above' ++ e' :: base ∧ (e' = e ∨ rewrites e' e) := by
  cases step with
  | same => exact .inr ⟨above, e, split, .inl rfl⟩
  | @rewritten a b rest h =>
      cases above with
      | nil =>
          obtain ⟨rfl, rfl⟩ := List.cons.inj split
          exact .inr ⟨[], a, rfl, .inr h⟩
      | cons c above =>
          obtain ⟨-, rfl⟩ := List.cons.inj split
          exact .inr ⟨a :: above, e, rfl, .inl rfl⟩
  | @pushed a _ h =>
      cases above with
      | nil =>
          obtain ⟨rfl, rfl⟩ := List.cons.inj split
          exact .inl ⟨h, rfl⟩
      | cons c above =>
          obtain ⟨-, rfl⟩ := List.cons.inj split
          exact .inr ⟨above, e, rfl, .inl rfl⟩
  | cut _ shorter =>
      obtain ⟨off, rfl⟩ := shorter
      exact .inr ⟨off ++ above, e, by rw [split, List.append_assoc], .inl rfl⟩

/-- A list that gets shorter is cut. -/
theorem shortened (step : TopStep rewrites pushes cuts x y) (shorter : y.length < x.length) :
    cuts ∧ y <:+ x := by
  cases step with
  | same => exact absurd shorter (Nat.lt_irrefl _)
  | rewritten => exact absurd shorter (Nat.lt_irrefl _)
  | pushed =>
      rw [List.length_cons] at shorter
      omega
  | cut h suffix => exact ⟨h, suffix⟩

end TopStep

/-- The part of a ladder that belongs to one call: its loops, and an entry without tokens. -/
def CallFrame.rungs (f : CallFrame) : List (Option Tokens) := f.loops.map some ++ [none]

namespace CallStack

variable {s t : CallStack}

/-- The tokens of a frame that is a loop. -/
def Frame.tokens? : Frame → Option Tokens
  | .loop tokens => some tokens
  | _ => none

/-- The tokens of the frames from the top down. Calls and the globals have none. -/
def ladder (s : CallStack) : List (Option Tokens) := (s.frames.map Frame.tokens?).reverse

theorem length_ladder (s : CallStack) : s.ladder.length = s.depth := by
  simp [ladder, depth]

theorem ladder_eq (s : CallStack) :
    s.ladder = s.calls.flatMap CallFrame.rungs ++ s.root.rungs := by
  simp only [ladder, frames, List.map_append, List.map_cons, List.map_map, List.map_reverse,
    List.map_flatMap, List.reverse_append, List.reverse_cons, List.reverse_reverse,
    List.reverse_flatMap, Function.comp_def, Frame.tokens?]
  rfl

/-- The ladder of a stack below the call that runs does not depend on that call. -/
theorem exists_below (s : CallStack) :
    ∃ below, s.ladder = s.innermost.rungs ++ below ∧
      ∀ g, (s.setInnermost g).ladder = g.rungs ++ below := by
  cases calls : s.calls with
  | nil =>
      refine ⟨[], ?_, ?_⟩
      · simp [ladder_eq, innermost, calls]
      · intro g
        simp [ladder_eq, setInnermost, calls]
  | cons f rest =>
      refine ⟨rest.flatMap CallFrame.rungs ++ s.root.rungs, ?_, ?_⟩
      · simp [ladder_eq, innermost, calls]
      · intro g
        simp [ladder_eq, setInnermost, calls]

theorem ladder_setInnermost {g : CallFrame} (loops : g.loops = s.innermost.loops) :
    (s.setInnermost g).ladder = s.ladder := by
  obtain ⟨below, whole, set⟩ := s.exists_below
  rw [set, whole, CallFrame.rungs, CallFrame.rungs, loops]

theorem ladder_putConstant (s : CallStack) (n : Text) (v : Slot) :
    (s.putConstant n v).ladder = s.ladder := by
  unfold putConstant
  split <;> rfl

theorem ladder_putName (s : CallStack) (n : Text) (v : Slot) :
    (s.putName n v).ladder = s.ladder := by
  unfold putName
  split
  · simp only [ladder_eq, CallFrame.rungs]
  · exact ladder_setInnermost rfl

theorem ladder_push (s : CallStack) (back : Int) :
    (s.setReturn back).push.ladder = none :: s.ladder := by
  simp [ladder_eq, push, setReturn, CallFrame.rungs]

theorem ladder_enterLoop (s : CallStack) : s.enterLoop.ladder = some {} :: s.ladder := by
  obtain ⟨below, whole, set⟩ := s.exists_below
  rw [enterLoop, set, whole]
  rfl

theorem ladder_exitLoop (left : s.exitLoop = .ok t) : ∃ l, s.ladder = some l :: t.ladder := by
  obtain ⟨below, whole, set⟩ := s.exists_below
  obtain ⟨l, rest, loops, rfl⟩ := exitLoop_eq_ok left
  refine ⟨l, ?_⟩
  rw [set, whole, CallFrame.rungs, loops]
  rfl

/-- A token is written to the frame on top, if that is a loop. -/
theorem ladder_putToken {l : Tokens} {rest : List (Option Tokens)}
    (top : s.ladder = some l :: rest) (n : Int) (v : Slot) :
    ((Change.token n v).apply s).ladder = some (l.insert n v) :: rest := by
  obtain ⟨below, whole, set⟩ := s.exists_below
  rw [whole] at top
  cases loops : s.innermost.loops with
  | nil => simp [CallFrame.rungs, loops] at top
  | cons l' inner =>
      simp only [CallFrame.rungs, loops, List.map_cons, List.cons_append, List.cons.injEq,
        Option.some.injEq] at top
      obtain ⟨rfl, rfl⟩ := top
      simp only [Change.apply, putToken, loops, Except.toOption, Option.getD_some]
      rw [set]
      rfl

theorem putToken_of_top {rest : List (Option Tokens)} (top : s.ladder = none :: rest) (n : Int)
    (v : Slot) : (Change.token n v).apply s = s := by
  obtain ⟨below, whole, -⟩ := s.exists_below
  rw [whole] at top
  cases loops : s.innermost.loops with
  | nil => simp [Change.apply, putToken, loops, Except.toOption]
  | cons l' inner => simp [CallFrame.rungs, loops] at top

theorem ladder_unwindLoops (s : CallStack) : s.unwindLoops.ladder <:+ s.ladder := by
  obtain ⟨below, whole, set⟩ := s.exists_below
  rw [unwindLoops, set, whole]
  refine ⟨s.innermost.loops.map some, ?_⟩
  simp [CallFrame.rungs]

theorem ladder_pop (popped : s.pop = .ok t) : t.ladder <:+ s.ladder := by
  obtain ⟨f, rest, calls, rfl⟩ := pop_eq_ok popped
  refine ⟨f.rungs, ?_⟩
  simp [ladder_eq, calls]

/-- The ladder is never empty: the globals are at its bottom. -/
theorem ladder_cases (s : CallStack) : ∃ e rest, s.ladder = e :: rest := by
  cases whole : s.ladder with
  | nil => simp [ladder_eq, CallFrame.rungs] at whole
  | cons e rest => exact ⟨e, rest, rfl⟩

/-- What a change does to the entry on top of the ladder. -/
def Change.RewritesToken (c : Change) (before after : Option Tokens) : Prop :=
  ∃ n v l, c = .token n v ∧ before = some l ∧ after = some (l.insert n v)

/-- What a change puts on the ladder: the tokens of a loop only if it opens one. -/
def Change.Opens (c : Change) (e : Option Tokens) : Prop := e = none ∨ c = .loop

/-- The changes that take frames off. -/
def Change.Leaves (c : Change) : Prop := c = .endLoop ∨ c = .ret ∨ c = .unwind

theorem ladder_apply (c : Change) (s : CallStack) :
    TopStep c.RewritesToken c.Opens c.Leaves s.ladder (c.apply s).ladder := by
  have same : TopStep c.RewritesToken c.Opens c.Leaves s.ladder s.ladder := .same _
  cases c with
  | keep => exact same
  | constant n v =>
      rw [Change.apply, ladder_putConstant]
      exact same
  | param n v => exact same
  | symbol n v =>
      rw [Change.apply, ladder_putName]
      exact same
  | token n v =>
      obtain ⟨e, rest, whole⟩ := s.ladder_cases
      cases e with
      | none =>
          rw [putToken_of_top whole]
          exact same
      | some l =>
          rw [ladder_putToken whole, whole]
          exact .rewritten _ ⟨n, v, l, rfl, rfl, rfl⟩
  | call back =>
      rw [Change.apply, ladder_push]
      exact .pushed _ (.inl rfl)
  | ret =>
      rw [Change.apply]
      cases popped : s.unwindLoops.pop with
      | error f => exact same
      | ok t => exact .cut (.inr (.inl rfl)) ((ladder_pop popped).trans s.ladder_unwindLoops)
  | unwind => exact .cut (.inr (.inr rfl)) s.ladder_unwindLoops
  | loop =>
      rw [Change.apply, ladder_enterLoop]
      exact .pushed _ (.inr rfl)
  | endLoop =>
      rw [Change.apply]
      cases left : s.exitLoop with
      | error f => exact same
      | ok t =>
          obtain ⟨l, whole⟩ := ladder_exitLoop left
          rw [whole]
          exact .cut (.inl rfl) (List.suffix_cons _ _)

/-- A token is looked up on top of the ladder. -/
theorem getToken_eq (s : CallStack) (n : Int) :
    s.getToken n = s.ladder.head?.join.bind (·.get? n) := by
  obtain ⟨below, whole, -⟩ := s.exists_below
  rw [whole, getToken, CallFrame.rungs]
  cases s.innermost.loops with
  | nil => rfl
  | cons l rest => rfl

/-- The names of the calls, the innermost first and the globals last. -/
def names (s : CallStack) : List (Text → Bool) :=
  (s.calls ++ [s.root]).map fun f => f.scope.contains

theorem length_names (s : CallStack) : s.names.length = s.callDepth := by
  simp [names, callDepth]

/-- Each call has one entry without tokens in the ladder. -/
theorem count_ladder (s : CallStack) : s.ladder.countP Option.isNone = s.callDepth := by
  have one : ∀ f : CallFrame, f.rungs.countP Option.isNone = 1 := by
    intro f
    simp [CallFrame.rungs, List.countP_append, List.countP_map, Function.comp_def]
  have all : ∀ fs : List CallFrame,
      (fs.flatMap CallFrame.rungs).countP Option.isNone = fs.length := by
    intro fs
    induction fs with
    | nil => rfl
    | cons f fs ih => rw [List.flatMap_cons, List.countP_append, one, ih, List.length_cons]; omega
  rw [ladder_eq, List.countP_append, one, all, callDepth]

/-- The names of the call that runs come first. -/
theorem exists_names (s : CallStack) :
    ∃ below, s.names = s.innermost.scope.contains :: below ∧
      ∀ g, (s.setInnermost g).names = g.scope.contains :: below := by
  cases calls : s.calls with
  | nil =>
      refine ⟨[], ?_, ?_⟩
      · simp [names, innermost, calls]
      · intro g
        simp [names, setInnermost, calls]
  | cons f rest =>
      refine ⟨(rest ++ [s.root]).map fun f => f.scope.contains, ?_, ?_⟩
      · simp [names, innermost, calls]
      · intro g
        simp [names, setInnermost, calls]

theorem names_setInnermost {g : CallFrame} (scope : g.scope = s.innermost.scope) :
    (s.setInnermost g).names = s.names := by
  obtain ⟨below, whole, set⟩ := s.exists_names
  rw [set, whole, scope]

theorem names_putConstant (s : CallStack) (n : Text) (v : Slot) :
    (s.putConstant n v).names = s.names := by
  unfold putConstant
  split <;> rfl

/-- A global name that is written is there already. -/
theorem names_putName_of_global {n : Text} (global : s.root.scope.contains n) (v : Slot) :
    (s.putName n v).names = s.names := by
  have same : (s.root.scope.insert n v).contains = s.root.scope.contains := by
    funext n'
    rw [Table.contains_insert]
    by_cases h : n' = n
    · rw [h, global, Bool.or_true]
    · simp [h]
  simp [putName, global, names, same]

/-- A new name belongs to the call that runs. -/
theorem names_putName {own : Text → Bool} {below : List (Text → Bool)}
    (whole : s.names = own :: below) {n : Text} (new : s.root.scope.contains n = false) (v : Slot) :
    (s.putName n v).names = (fun n' => decide (n' = n) || own n') :: below := by
  obtain ⟨below', whole', set⟩ := s.exists_names
  obtain ⟨rfl, rfl⟩ := List.cons.inj (whole'.symm.trans whole)
  simp only [putName, new, Bool.false_eq_true, if_false]
  rw [set]
  congr 1
  funext n'
  rw [Table.contains_insert]

theorem names_exitLoop (left : s.exitLoop = .ok t) : t.names = s.names := by
  obtain ⟨l, rest, -, rfl⟩ := exitLoop_eq_ok left
  exact names_setInnermost rfl

theorem names_putToken {n : Int} {v : Slot} (put : s.putToken n v = .ok t) :
    t.names = s.names := by
  obtain ⟨l, rest, -, rfl⟩ := putToken_eq_ok put
  exact names_setInnermost rfl

theorem names_pop (popped : s.pop = .ok t) : t.names <:+ s.names := by
  obtain ⟨f, rest, calls, rfl⟩ := pop_eq_ok popped
  simp [names, calls, List.suffix_cons]

theorem names_enterLoop (s : CallStack) : s.enterLoop.names = s.names := names_setInnermost rfl

/-- What a change does to the names of the call that runs. -/
def Change.AddsName (c : Change) (s : CallStack) (before after : Text → Bool) : Prop :=
  ∃ n v, c = .symbol n v ∧ s.root.scope.contains n = false ∧
    after = fun n' => decide (n' = n) || before n'

theorem names_apply (c : Change) (s : CallStack) :
    TopStep (c.AddsName s) (fun _ => True) True s.names (c.apply s).names := by
  have same : TopStep (c.AddsName s) (fun _ => True) True s.names s.names := .same _
  have unwound : s.unwindLoops.names = s.names := names_setInnermost rfl
  cases c with
  | keep => exact same
  | constant n v =>
      rw [Change.apply, names_putConstant]
      exact same
  | param n v => exact same
  | symbol n v =>
      cases global : s.root.scope.contains n with
      | true =>
          rw [Change.apply, names_putName_of_global global]
          exact same
      | false =>
          obtain ⟨below, whole, -⟩ := s.exists_names
          rw [Change.apply, names_putName whole global, whole]
          exact .rewritten _ ⟨n, v, rfl, global, rfl⟩
  | token n v =>
      rw [Change.apply]
      cases put : s.putToken n v with
      | error f => exact same
      | ok t =>
          rw [Except.toOption, Option.getD_some, names_putToken put]
          exact same
  | call back => exact .pushed _ trivial
  | ret =>
      rw [Change.apply]
      cases popped : s.unwindLoops.pop with
      | error f => exact same
      | ok t => exact .cut trivial (unwound ▸ names_pop popped)
  | unwind =>
      rw [Change.apply, unwound]
      exact same
  | loop =>
      rw [Change.apply, names_enterLoop]
      exact same
  | endLoop =>
      rw [Change.apply]
      cases left : s.exitLoop with
      | error f => exact same
      | ok t =>
          rw [Except.toOption, Option.getD_some, names_exitLoop left]
          exact same

theorem scopes_setInnermost {g : CallFrame} (scope : g.scope = s.innermost.scope) :
    (s.setInnermost g).innermost.scope = s.innermost.scope ∧
      (s.setInnermost g).root.scope = s.root.scope := by
  cases calls : s.calls with
  | nil => simpa [setInnermost, innermost, calls] using scope
  | cons f rest => simpa [setInnermost, innermost, calls] using scope

/-- Names are read alike inside and outside of a loop. -/
theorem getName_exitLoop (left : s.exitLoop = .ok t) (x : Text) :
    t.getName x = s.getName x ∧ t.isParam x = s.isParam x := by
  obtain ⟨l, rest, -, rfl⟩ := exitLoop_eq_ok left
  obtain ⟨inner, root⟩ := scopes_setInnermost (s := s) (g := { s.innermost with loops := rest }) rfl
  simp only [getName, isParam, inner, root, constants_setInnermost, and_self]

/-- A name is known if the call that runs has it or if it is global. -/
theorem getName_isSome {x : Text} (known : s.isParam x = true ∨ s.root.scope.contains x = true) :
    (s.getName x).isSome := by
  simp only [isParam, Table.contains] at known
  simpa [getName] using Or.inr known

theorem root_contains_apply (c : Change) {x : Text} (global : s.root.scope.contains x = true) :
    (c.apply s).root.scope.contains x = true := by
  have whole : ∀ s : CallStack, s.names =
      s.calls.map (fun f => f.scope.contains) ++ s.root.scope.contains :: [] := by
    simp [names]
  have last : ∀ (above : List (Text → Bool)) {e : Text → Bool},
      (c.apply s).names = above ++ [e] → (c.apply s).root.scope.contains = e := by
    intro above e split
    exact (List.cons.inj (List.append_inj' ((whole _).symm.trans split) rfl).2).1
  have deep : ([] : List (Text → Bool)).length < (c.apply s).names.length := by
    simp [length_names, callDepth]
  obtain ⟨above, stands⟩ | ⟨-, e, ⟨n, v, -, -, rfl⟩, rewritten⟩ :=
    (names_apply c s).stands (whole s) deep
  · rw [last above stands, global]
  · rw [last [] rewritten]
    simp [global]

end CallStack

end Lightboard
