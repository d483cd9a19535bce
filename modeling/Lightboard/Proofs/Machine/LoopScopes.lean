import Lightboard.Proofs.Machine.StackViews

/-!
# Loops share their scope and keep their tokens

A loop opens a frame on top of the call stack. It has tokens of its own and no variables of its own:
names are those of the call that it runs in. So tokens must not be seen outside of the frame that
they were written in, and names must be seen from every loop of their call alike.

A loop that is open is told by its place in the ladder: `IsRun.loop_stands` says what stands there,
and `IsRun.loop_opened` that nothing else does. The names of its call are followed in the same way by
`IsRun.loop_names`.
-/

namespace Lightboard

namespace Rig

open CallStack

variable {run : Nat → Rig} {a k : Nat}

/-- Step `a` opens a loop, and that is still open after `k` steps: meanwhile the stack was always
deeper than before that step. -/
structure LoopOpen (run : Nat → Rig) (a k : Nat) : Prop where
  opened : (run a).change = .loop
  later : a < k
  inside : ∀ j, a < j → j ≤ k → (run a).machine.calls.depth < (run j).machine.calls.depth

/-- The frame of the loop that step `a` opens is the one on top after `k` steps. -/
structure LoopOnTop (run : Nat → Rig) (a k : Nat) : Prop extends LoopOpen run a k where
  top : (run k).machine.calls.depth = (run a).machine.calls.depth + 1

/-- Step `w` writes a token of the loop that step `a` opens. -/
def WritesToken (run : Nat → Rig) (a : Nat) (n : Int) (w : Nat) (v : Slot) : Prop :=
  LoopOnTop run a w ∧ (run w).change = .token n v

/-- The value `v` is the last one that was written to a token of the loop that step `a` opens. -/
def LastToken (run : Nat → Rig) (a : Nat) (n : Int) (k : Nat) (v : Slot) : Prop :=
  Latest (WritesToken run a n) (fun j => ∃ u, WritesToken run a n j u) k v

theorem lastToken_of_idle {n : Int} (idle : ∀ u, ¬ WritesToken run a n k u) (v : Slot) :
    LastToken run a n (k + 1) v ↔ LastToken run a n k v := latest_of_idle idle v

theorem lastToken_of_writes {n : Int} {u : Slot} (written : WritesToken run a n k u) (v : Slot) :
    LastToken run a n (k + 1) v ↔ u = v := by
  refine latest_of_writes written ?_ v
  rintro v ⟨-, other⟩
  exact (Change.token.inj (written.2.symm.trans other)).2

theorem LoopOpen.before (h : LoopOpen run a (k + 1)) (later : a < k) : LoopOpen run a k :=
  ⟨h.opened, later, fun j after upTo => h.inside j after (Nat.le_succ_of_le upTo)⟩

theorem LoopOpen.next (h : LoopOpen run a k)
    (deep : (run a).machine.calls.depth < (run (k + 1)).machine.calls.depth) :
    LoopOpen run a (k + 1) := by
  refine ⟨h.opened, Nat.lt_succ_of_lt h.later, ?_⟩
  intro j after upTo
  obtain sooner | rfl := Nat.lt_succ_iff_lt_or_eq.mp (Nat.lt_succ_of_le upTo)
  · exact h.inside j after (Nat.le_of_lt_succ sooner)
  · exact deep

/-- A loop is on top if nothing stands above it in the ladder. -/
theorem LoopOpen.onTop_iff {above : List (Option Tokens)} {e : Option Tokens} (h : LoopOpen run a k)
    (whole : (run k).machine.calls.ladder = above ++ e :: (run a).machine.calls.ladder) :
    LoopOnTop run a k ↔ above = [] := by
  have depth := congrArg List.length whole
  simp only [length_ladder, List.length_append, List.length_cons] at depth
  constructor
  · intro onTop
    have top := onTop.top
    exact List.length_eq_zero_iff.mp (by omega)
  · rintro rfl
    exact ⟨h, by simpa using depth⟩

theorem IsRun.ladder_step (isRun : IsRun run) (k : Nat) :
    TopStep (run k).change.RewritesToken (run k).change.Opens (run k).change.Leaves
      (run k).machine.calls.ladder (run (k + 1)).machine.calls.ladder := by
  rw [isRun.calls k]
  exact ladder_apply _ _

/-- As long as a loop is open it stands on the frames that were there before it, with the values last
written to its tokens while it was on top. -/
theorem IsRun.loop_stands (isRun : IsRun run) (h : LoopOpen run a k) :
    ∃ above l, (run k).machine.calls.ladder = above ++ some l :: (run a).machine.calls.ladder ∧
      ∀ n v, l.get? n = some v ↔ LastToken run a n k v := by
  have opened := h.opened
  induction h.later with
  | refl =>
      refine ⟨[], {}, ?_, ?_⟩
      · rw [isRun.calls a, opened]
        exact ladder_enterLoop _
      · intro n v
        constructor
        · intro found
          cases found
        · rintro ⟨w, before, ⟨onTop, -⟩, -⟩
          have later := onTop.later
          omega
  | @step k later ih =>
      have before := h.before later
      obtain ⟨above, l, whole, held⟩ := ih before
      -- Only a token that is written while the loop is on top changes its entry.
      by_cases write : above = [] ∧ ∃ n v, (run k).change = .token n v
      · obtain ⟨rfl, n, v, written⟩ := write
        have onTop := (before.onTop_iff whole).mpr rfl
        refine ⟨[], l.insert n v, ?_, ?_⟩
        · rw [isRun.calls k, written]
          exact ladder_putToken whole n v
        · intro n' v'
          rw [Table.get?_insert]
          split
          · next same =>
            subst same
            rw [lastToken_of_writes ⟨onTop, written⟩, Option.some.injEq]
          · next other =>
            rw [held, lastToken_of_idle]
            rintro u ⟨-, written'⟩
            exact other (Change.token.inj (written'.symm.trans written)).1
      · have deep := h.inside (k + 1) (Nat.lt_succ_of_lt later) (Nat.le_refl _)
        rw [← length_ladder, ← length_ladder] at deep
        obtain ⟨above', whole'⟩ | ⟨empty, _, ⟨n, v, _, written, -⟩, -⟩ :=
          (isRun.ladder_step k).stands whole deep
        · refine ⟨above', l, whole', ?_⟩
          intro n v
          rw [held, lastToken_of_idle]
          rintro u ⟨onTop, written⟩
          exact write ⟨(before.onTop_iff whole).mp onTop, n, u, written⟩
        · exact absurd ⟨empty, n, v, written⟩ write

/-- Every loop in the ladder was opened by some step and is open since then. -/
theorem IsRun.loop_opened (isRun : IsRun run) (start : (run 0).machine.calls.ladder = [none])
    {above below : List (Option Tokens)} {l : Tokens}
    (whole : (run k).machine.calls.ladder = above ++ some l :: below) :
    ∃ a, LoopOpen run a k ∧ (run a).machine.calls.ladder = below := by
  induction k generalizing above l with
  | zero =>
      have member : some l ∈ (run 0).machine.calls.ladder := by simp [whole]
      simp [start] at member
  | succ k ih =>
      have deep : below.length < (run (k + 1)).machine.calls.ladder.length := by
        rw [whole, List.length_append, List.length_cons]
        omega
      -- The entry was put there by the last step, or it was there before under other tokens.
      obtain ⟨opens, rfl⟩ | ⟨above', e, stood, content⟩ := (isRun.ladder_step k).stood whole
      · obtain none | loop := opens
        · cases none
        · refine ⟨k, ⟨loop, Nat.lt_succ_self k, ?_⟩, rfl⟩
          intro j after upTo
          obtain rfl : j = k + 1 := by omega
          rwa [← length_ladder, ← length_ladder]
      · obtain ⟨l', rfl⟩ : ∃ l', e = some l' := by
          obtain rfl | ⟨_, _, l', -, rfl, -⟩ := content
          · exact ⟨l, rfl⟩
          · exact ⟨l', rfl⟩
        obtain ⟨a, opened, rfl⟩ := ih stood
        refine ⟨a, opened.next ?_, rfl⟩
        rwa [← length_ladder, ← length_ladder]

/-- A token has a value if some step wrote it in the loop that is on top. -/
theorem IsRun.getToken_iff (isRun : IsRun run) (start : (run 0).machine.calls.ladder = [none])
    (n : Int) (v : Slot) :
    (run k).machine.calls.getToken n = some v ↔ ∃ a, LoopOnTop run a k ∧ LastToken run a n k v := by
  rw [getToken_eq]
  constructor
  · intro found
    obtain ⟨e, below, whole⟩ := (run k).machine.calls.ladder_cases
    rw [whole] at found
    cases e with
    | none => cases found
    | some l =>
        have top : (run k).machine.calls.ladder = [] ++ some l :: below := whole
        obtain ⟨a, opened, rfl⟩ := isRun.loop_opened start top
        obtain ⟨above, l', whole', held⟩ := isRun.loop_stands opened
        have onTop : LoopOnTop run a k := (opened.onTop_iff top).mpr rfl
        obtain rfl := (opened.onTop_iff whole').mp onTop
        obtain ⟨rfl, -⟩ : l = l' ∧ True := by simpa using whole.symm.trans whole'
        exact ⟨a, onTop, (held n v).mp found⟩
  · rintro ⟨a, onTop, last⟩
    obtain ⟨above, l, whole, held⟩ := isRun.loop_stands onTop.toLoopOpen
    obtain rfl := (onTop.onTop_iff whole).mp onTop
    rw [whole]
    exact (held n v).mpr last

/-- Step `w` writes a name that is not global, and does so in the call that step `a` belongs to. -/
def WritesName (run : Nat → Rig) (a : Nat) (x : Text) (w : Nat) : Prop :=
  (run w).machine.calls.callDepth = (run a).machine.calls.callDepth ∧
    (run w).machine.calls.root.scope.contains x = false ∧ ∃ v, (run w).change = .symbol x v

/-- A step between the `a`-th and the `k`-th wrote the name. -/
def NameWritten (run : Nat → Rig) (a : Nat) (x : Text) (k : Nat) : Prop :=
  ∃ w, a < w ∧ w < k ∧ WritesName run a x w

theorem nameWritten_succ_iff {x : Text} (later : a < k) :
    NameWritten run a x (k + 1) ↔ WritesName run a x k ∨ NameWritten run a x k := by
  constructor
  · rintro ⟨w, after, before, written⟩
    obtain sooner | rfl := Nat.lt_succ_iff_lt_or_eq.mp before
    · exact .inr ⟨w, after, sooner, written⟩
    · exact .inl written
  · rintro (written | ⟨w, after, before, written⟩)
    · exact ⟨k, later, Nat.lt_succ_self k, written⟩
    · exact ⟨w, after, Nat.lt_succ_of_lt before, written⟩

theorem IsRun.names_step (isRun : IsRun run) (k : Nat) :
    TopStep ((run k).change.AddsName (run k).machine.calls) (fun _ => True) True
      (run k).machine.calls.names (run (k + 1)).machine.calls.names := by
  rw [isRun.calls k]
  exact names_apply _ _

/-- A call does not end before the loops in it. -/
theorem IsRun.callDepth_le (isRun : IsRun run) (h : LoopOpen run a k) :
    (run a).machine.calls.callDepth ≤ (run k).machine.calls.callDepth := by
  obtain ⟨above, l, whole, -⟩ := isRun.loop_stands h
  rw [← count_ladder, ← count_ladder, whole, List.countP_append, List.countP_cons]
  omega

/-- The call that a loop is in has the names it had when the loop was opened, and those that were
written since then while it ran, in whatever loops. -/
theorem IsRun.loop_names (isRun : IsRun run) (h : LoopOpen run a k) :
    ∃ above own below, (run k).machine.calls.names = above ++ own :: below ∧
      below.length + 1 = (run a).machine.calls.callDepth ∧
      ∀ x, own x = true ↔ (run a).machine.calls.isParam x = true ∨ NameWritten run a x k := by
  have opened := h.opened
  induction h.later with
  | refl =>
      obtain ⟨below, whole, -⟩ := (run a).machine.calls.exists_names
      have depth := congrArg List.length whole
      rw [length_names, List.length_cons] at depth
      refine ⟨[], (run a).machine.calls.innermost.scope.contains, below, ?_, depth.symm, ?_⟩
      · rw [isRun.calls a, opened]
        exact (names_enterLoop _).trans whole
      · intro x
        constructor
        · exact .inl
        · rintro (known | ⟨w, after, before, -⟩)
          · exact known
          · omega
  | @step k later ih =>
      obtain ⟨above, own, below, whole, depth, known⟩ := ih (h.before later)
      have calls := congrArg List.length whole
      rw [length_names, List.length_append, List.length_cons] at calls
      -- A name is added while the call runs, or the entry of the call stays as it is.
      by_cases write : ∃ x, WritesName run a x k
      · obtain ⟨x, same, new, v, written⟩ := write
        obtain rfl : above = [] := List.length_eq_zero_iff.mp (by omega)
        refine ⟨[], fun x' => decide (x' = x) || own x', below, ?_, depth, ?_⟩
        · rw [isRun.calls k, written]
          exact names_putName whole new v
        · intro x'
          have only : WritesName run a x' k ↔ x' = x := by
            constructor
            · rintro ⟨-, -, v', written'⟩
              exact (Change.symbol.inj (written'.symm.trans written)).1
            · rintro rfl
              exact ⟨same, new, v, written⟩
          rw [nameWritten_succ_iff later, only, Bool.or_eq_true, decide_eq_true_iff, known, or_left_comm]
      · have deep : below.length < (run (k + 1)).machine.calls.names.length := by
          rw [length_names, Nat.lt_iff_add_one_le, depth]
          exact isRun.callDepth_le h
        obtain ⟨above', whole'⟩ | ⟨rfl, _, ⟨x, v, written, new, -⟩, -⟩ :=
          (isRun.names_step k).stands whole deep
        · refine ⟨above', own, below, whole', depth, ?_⟩
          intro x
          have idle : ¬ WritesName run a x k := fun written => write ⟨x, written⟩
          rw [known, nameWritten_succ_iff later, or_iff_right idle]
        · refine absurd ⟨x, ?_, new, v, written⟩ write
          rw [calls, ← depth, List.length_nil, Nat.zero_add]

/-- While the call runs, the names it has are the ones it sees, however many loops are open. -/
theorem IsRun.isParam_iff (isRun : IsRun run) (h : LoopOpen run a k)
    (own : (run k).machine.calls.callDepth = (run a).machine.calls.callDepth) (x : Text) :
    (run k).machine.calls.isParam x = true ↔
      (run a).machine.calls.isParam x = true ∨ NameWritten run a x k := by
  obtain ⟨above, seen, below, whole, depth, known⟩ := isRun.loop_names h
  have calls := congrArg List.length whole
  rw [length_names, List.length_append, List.length_cons] at calls
  obtain rfl : above = [] := List.length_eq_zero_iff.mp (by omega)
  obtain ⟨below', whole', -⟩ := (run k).machine.calls.exists_names
  obtain ⟨rfl, -⟩ := List.cons.inj (whole'.symm.trans whole)
  exact known x

theorem IsRun.global_stays (isRun : IsRun run) {j : Nat} {x : Text}
    (global : (run j).machine.calls.root.scope.contains x = true) (later : j ≤ k) :
    (run k).machine.calls.root.scope.contains x = true := by
  induction later with
  | refl => exact global
  | @step k later ih =>
      rw [isRun.calls k]
      exact root_contains_apply _ ih

/-- What a call wrote since a loop was opened is known to it, be it global or not. -/
theorem IsRun.getName_of_written (isRun : IsRun run) (h : LoopOpen run a k)
    (own : (run k).machine.calls.callDepth = (run a).machine.calls.callDepth) {w : Nat} {x : Text}
    {v : Slot} (after : a < w) (before : w < k)
    (same : (run w).machine.calls.callDepth = (run a).machine.calls.callDepth)
    (written : (run w).change = .symbol x v) :
    ((run k).machine.calls.getName x).isSome := by
  apply getName_isSome
  cases global : (run w).machine.calls.root.scope.contains x with
  | true => exact .inr (isRun.global_stays global (Nat.le_of_lt before))
  | false =>
      exact .inl ((isRun.isParam_iff h own x).mpr
        (.inr ⟨w, after, before, same, global, v, written⟩))

/-- What takes a loop off is the end of a loop or a return, and it leaves no more than what was there
before the loop. -/
theorem IsRun.loop_left (isRun : IsRun run) (h : LoopOpen run a k)
    (left : (run (k + 1)).machine.calls.depth ≤ (run a).machine.calls.depth) :
    (run k).change.Leaves ∧
      (run (k + 1)).machine.calls.ladder <:+ (run a).machine.calls.ladder := by
  have deep := h.inside k h.later (Nat.le_refl k)
  rw [← length_ladder, ← length_ladder] at left deep
  obtain ⟨leaves, off⟩ := (isRun.ladder_step k).shortened (by omega)
  obtain ⟨above, l, whole, -⟩ := isRun.loop_stands h
  have stands : (run a).machine.calls.ladder <:+ (run k).machine.calls.ladder :=
    ⟨above ++ [some l], by rw [whole, List.append_assoc, List.singleton_append]⟩
  exact ⟨leaves, List.suffix_of_suffix_length_le off stands left⟩

/-- The end of a loop takes off that loop only, which was the one on top. -/
theorem IsRun.endLoop_left (isRun : IsRun run) (h : LoopOpen run a k)
    (left : (run (k + 1)).machine.calls.depth ≤ (run a).machine.calls.depth)
    (ends : (run k).change = .endLoop) :
    (run k).machine.calls.exitLoop = .ok (run (k + 1)).machine.calls ∧
      (run (k + 1)).machine.calls.ladder = (run a).machine.calls.ladder ∧
      (run k).machine.calls.callDepth = (run a).machine.calls.callDepth := by
  obtain ⟨-, below⟩ := isRun.loop_left h left
  have deep := h.inside k h.later (Nat.le_refl k)
  have calls := isRun.calls k
  rw [ends, Change.apply] at calls
  cases exited : (run k).machine.calls.exitLoop with
  | error f =>
      rw [exited] at calls
      rw [calls] at left
      exact absurd deep (Nat.not_lt.mpr left)
  | ok t =>
      obtain rfl : (run (k + 1)).machine.calls = t := by rw [calls, exited]; rfl
      obtain ⟨l, whole⟩ := ladder_exitLoop exited
      rw [← length_ladder, ← length_ladder, whole, List.length_cons] at deep
      have same := below.eq_of_length_le (Nat.le_of_lt_succ deep)
      refine ⟨rfl, same, ?_⟩
      rw [← count_ladder, ← count_ladder, whole, same, List.countP_cons]
      simp

/-- In a run of a program, a token has a value if and only if the loop on top is the one in which it
was written, and then it has the value last written there. As long as a loop is open, the tokens of
the frames below it are what they were, and its call sees the names that it had before the loop and
those that it wrote since then, in whatever loops. What removes the loop is the end of a loop or a
return. If it is the end of a loop, the tokens from before the loop are back, names have the values
that they have at the end of the loop, and all that the call wrote in the loop is known. -/
theorem IsRun.loops_isolated {m : Machine} {p : Program} (isRun : IsRun run)
    (start : (run 0).machine = m.load p) :
    (∀ k n v, (run k).machine.calls.getVariable (some (.loopVar n)) = some v ↔
      ∃ a, LoopOnTop run a k ∧ LastToken run a n k v) ∧
    ∀ a b, LoopOpen run a b →
      let before := (run a).machine.calls
      let within := (run b).machine.calls
      let after := (run (b + 1)).machine.calls
      before.ladder <:+ within.ladder ∧
      (within.callDepth = before.callDepth → ∀ x,
        within.isParam x = true ↔ before.isParam x = true ∨ NameWritten run a x b) ∧
      (after.depth ≤ before.depth →
        (run b).change.Leaves ∧ after.ladder <:+ before.ladder ∧
        ((run b).change = .endLoop →
          after.ladder = before.ladder ∧
          (∀ n, after.getVariable (some (.loopVar n)) = before.getVariable (some (.loopVar n))) ∧
          (∀ x, after.getVariable (some (.symbol x)) = within.getVariable (some (.symbol x)) ∧
            after.isParam x = within.isParam x) ∧
          ∀ w x v, a < w → w < b → (run w).machine.calls.callDepth = before.callDepth →
            (run w).change = .symbol x v → (after.getVariable (some (.symbol x))).isSome)) := by
  have globals : (run 0).machine.calls.ladder = [none] := by rw [start]; rfl
  refine ⟨fun k n v => isRun.getToken_iff globals n v, ?_⟩
  intro a b opened before within after
  refine ⟨?_, isRun.isParam_iff opened, ?_⟩
  · obtain ⟨above, l, whole, -⟩ := isRun.loop_stands opened
    exact ⟨above ++ [some l], by rw [List.append_assoc, List.singleton_append, ← whole]⟩
  · intro left
    obtain ⟨leaves, off⟩ := isRun.loop_left opened left
    refine ⟨leaves, off, ?_⟩
    intro ends
    obtain ⟨exited, ladder, own⟩ := isRun.endLoop_left opened left ends
    have names := getName_exitLoop exited
    refine ⟨ladder, ?_, names, ?_⟩
    · intro n
      change after.getToken n = before.getToken n
      rw [getToken_eq, getToken_eq, ladder]
    · intro w x v later sooner same written
      have known := isRun.getName_of_written opened own later sooner same written
      rwa [← (names x).1] at known

/-- A loop in a loop that writes the same token, and a routine that opens a loop of its own. -/
def nestedLoops : Program where
  name := []
  code :=
    [{ op := .loop }, ⟨.moveLiteral, some (.bool true), some (.loopVar 0)⟩,
     { op := .loop }, ⟨.moveLiteral, some (.bool false), some (.loopVar 0)⟩,
     ⟨.moveLiteral, some (.str [97]), some (.symbol [120])⟩,
     { op := .call, first := some (.str [102]) }, { op := .endLoop }, { op := .stop },
     { op := .routine, first := some (.str [102]) }, { op := .loop }, { op := .ret }]
  routines := Table.empty.insert [102] 8

/-- The inner loop, which the third step opens and the tenth ends, hides the token of the outer one
and gives it back; what was written to a variable in it stays. -/
theorem nestedLoops_isolated :
    let run := (({} : Rig).load nestedLoops).afterSteps
    (run 2).machine.calls.getVariable (some (.loopVar 0)) = some (some (.bool true)) ∧
      (run 5).machine.calls.getVariable (some (.loopVar 0)) = some (some (.bool false)) ∧
      (run 8).machine.calls.getVariable (some (.loopVar 0)) = none ∧
      (run 10).machine.calls.getVariable (some (.loopVar 0)) = some (some (.bool true)) ∧
      ((run 10).machine.calls.getVariable (some (.symbol [120]))).isSome := by
  have isolated := (isRun_afterSteps (({} : Rig).load nestedLoops)).loops_isolated
    (m := {}) (p := nestedLoops) rfl
  have opened : LoopOpen (({} : Rig).load nestedLoops).afterSteps 2 9 := by
    refine ⟨rfl, by decide, ?_⟩
    intro j after upTo
    match j, after, upTo with
    | 3, _, _ => decide
    | 4, _, _ => decide
    | 5, _, _ => decide
    | 6, _, _ => decide
    | 7, _, _ => decide
    | 8, _, _ => decide
    | 9, _, _ => decide
  obtain ⟨-, tokens, -, known⟩ := ((isolated.2 2 9 opened).2.2 (by decide)).2.2 rfl
  exact ⟨rfl, rfl, rfl, tokens 0, known 4 [120] _ (by decide) (by decide) rfl rfl⟩

end Rig

end Lightboard
