import Lightboard.Proofs.Machine.Globals

/-!
# Writing a name and reading it again

A read looks at the call that runs before it looks at the globals, and a write looks at the globals
first. The two meet in the same variable unless the call that runs has a variable of the name of a
global one: then the write goes to the global variable, and the read gives what the call had
(`CallStack.Hides`). A loop shares the variables of its call, so the frames that matter are the root
and the call frame that is nearest to the top (`CallStack.exists_call`).
-/

namespace Lightboard

namespace CallStack

namespace Frame

/-- Whether a frame is a loop, which has no variables of its own. -/
def IsLoop : Frame → Prop
  | .loop _ => True
  | _ => False

/-- The frame with one of its variables written. -/
def write (x : Text) (v : Slot) : Frame → Frame
  | .globals scope => .globals (scope.insert x v)
  | .call scope returnAddr => .call (scope.insert x v) returnAddr
  | .loop tokens => .loop tokens

/-- Where the call of a frame returns to. -/
def returnAddr? : Frame → Option Int
  | .call _ returnAddr => some returnAddr
  | _ => none

@[simp] theorem returnAddr?_write (x : Text) (v : Slot) (f : Frame) :
    (f.write x v).returnAddr? = f.returnAddr? := by
  cases f <;> rfl

end Frame

variable {s : CallStack} {x y : Text} {v : Slot}

/-- The frames above the call that runs are its loops, and a variable of that call is in its frame. -/
theorem exists_call (s : CallStack) : ∃ below f above, s.frames = below ++ f :: above ∧
    ¬ f.IsLoop ∧ (∀ g ∈ above, g.IsLoop) ∧
    ∀ x v, (s.setInnermost { s.innermost with scope := s.innermost.scope.insert x v }).frames =
      below ++ f.write x v :: above := by
  have loops (f : CallFrame) : ∀ g ∈ f.loops.reverse.map Frame.loop, g.IsLoop := by
    intro g member
    obtain ⟨tokens, -, rfl⟩ := List.mem_map.mp member
    trivial
  cases calls : s.calls with
  | nil =>
      refine ⟨[], .globals s.root.scope, _, ?_, id, loops s.root, fun x v => ?_⟩
      · simp [frames, calls]
      · simp [frames, setInnermost, innermost, calls, Frame.write]
  | cons f rest =>
      refine ⟨.globals s.root.scope :: s.root.loops.reverse.map .loop ++
        rest.reverse.flatMap fun g => .call g.scope g.returnAddr :: g.loops.reverse.map .loop,
        .call f.scope f.returnAddr, _, ?_, id, loops f, fun x v => ?_⟩
      · simp [frames, calls]
      · simp [frames, setInnermost, innermost, calls, Frame.write]

/-- A write changes one variable of one frame: of the globals if they have it, else of the call that
runs. -/
theorem frames_putName (s : CallStack) (x : Text) (v : Slot) :
    ∃ below f above, s.frames = below ++ f :: above ∧
      (s.putName x v).frames = below ++ f.write x v :: above ∧ ¬ f.IsLoop ∧
      (s.root.scope.contains x = true → below = []) ∧
      (s.root.scope.contains x = false → ∀ g ∈ above, g.IsLoop) := by
  unfold putName
  cases global : s.root.scope.contains x with
  | true => exact ⟨[], .globals s.root.scope, _, rfl, rfl, id, fun _ => rfl, nofun⟩
  | false =>
      obtain ⟨below, f, above, whole, own, loops, written⟩ := s.exists_call
      exact ⟨below, f, above, whole, written x v, own, nofun, fun _ => loops⟩

/-- A write leaves what is staged for the next call, and where the calls return to. -/
theorem returns_putName (s : CallStack) (x : Text) (v : Slot) :
    (s.putName x v).stagedScope = s.stagedScope ∧ (s.putName x v).stagedReturn = s.stagedReturn ∧
      (s.putName x v).getReturn = s.getReturn ∧
      (s.putName x v).frames.map Frame.returnAddr? = s.frames.map Frame.returnAddr? := by
  have returns : (s.putName x v).frames.map Frame.returnAddr? = s.frames.map Frame.returnAddr? := by
    obtain ⟨below, f, above, whole, written, -⟩ := s.frames_putName x v
    rw [whole, written]
    simp
  refine ⟨?_, ?_, ?_, returns⟩
  all_goals unfold putName; split
  · rfl
  · exact stagedScope_setInnermost s _
  · rfl
  · exact stagedReturn_setInnermost s _
  · cases calls : s.calls <;> simp [getReturn, innermost, calls]
  · rw [getReturn, innermost_setInnermost]
    rfl

/-- The call that runs has a variable with the name of a global one, and with the value `old`. -/
def Hides (s : CallStack) (x : Text) (old : Slot) : Prop :=
  s.root.scope.contains x = true ∧ ∃ f, s.calls.head? = some f ∧ f.scope.get? x = some old

/-- The call that runs sees the value that was written, unless the write went past it. -/
theorem innermost_putName (s : CallStack) (x y : Text) (v : Slot) :
    (s.putName x v).innermost.scope.get? y =
      if y = x ∧ (s.root.scope.contains x = true → s.calls = []) then some v
      else s.innermost.scope.get? y := by
  unfold putName
  cases global : s.root.scope.contains x with
  | true => cases calls : s.calls <;> simp [innermost, calls]
  | false => simp [innermost_setInnermost]

/-- A write to one name is not seen under another one. -/
theorem getName_putName_of_ne (other : y ≠ x) : (s.putName x v).getName y = s.getName y := by
  rw [getName, innermost_putName, putName_constants, putName_root]
  simp [getName, Change.global?, other, Ne.symm other]

theorem getName_putName_of_constant {c : Slot} (defined : s.constants.get? x = some c) :
    (s.putName x v).getName x = some c :=
  getName_of_constant (by rw [putName_constants, defined])

/-- The variable of the call stays what it was, and is what the call reads. -/
theorem getName_putName_of_hides {old : Slot} (plain : s.constants.get? x = none)
    (hides : s.Hides x old) : (s.putName x v).getName x = some old := by
  obtain ⟨global, f, runs, held⟩ := hides
  obtain ⟨rest, calls⟩ := List.head?_eq_some_iff.mp runs
  rw [getName, innermost_putName, putName_constants, plain]
  simp [innermost, global, calls, held]

theorem getName_putName_of_not_hides (plain : s.constants.get? x = none)
    (seen : ∀ old, ¬ s.Hides x old) : (s.putName x v).getName x = some v := by
  rw [getName, innermost_putName, putName_constants, putName_root, plain]
  cases global : s.root.scope.contains x with
  | false => simp
  | true =>
      cases calls : s.calls with
      | nil => simp
      | cons f rest =>
          -- The call has no variable of this name, so the global one is read.
          have absent : f.scope.get? x = none :=
            Option.eq_none_iff_forall_not_mem.mpr fun old held =>
              seen old ⟨global, f, by rw [calls, List.head?_cons], held⟩
          simp [innermost, calls, absent, Change.global?, global]

/-- A name that is written goes to one variable of one frame: to the global one if there is one of that
name, else to the call that runs. A constant is read as before. Otherwise what is read is the value
that was written, but for one case: if the call that runs is not the root and has a variable with the
name of a global one, it goes on reading that. All other names, the constants, the tokens of all
loops, what is staged and where the calls return to stay the same. -/
theorem putVariable_getVariable (s : CallStack) (x : Text) (v : Slot) :
    ∃ t, s.putVariable (some (.symbol x)) v = .ok t ∧
      (∃ below f above, s.frames = below ++ f :: above ∧
        t.frames = below ++ f.write x v :: above ∧ ¬ f.IsLoop ∧
        (s.root.scope.contains x = true → below = []) ∧
        (s.root.scope.contains x = false → ∀ g ∈ above, g.IsLoop)) ∧
      ((∀ c, s.constants.get? x = some c → t.getVariable (some (.symbol x)) = some c) ∧
        (s.constants.get? x = none →
          (∀ old, s.Hides x old → t.getVariable (some (.symbol x)) = some old) ∧
          ((∀ old, ¬ s.Hides x old) → t.getVariable (some (.symbol x)) = some v))) ∧
      (∀ y, y ≠ x → t.getVariable (some (.symbol y)) = s.getVariable (some (.symbol y))) ∧
      t.constants = s.constants ∧
      t.ladder = s.ladder ∧
      (∀ n, t.getVariable (some (.loopVar n)) = s.getVariable (some (.loopVar n))) ∧
      t.stagedScope = s.stagedScope ∧ t.stagedReturn = s.stagedReturn ∧
      t.getReturn = s.getReturn ∧
      t.frames.map Frame.returnAddr? = s.frames.map Frame.returnAddr? := by
  refine ⟨s.putName x v, rfl, s.frames_putName x v, ?_, ?_, s.putName_constants x v,
    s.ladder_putName x v, ?_, s.returns_putName x v⟩
  · exact ⟨fun c => getName_putName_of_constant, fun plain =>
      ⟨fun old => getName_putName_of_hides plain, getName_putName_of_not_hides plain⟩⟩
  · exact fun y => getName_putName_of_ne
  · intro n
    change (s.putName x v).getToken n = s.getToken n
    rw [getToken_eq, getToken_eq, ladder_putName]

/-- A call with a parameter that has the name of a global variable, and a loop open in the call. -/
def hiddenGlobal : CallStack where
  root := { scope := Table.empty.insert [120] (some (.bool true)) }
  calls := [{ scope := Table.empty.insert [120] (some .nothing), returnAddr := 3, loops := [{}] }]

/-- The write is not read back until the call has returned. -/
theorem hiddenGlobal_written :
    ∃ t, hiddenGlobal.putVariable (some (.symbol [120])) (some (.bool false)) = .ok t ∧
      t.getVariable (some (.symbol [120])) = some (some .nothing) ∧
      t.root.scope.get? [120] = some (some (.bool false)) ∧ t.getReturn = 3 := by
  obtain ⟨t, written, -, ⟨-, read⟩, -, -, -, -, -, -, back, -⟩ :=
    putVariable_getVariable hiddenGlobal [120] (some (.bool false))
  refine ⟨t, written, (read rfl).1 _ ⟨rfl, _, rfl, rfl⟩, ?_, back⟩
  obtain rfl := Except.ok.inj written
  rfl

end CallStack

end Lightboard
