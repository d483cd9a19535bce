import Lightboard.Proofs.Assembly.Listings
import Lightboard.Proofs.Assembly.Reloaded

/-!
# The canonical text of a program

The canonical text has the mnemonic and the operands of each instruction on a line. It tells the
code of a loaded program as far as the names of variables let it: two codes with the same text are
the same, or they agree up to a place at which both name a variable and one name goes on where the
other ends (`canonical?_exact`). If no name has a blank or a line end in it, the text tells the
code.
-/

namespace Lightboard

/-- Two lists agree up to a place at which their items are related. -/
inductive PartBy {α : Type} (R : α → α → Prop) : List α → List α → Prop
  | here {x y : α} {xs ys : List α} (h : R x y) : PartBy R (x :: xs) (y :: ys)
  | later {x : α} {xs ys : List α} (h : PartBy R xs ys) : PartBy R (x :: xs) (x :: ys)

theorem PartBy.ne {α : Type} {R : α → α → Prop} (apart : ∀ x y, R x y → x ≠ y) {xs ys : List α}
    (h : PartBy R xs ys) : xs ≠ ys := by
  induction h with
  | here h => exact fun same => apart _ _ h (List.cons.inj same).1
  | later _ ih => exact fun same => ih (List.cons.inj same).2

theorem PartBy.exists_related {α : Type} {R : α → α → Prop} {xs ys : List α}
    (h : PartBy R xs ys) : ∃ x ∈ xs, ∃ y ∈ ys, R x y := by
  induction h with
  | here h => exact ⟨_, List.mem_cons_self, _, List.mem_cons_self, h⟩
  | later _ ih =>
      obtain ⟨x, hx, y, hy, related⟩ := ih
      exact ⟨x, List.mem_cons_of_mem _ hx, y, List.mem_cons_of_mem _ hy, related⟩

namespace Instruction

open Text Value

/-- Two instructions agree up to an operand at which both name a variable, the one name going on
where the other ends. -/
def RunsOn (i j : Instruction) : Prop :=
  i.op = j.op ∧ PartBy NamesRunOn i.operands j.operands

theorem RunsOn.ne {i j : Instruction} (h : i.RunsOn j) : i ≠ j := by
  rintro rfl
  exact h.2.ne (fun _ _ => NamesRunOn.ne) rfl

/-- The names of variables in an instruction are without blanks and line ends. -/
def HasPlainNames (i : Instruction) : Prop :=
  ∀ n, .symbol n ∈ i.operands → ∀ b ∈ n, ¬ IsBreak b

theorem RunsOn.exists_break {i j : Instruction} (h : i.RunsOn j) :
    ¬ (i.HasPlainNames ∧ j.HasPlainNames) := by
  rintro ⟨plain, plain'⟩
  obtain ⟨v, hv, w, hw, longer | shorter⟩ := h.2.exists_related
  · obtain ⟨b, mem, broken⟩ := longer.exists_break
    exact plain' _ hw b mem broken
  · obtain ⟨b, mem, broken⟩ := shorter.exists_break
    exact plain _ hv b mem broken

/-- The operands of a line, each behind a blank. -/
def operandText (vs : List Value) : Text := vs.flatMap fun v => ascii ' ' :: v.listed

theorem beginsBroken_operandText (vs : List Value) (r : Text) :
    BeginsBroken (operandText vs ++ ascii '\n' :: r) := by
  cases vs with
  | nil => exact ⟨_, r, rfl, .inr rfl⟩
  | cons v vs => exact ⟨_, _, rfl, .inl rfl⟩

theorem operands_cut {vs ws : List Value} (hv : ∀ v ∈ vs, v.HasNotation)
    (hw : ∀ w ∈ ws, w.HasNotation) {r r' : Text}
    (same : operandText vs ++ ascii '\n' :: r = operandText ws ++ ascii '\n' :: r') :
    (vs = ws ∧ r = r') ∨ PartBy NamesRunOn vs ws := by
  induction vs generalizing ws with
  | nil =>
      cases ws with
      | nil => exact .inl ⟨rfl, (List.cons.inj same).2⟩
      | cons w ws => exact absurd (List.cons.inj same).1 (by decide)
  | cons v vs ih =>
      cases ws with
      | nil => exact absurd (List.cons.inj same).1 (by decide)
      | cons w ws =>
          obtain ⟨here, later⟩ := List.forall_mem_cons.mp hv
          obtain ⟨here', later'⟩ := List.forall_mem_cons.mp hw
          have rest : v.listed ++ (operandText vs ++ ascii '\n' :: r) =
              w.listed ++ (operandText ws ++ ascii '\n' :: r') := by
            simpa [operandText] using same
          obtain ⟨rfl, behind⟩ | runOn := listed_cut here here' (beginsBroken_operandText vs r)
            (beginsBroken_operandText ws r') rest
          · obtain ⟨rfl, rfl⟩ | part := ih later later' behind
            · exact .inl ⟨rfl, rfl⟩
            · exact .inr (.later part)
          · exact .inr (.here runOn)

theorem line?_of_mnemonic {i : Instruction} {m : String} (mnemonic : i.op.mnemonic? = some m) :
    i.line? = some (Text.ofString m ++ operandText i.operands) := by
  rw [line?, mnemonic]
  rfl

theorem mnemonic_unbroken {op : OpCode} (named : op ∈ OpCode.named) {m : String}
    (mnemonic : op.mnemonic? = some m) : ∀ b ∈ Text.ofString m, ¬ IsBreak b := by
  have bytes : ∀ op ∈ OpCode.named, ∀ m ∈ op.mnemonic?,
      (Text.ofString m).all (fun b => !decide (IsBreak b)) = true := by
    decide +kernel
  intro b mem
  simpa using List.all_eq_true.mp (bytes op named m mnemonic) b mem

/-- The operands of an instruction with a notation fill its slots in order. -/
theorem HasNotation.slots {i : Instruction} (written : i.HasNotation) :
    i.first = i.operands[0]? ∧ i.second = i.operands[1]? := by
  have alone := written.first
  obtain ⟨op, first, second⟩ := i
  cases first with
  | none =>
      obtain rfl : second = none := alone rfl
      exact ⟨rfl, rfl⟩
  | some a => cases second <;> exact ⟨rfl, rfl⟩

theorem HasNotation.eq_of_operands {i j : Instruction} (hi : i.HasNotation) (hj : j.HasNotation)
    (op : i.op = j.op) (operands : i.operands = j.operands) : i = j := by
  obtain ⟨first, second⟩ := hi.slots
  obtain ⟨first', second'⟩ := hj.slots
  rw [operands] at first second
  cases i
  cases j
  simp only at op first second first' second'
  rw [op, first, second, ← first', ← second']

/-- Lines end at their line ends, and they tell their instructions as far as names let them. -/
theorem line_cut {i j : Instruction} (hi : i.HasNotation) (hj : j.HasNotation) {l l' r r' : Text}
    (line : i.line? = some l) (line' : j.line? = some l')
    (same : l ++ ascii '\n' :: r = l' ++ ascii '\n' :: r') : (i = j ∧ r = r') ∨ i.RunsOn j := by
  obtain ⟨m, mnemonic⟩ := Assembly.mnemonic_of_named hi.named
  obtain ⟨m', mnemonic'⟩ := Assembly.mnemonic_of_named hj.named
  obtain rfl := Option.some.inj ((line?_of_mnemonic mnemonic).symm.trans line)
  obtain rfl := Option.some.inj ((line?_of_mnemonic mnemonic').symm.trans line')
  rw [List.append_assoc, List.append_assoc] at same
  obtain ⟨word, rest⟩ := unbroken_cut (mnemonic_unbroken hi.named mnemonic)
    (mnemonic_unbroken hj.named mnemonic') (beginsBroken_operandText _ r)
    (beginsBroken_operandText _ r') same
  have op : i.op = j.op := by
    have found := OpCode.ofMnemonic?_mnemonic mnemonic
    rw [word, OpCode.ofMnemonic?_mnemonic mnemonic'] at found
    exact (Option.some.inj found).symm
  obtain ⟨operands, rfl⟩ | part := operands_cut hi.operands hj.operands rest
  · exact .inl ⟨hi.eq_of_operands hj op operands, rfl⟩
  · exact .inr ⟨op, part⟩

end Instruction

namespace Program

open Instruction

/-- Two codes agree up to an operand at which both name a variable, the one name going on where the
other ends. -/
def CodesRunOn (c d : List Instruction) : Prop := PartBy RunsOn c d

theorem lines_cut {c d : List Instruction} (hc : ∀ i ∈ c, i.HasNotation)
    (hd : ∀ i ∈ d, i.HasNotation) {ls ls' : List Text} (lines : c.mapM line? = some ls)
    (lines' : d.mapM line? = some ls')
    (same : ls.flatMap (· ++ [ascii '\n']) = ls'.flatMap (· ++ [ascii '\n'])) :
    c = d ∨ CodesRunOn c d := by
  have unpack {i : Instruction} {c : List Instruction} {ls : List Text}
      (lines : (i :: c).mapM line? = some ls) :
      ∃ l rest, i.line? = some l ∧ c.mapM line? = some rest ∧ ls = l :: rest := by
    simp only [List.mapM_cons, Option.bind_eq_bind, Option.bind_eq_some_iff, Option.pure_def,
      Option.some.injEq] at lines
    obtain ⟨l, line, rest, more, rfl⟩ := lines
    exact ⟨l, rest, line, more, rfl⟩
  induction c generalizing d ls ls' with
  | nil =>
      obtain rfl := Option.some.inj lines
      cases d with
      | nil => exact .inl rfl
      | cons j d =>
          obtain ⟨l, rest, -, -, rfl⟩ := unpack lines'
          simp at same
  | cons i c ih =>
      obtain ⟨l, rest, line, more, rfl⟩ := unpack lines
      cases d with
      | nil =>
          obtain rfl := Option.some.inj lines'
          simp at same
      | cons j d =>
          obtain ⟨l', rest', line', more', rfl⟩ := unpack lines'
          obtain ⟨here, later⟩ := List.forall_mem_cons.mp hc
          obtain ⟨here', later'⟩ := List.forall_mem_cons.mp hd
          simp only [List.flatMap_cons, List.append_assoc, List.singleton_append] at same
          obtain ⟨rfl, behind⟩ | runsOn := line_cut here here' line line' same
          · obtain rfl | part := ih later later' more more' behind
            · exact .inl rfl
            · exact .inr (.later part)
          · exact .inr (.here runsOn)

end Program

namespace Assembly

open Program

/-- Each loaded program has a canonical text. Two of them have the same code just if they have the
same text and their codes do not agree up to a variable in both, of which one name goes on with a
blank or a line end where the other ends. So if no variable has a blank or a line end in its name,
the texts tell the codes. -/
theorem canonical?_exact {m n : Text} {s t : Stream} {p q : Program}
    (hp : (load m s).result = .ok p) (hq : (load n t).result = .ok q) :
    (∃ text, p.canonical? = some text) ∧ (∃ text, q.canonical? = some text) ∧
      (p.code = q.code ↔ p.canonical? = q.canonical? ∧ ¬ CodesRunOn p.code q.code) ∧
      ((∀ i ∈ p.code, i.HasPlainNames) → (∀ i ∈ q.code, i.HasPlainNames) →
        (p.code = q.code ↔ p.canonical? = q.canonical?)) := by
  have written := load_hasNotation hp
  have written' := load_hasNotation hq
  obtain ⟨ls, lines⟩ := lines?_of_named fun i mem => (written i mem).named
  obtain ⟨ls', lines'⟩ := lines?_of_named fun i mem => (written' i mem).named
  have text : p.canonical? = some (ls.flatMap (· ++ [ascii '\n'])) := by
    rw [canonical?, lines?, lines]
    rfl
  have text' : q.canonical? = some (ls'.flatMap (· ++ [ascii '\n'])) := by
    rw [canonical?, lines?, lines']
    rfl
  have cut (same : p.canonical? = q.canonical?) :
      p.code = q.code ∨ CodesRunOn p.code q.code :=
    lines_cut written written' lines lines'
      (Option.some.inj (text.symm.trans (same.trans text')))
  have kept (same : p.code = q.code) : p.canonical? = q.canonical? := by
    rw [canonical?, canonical?, lines?, lines?, same]
  refine ⟨⟨_, text⟩, ⟨_, text'⟩, ⟨fun same => ⟨kept same, fun part => ?_⟩, ?_⟩, ?_⟩
  · exact part.ne (fun _ _ => Instruction.RunsOn.ne) same
  · rintro ⟨same, together⟩
    exact (cut same).resolve_right together
  · refine fun plain plain' => ⟨kept, fun same => (cut same).resolve_right fun part => ?_⟩
    obtain ⟨i, hi, j, hj, runsOn⟩ := part.exists_related
    exact runsOn.exists_break ⟨plain i hi, plain' j hj⟩

/-- A program that copies a variable whose name has a blank in it. -/
def spacedName : Program :=
  { name := "z", routines := Table.empty, code := [⟨.move, some (.symbol "a $b"), none⟩] }

/-- A program that copies one variable into another. -/
def twoNames : Program :=
  { name := "z", routines := Table.empty
    code := [⟨.move, some (.symbol "a"), some (.symbol "b")⟩] }

/-- The text of these programs is the same, and so is their fingerprint, but their code is not: the
name of the one variable goes on where the name of the other ends. -/
theorem spacedName_and_twoNames :
    (load "z" { bytes := "code = [[\"MOVE\", \"$a $b\"]]" }).result = .ok spacedName ∧
      (load "z" { bytes := "code = [[\"MOVE\", \"$a\", \"$b\"]]" }).result = .ok twoNames ∧
        spacedName.fingerprint? = twoNames.fingerprint? ∧ spacedName.code ≠ twoNames.code ∧
          CodesRunOn spacedName.code twoNames.code := by
  have loaded : (load "z" { bytes := "code = [[\"MOVE\", \"$a $b\"]]" }).result =
    .ok spacedName := by
    rfl
  have loaded' : (load "z" { bytes := "code = [[\"MOVE\", \"$a\", \"$b\"]]" }).result =
    .ok twoNames := by
    rfl
  have alike : spacedName.canonical? = twoNames.canonical? := by rfl
  have different : spacedName.code ≠ twoNames.code := fun same =>
    absurd (congrArg (List.map fun i => i.second.isSome) same) (by decide)
  obtain ⟨-, -, exact, -⟩ := canonical?_exact loaded loaded'
  refine ⟨loaded, loaded', congrArg (Option.map Hash64.hash) alike, different, ?_⟩
  by_contra apart
  exact different (exact.mpr ⟨alike, apart⟩)

end Assembly

end Lightboard
