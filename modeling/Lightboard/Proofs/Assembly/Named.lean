import Lightboard.Assembly.Loader
import Mathlib.Data.List.Forall2

/-!
# Loaded programs hold named tags only

A program built by hand, or read from its stored form, may carry codes that name nothing. Assembly
text writes registers and tags by name, so the programs loaded from it carry none of them, and each
of their instructions has a mnemonic.
-/

namespace Lightboard

/-- A value that is no tag or register, or one with a name. -/
def Value.IsNamed : Value → Prop
  | .unitMode m => m ∈ UnitMode.named
  | .operand o => o ∈ Operand.named
  | .register r => r ∈ Register.named
  | .operator o => o ∈ Operator.named
  | .jump c => c ∈ JumpCondition.named
  | .io o => o ∈ IoOp.named
  | .setOp o => o ∈ SetOp.named
  | _ => True

/-- An instruction with a mnemonic whose operands are named. -/
def Instruction.IsNamed (i : Instruction) : Prop :=
  i.op ∈ OpCode.named ∧ ∀ v ∈ i.operands, v.IsNamed

namespace Assembly

/-- A tag stands for nothing, or for something with its name. -/
theorem ofTag?_cases {t : Text} {v : Value} (h : Value.ofTag? t = some v) :
    v = .nothing ∨ (∃ o ∈ Operator.named, v = .operator o) ∨
      (∃ c ∈ JumpCondition.named, v = .jump c) ∨
      (∃ o ∈ Operand.named, v = .operand o) ∨ (∃ m ∈ UnitMode.named, v = .unitMode m) ∨
      (∃ o ∈ IoOp.named, v = .io o) ∨ ∃ o ∈ SetOp.named, v = .setOp o := by
  unfold Value.ofTag? at h
  simp only at h
  split at h
  · cases h
    exact .inl rfl
  · -- The kinds of tag are tried one after the other.
    simp only [Option.orElse_eq_orElse, Option.orElse_eq_or, Option.or_eq_some_iff,
      Option.map_eq_some_iff] at h
    refine .inr ?_
    obtain ⟨o, found, rfl⟩ | ⟨-, h⟩ := h
    · exact .inl ⟨o, List.mem_of_find?_eq_some found, rfl⟩
    refine .inr ?_
    obtain ⟨o, found, rfl⟩ | ⟨-, h⟩ := h
    · exact .inl ⟨o, List.mem_of_find?_eq_some found, rfl⟩
    refine .inr ?_
    obtain ⟨o, found, rfl⟩ | ⟨-, h⟩ := h
    · exact .inl ⟨o, List.mem_of_find?_eq_some found, rfl⟩
    refine .inr ?_
    obtain ⟨o, found, rfl⟩ | ⟨-, h⟩ := h
    · exact .inl ⟨o, List.mem_of_find?_eq_some found, rfl⟩
    refine .inr ?_
    obtain ⟨o, found, rfl⟩ | ⟨-, o, found, rfl⟩ := h
    · exact .inl ⟨o, List.mem_of_find?_eq_some found, rfl⟩
    · exact .inr ⟨o, List.mem_of_find?_eq_some found, rfl⟩

theorem ofTag?_isNamed {t : Text} {v : Value} (h : Value.ofTag? t = some v) : v.IsNamed := by
  obtain rfl | ⟨o, named, rfl⟩ | ⟨c, named, rfl⟩ | ⟨o, named, rfl⟩ | ⟨m, named, rfl⟩ |
    ⟨o, named, rfl⟩ | ⟨o, named, rfl⟩ := ofTag?_cases h
  · trivial
  all_goals exact named

theorem readWord_isNamed {word : Text} {v : Value} (h : Operand.readWord word = .ok v) :
    v.IsNamed := by
  unfold Operand.readWord at h
  repeat' split at h
  all_goals cases h
  all_goals first | trivial | skip
  · next found => exact List.mem_of_find?_eq_some found
  · next tag => exact ofTag?_isNamed tag

theorem read_isNamed {d : Toml.Datum} {v : Value} (h : Operand.read d = .ok v) : v.IsNamed := by
  cases d with
  | text t => exact readWord_isNamed h
  | boolean b => cases h; trivial
  | integer n => cases h; trivial
  | float x => cases h; trivial
  | moment m => cases h
  | list items => cases h
  | table entries => cases h
  | tables items => cases h

/-- Reading a list with `mapM` reads its items one by one. -/
theorem forall₂_of_mapM {α β ε : Type} {f : α → Except ε β} {xs : List α} {ys : List β}
    (h : xs.mapM f = .ok ys) : List.Forall₂ (fun x y => f x = .ok y) xs ys := by
  induction xs generalizing ys with
  | nil =>
      cases h
      exact .nil
  | cons x xs ih =>
      rw [List.mapM_cons] at h
      cases head : f x with
      | error e =>
          rw [head] at h
          cases h
      | ok y =>
          cases tail : xs.mapM f with
          | error e =>
              rw [head, tail] at h
              cases h
          | ok ys' =>
              rw [head, tail] at h
              cases h
              exact .cons head (ih tail)

/-- An instruction is read from a mnemonic and its operands, one by one. -/
theorem readInstruction_ok {raw : List Toml.Datum} {i : Instruction}
    (h : readInstruction raw = .ok i) :
    ∃ head operands vs, raw = head :: operands ∧ i.op ∈ OpCode.named ∧
      List.Forall₂ (fun d v => Operand.read d = .ok v) operands vs ∧
      i.first = vs[0]? ∧ i.second = vs[1]? := by
  unfold readInstruction at h
  split at h
  · cases h
  · next head operands =>
    split at h
    · cases h
    · split at h
      · cases h
      · split at h
        · cases h
        · next found =>
          split at h
          · cases h
          · next vs read =>
            cases h
            exact ⟨head, operands, vs, rfl, List.mem_of_find?_eq_some found,
              forall₂_of_mapM read, rfl, rfl⟩

/-- What holds of every value read from an entry holds of the operands of its instruction. -/
theorem readInstruction_operands {P : Value → Prop} {raw : List Toml.Datum} {i : Instruction}
    (h : readInstruction raw = .ok i) (all : ∀ d ∈ raw, ∀ v, Operand.read d = .ok v → P v) :
    ∀ v ∈ i.operands, P v := by
  obtain ⟨head, operands, vs, rfl, -, read, first, second⟩ := readInstruction_ok h
  have values : ∀ v ∈ vs, P v := by
    replace all := (List.forall_mem_cons.1 all).2
    clear first second h
    induction read with
    | nil => simp
    | cons value _ ih =>
        obtain ⟨here, rest⟩ := List.forall_mem_cons.1 all
        exact List.forall_mem_cons.2 ⟨here _ value, ih rest⟩
  intro v member
  simp only [Instruction.operands, List.mem_filterMap, List.mem_cons, id_eq] at member
  obtain ⟨slot, place, value⟩ := member
  obtain rfl | rfl | none := place
  · exact values v (List.mem_of_getElem? (first ▸ value))
  · exact values v (List.mem_of_getElem? (second ▸ value))
  · cases none

/-- The entries of a source are read one by one. -/
theorem readCode_ok {table table' : Table Text Int} {index : Nat} {raws : List (List Toml.Datum)}
    {code : List Instruction} (h : readCode table index raws = .ok (code, table')) :
    List.Forall₂ (fun raw i => readInstruction raw = .ok i) raws code := by
  induction raws generalizing table index code with
  | nil =>
      cases h
      exact .nil
  | cons raw raws ih =>
      unfold readCode at h
      split at h
      · cases h
      · next read =>
        split at h
        · cases h
        · split at h
          · cases h
          · next rest =>
            cases h
            exact .cons read (ih rest)

/-- What holds of every instruction read from an entry holds of the code. -/
theorem readCode_forall {P : Instruction → Prop} {table table' : Table Text Int} {index : Nat}
    {raws : List (List Toml.Datum)} {code : List Instruction}
    (h : readCode table index raws = .ok (code, table'))
    (all : ∀ raw ∈ raws, ∀ i, readInstruction raw = .ok i → P i) : ∀ i ∈ code, P i := by
  have read := readCode_ok h
  clear h
  induction read with
  | nil => simp
  | cons first _ ih =>
      obtain ⟨here, rest⟩ := List.forall_mem_cons.1 all
      exact List.forall_mem_cons.2 ⟨here _ first, ih rest⟩

/-- A program comes from a source whose entries were read in order. -/
theorem load_ok {name : Text} {s : Stream} {p : Program} (h : (load name s).result = .ok p) :
    ∃ src, Source.read? s.bytes = some src ∧
      p.name = (if src.name.isEmpty then name else src.name) ∧
      readCode Table.empty 0 src.code = .ok (p.code, p.routines) := by
  unfold load at h
  split at h
  · cases h
  · split at h
    · next src read =>
      simp only [loadSource] at h
      split at h
      · cases h
      · next coded =>
        cases h
        exact ⟨src, read, rfl, coded⟩
    · cases h

theorem load_isNamed {name : Text} {s : Stream} {p : Program} (h : (load name s).result = .ok p) :
    ∀ i ∈ p.code, i.IsNamed := by
  obtain ⟨src, -, -, coded⟩ := load_ok h
  refine readCode_forall coded fun raw _ i read => ⟨?_, ?_⟩
  · obtain ⟨-, -, -, -, named, -⟩ := readInstruction_ok read
    exact named
  · exact readInstruction_operands read fun d _ v value => read_isNamed value

end Assembly

end Lightboard
