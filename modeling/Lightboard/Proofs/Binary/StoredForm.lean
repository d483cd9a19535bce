import Lightboard.Proofs.Binary.Bounds
import Lightboard.Proofs.Code.Patterns
import Lightboard.Proofs.Code.Tags

/-!
# Stored programs

Storing a program and reading it back gives the program again. Three things cannot be read back: an
op-code without a mnemonic, a routine that begins outside of the code, and the pattern without
alternatives. A loop token is stored as a float, so one beyond `2 ^ 53` is rounded.

What was read once can be stored and read as often as one likes.
-/

namespace Lightboard

/-- The value that comes back when one is stored. -/
def Value.rounded : Value → Value
  | .loopVar n => .loopVar (Number.rounded n)
  | v => v

def Instruction.rounded (i : Instruction) : Instruction :=
  { op := i.op, first := i.first.map Value.rounded, second := i.second.map Value.rounded }

/-- A value whose length can be written, and whose number is one of 64 bits after rounding. -/
def Value.FitsStore : Value → Prop
  | .str t => Wire.FitsLength t.length
  | .symbol t => Wire.FitsLength t.length
  | .loopVar n => Number.FitsWord (Number.rounded n)
  | _ => True

namespace Program

/-- A program whose lengths can be written and whose integers are of 64 bits. -/
structure FitsStore (p : Program) : Prop where
  name : Wire.FitsLength p.name.length
  code : Wire.FitsLength p.code.length
  routines : Wire.FitsLength p.routines.size
  entries : ∀ n entry, p.resolve n = some entry → Wire.FitsLength n.length ∧ Number.FitsWord entry
  operands : ∀ i ∈ p.code, ∀ v ∈ i.operands, v.FitsStore

/-- A program that is accepted when it is read back. -/
structure IsAccepted (p : Program) : Prop where
  opCodes : ∀ i ∈ p.code, i.op.code < OpCode.named.length
  entries : ∀ n entry, p.resolve n = some entry → 0 ≤ entry ∧ entry < p.code.length
  patterns : ∀ i ∈ p.code, ∀ v ∈ i.operands, v ≠ .pattern .empty

end Program

namespace Wire

theorem code_ofInt {w : Operand} {n : Nat} (small : n < 256) (num : w.num = Number.ofInt n) :
    w.code = UInt8.ofNat n := by
  have kept : Number.rounded n = n := Number.rounded_of_le (by omega)
  have word : Number.FitsWord (Number.rounded n) := by
    rw [kept]
    unfold Number.FitsWord Number.leastWord Number.greatestWord
    omega
  unfold Operand.code
  simp only [num, Number.truncate_ofInt word, kept]
  rw [if_pos (by omega)]
  apply UInt8.toNat_inj.1
  have byte : (UInt8.ofNat n).toNat = n := UInt8.toNat_ofNat_of_lt small
  have same := Pack.toNat_ofInt_byte n
  omega

theorem toSlot_ofSlot {s : Slot} (fits : ∀ v, s = some v → v.FitsStore)
    (accepted : s ≠ some (.pattern .empty)) : (ofSlot s).toSlot = .ok (s.map Value.rounded) := by
  cases s with
  | none => rfl
  | some v =>
      have fits := fits v rfl
      cases v with
      | number x => rfl
      | str t => rfl
      | bool b =>
          cases b
          · rfl
          · rfl
      | nothing => rfl
      | unitMode m =>
          change Except.ok (some (Value.unitMode (UnitMode.ofCode (Operand.code _)))) = _
          rw [code_ofInt m.ofCode_code.1 rfl, m.ofCode_code.2]
          rfl
      | operand o =>
          change Except.ok (some (Value.operand (Lightboard.Operand.ofCode (Operand.code _)))) = _
          rw [code_ofInt o.ofCode_code.1 rfl, o.ofCode_code.2]
          rfl
      | register r =>
          change Except.ok (some (Value.register (Register.ofCode (Operand.code _)))) = _
          rw [code_ofInt r.ofCode_code.1 rfl, r.ofCode_code.2]
          rfl
      | symbol name => rfl
      | loopVar n =>
          simp only [ofSlot, Operand.toSlot]
          change Except.ok (some (Value.loopVar (Number.truncate (Number.ofInt n)))) = _
          rw [Number.truncate_ofInt fits]
          rfl
      | operator o =>
          change Except.ok (some (Value.operator (Operator.ofCode (Operand.code _)))) = _
          rw [code_ofInt o.ofCode_code.1 rfl, o.ofCode_code.2]
          rfl
      | jump c =>
          change Except.ok (some (Value.jump (JumpCondition.ofCode (Operand.code _)))) = _
          rw [code_ofInt c.ofCode_code.1 rfl, c.ofCode_code.2]
          rfl
      | io o =>
          change Except.ok (some (Value.io (IoOp.ofCode (Operand.code _)))) = _
          rw [code_ofInt o.ofCode_code.1 rfl, o.ofCode_code.2]
          rfl
      | setOp o =>
          change Except.ok (some (Value.setOp (SetOp.ofCode (Operand.code _)))) = _
          rw [code_ofInt o.ofCode_code.1 rfl, o.ofCode_code.2]
          rfl
      | pattern p =>
          have nonempty : p ≠ .empty := fun same => accepted (by rw [same])
          have read := TimePattern.read_text nonempty
          simp only [ofSlot, Operand.toSlot, read]
          rfl

theorem toSlot_ofSlot_empty :
    (ofSlot (some (.pattern .empty))).toSlot = .error (.pattern (.shape [])) := rfl

theorem toInstruction_ofInstruction {i : Lightboard.Instruction} {index : Nat}
    (fits : ∀ v ∈ i.operands, v.FitsStore) (opCode : i.op.code < OpCode.named.length)
    (patterns : ∀ v ∈ i.operands, v ≠ .pattern .empty) :
    (ofInstruction i).toInstruction index = .ok i.rounded := by
  have first : (ofSlot i.first).toSlot = .ok (i.first.map Value.rounded) :=
    toSlot_ofSlot (fun v is => fits v (by simp [Lightboard.Instruction.operands, is]))
      fun is => patterns _ (by simp [Lightboard.Instruction.operands, is]) rfl
  have second : (ofSlot i.second).toSlot = .ok (i.second.map Value.rounded) :=
    toSlot_ofSlot (fun v is => fits v (by simp [Lightboard.Instruction.operands, is]))
      fun is => patterns _ (by simp [Lightboard.Instruction.operands, is]) rfl
  have byte : (UInt8.ofNat i.op.code).toNat = i.op.code :=
    UInt8.toNat_ofNat_of_lt i.op.ofCode_code.1
  unfold Instruction.toInstruction
  change (if 28 ≤ (UInt8.ofNat i.op.code).toNat then _ else (ofSlot i.first).toSlot >>= fun first =>
    (ofSlot i.second).toSlot >>= fun second =>
      Except.ok ({ op := OpCode.ofCode (UInt8.ofNat i.op.code), first := first, second := second } :
        Lightboard.Instruction)) = _
  rw [byte, if_neg (show ¬ 28 ≤ i.op.code from Nat.not_le_of_lt opCode), first, second,
    i.op.ofCode_code.2]
  rfl

/-- An instruction that comes back has an op-code that is known and operands with alternatives. -/
theorem accepted_of_toInstruction {i j : Lightboard.Instruction} {index : Nat}
    (read : (ofInstruction i).toInstruction index = .ok j) :
    i.op.code < OpCode.named.length ∧ ∀ v ∈ i.operands, v ≠ .pattern .empty := by
  have byte : (UInt8.ofNat i.op.code).toNat = i.op.code :=
    UInt8.toNat_ofNat_of_lt i.op.ofCode_code.1
  unfold Instruction.toInstruction at read
  split at read
  · cases read
  · next known =>
    obtain ⟨a, first, read⟩ := Pack.of_bind_ok read
    obtain ⟨b, second, read⟩ := Pack.of_bind_ok read
    refine ⟨?_, ?_⟩
    · change ¬ 28 ≤ (UInt8.ofNat i.op.code).toNat at known
      rw [byte] at known
      exact Nat.lt_of_not_le known
    · rintro v member rfl
      simp only [Lightboard.Instruction.operands, List.mem_filterMap, List.mem_cons, id_eq,
        List.not_mem_nil, or_false] at member
      obtain ⟨slot, rfl | rfl, value⟩ := member
      · change (ofSlot i.first).toSlot = _ at first
        rw [value, toSlot_ofSlot_empty] at first
        cases first
      · change (ofSlot i.second).toSlot = _ at second
        rw [value, toSlot_ofSlot_empty] at second
        cases second

theorem toCode_ofInstructions {code : List Lightboard.Instruction} (index : Nat)
    (fits : ∀ i ∈ code, ∀ v ∈ i.operands, v.FitsStore)
    (opCodes : ∀ i ∈ code, i.op.code < OpCode.named.length)
    (patterns : ∀ i ∈ code, ∀ v ∈ i.operands, v ≠ .pattern .empty) :
    Program.toCode index (code.map ofInstruction) =
      .ok (code.map Lightboard.Instruction.rounded) := by
  induction code generalizing index with
  | nil => rfl
  | cons i rest ih =>
      have head := @toInstruction_ofInstruction i index (fits i (by simp)) (opCodes i (by simp))
        (patterns i (by simp))
      have tail := ih (index + 1) (fun j member => fits j (by simp [member]))
        (fun j member => opCodes j (by simp [member])) fun j member => patterns j (by simp [member])
      rw [List.map_cons, Program.toCode, head]
      change (Program.toCode (index + 1) (rest.map ofInstruction) >>= _) = _
      rw [tail]
      rfl

theorem accepted_of_toCode {code is : List Lightboard.Instruction} {index : Nat}
    (read : Program.toCode index (code.map ofInstruction) = .ok is) :
    ∀ i ∈ code, i.op.code < OpCode.named.length ∧ ∀ v ∈ i.operands, v ≠ .pattern .empty := by
  induction code generalizing index is with
  | nil => simp
  | cons i rest ih =>
      obtain ⟨j, head, read⟩ := Pack.of_bind_ok read
      obtain ⟨js, tail, -⟩ := Pack.of_bind_ok read
      intro k member
      rcases List.mem_cons.1 member with rfl | member
      · exact accepted_of_toInstruction head
      · exact ih tail k member

/-- The entries of a list of routine records. -/
def entriesOf (rs : List Routine) : List (Text × Int) := rs.map fun r => (r.name, r.entry)

/-- Routines are read one after the other into a table, and each has to begin in the code. -/
theorem foldlM_routines {size : Nat} {rs : List Routine} {start table : Table Text Int} :
    rs.foldlM (fun table r =>
      if r.entry < 0 ∨ (size : Int) ≤ r.entry then .error (.routineOutside r.name r.entry)
      else .ok (table.insert r.name r.entry)) start = (.ok table : Except StoredError _) ↔
    (∀ r ∈ rs, 0 ≤ r.entry ∧ r.entry < size) ∧
      (entriesOf rs).foldl (fun t e => t.insert e.1 e.2) start = table := by
  induction rs generalizing start with
  | nil => simp [entriesOf, Pure.pure, Except.pure]
  | cons r rest ih =>
      rw [List.foldlM_cons]
      by_cases outside : r.entry < 0 ∨ (size : Int) ≤ r.entry
      · rw [if_pos outside]
        constructor
        · intro failed
          cases failed
        · rintro ⟨inside, -⟩
          have := inside r (by simp)
          omega
      · rw [if_neg outside]
        change (rest.foldlM _ (start.insert r.name r.entry)) = _ ↔ _
        rw [ih]
        simp only [List.forall_mem_cons, entriesOf, List.map_cons, List.foldl_cons]
        constructor
        · rintro ⟨inside, built⟩
          exact ⟨⟨by omega, inside⟩, built⟩
        · rintro ⟨⟨-, inside⟩, built⟩
          exact ⟨inside, built⟩

theorem toRoutines_eq_ok {size : Nat} {rs : List Routine} {table : Table Text Int} :
    Program.toRoutines size rs = .ok table ↔
      (∀ r ∈ rs, 0 ≤ r.entry ∧ r.entry < size) ∧ Table.ofList (entriesOf rs) = table :=
  foldlM_routines

theorem entriesOf_ofProgram (p : Lightboard.Program) :
    entriesOf (ofProgram p).routines = p.sortedRoutines := by
  simp [entriesOf, ofProgram, Function.comp_def]

theorem sortedRoutines_perm (p : Lightboard.Program) : p.sortedRoutines.Perm p.routines.entries :=
  List.mergeSort_perm _ _

theorem mem_sortedRoutines {p : Lightboard.Program} {n : Text} {entry : Int} :
    (n, entry) ∈ p.sortedRoutines ↔ p.resolve n = some entry := by
  rw [(sortedRoutines_perm p).mem_iff]
  exact Table.get?_eq_some_iff.symm

/-- The table built from the sorted entries is the one they came from. -/
theorem get?_ofList_sortedRoutines (p : Lightboard.Program) (n : Text) :
    (Table.ofList p.sortedRoutines).get? n = p.resolve n := by
  have nodup : (p.sortedRoutines.map Prod.fst).Nodup :=
    ((sortedRoutines_perm p).map Prod.fst).nodup_iff.2 p.routines.nodup
  apply Option.ext
  intro entry
  rw [Table.get?_ofList nodup, mem_sortedRoutines]

theorem mem_routines_ofProgram {p : Lightboard.Program} {r : Routine} :
    r ∈ (ofProgram p).routines ↔ p.resolve r.name = some r.entry := by
  rw [← mem_sortedRoutines]
  simp only [ofProgram, List.mem_map]
  constructor
  · rintro ⟨⟨n, entry⟩, member, rfl⟩
    exact member
  · intro member
    exact ⟨_, member, rfl⟩

theorem ofSlot_fits {s : Slot} (fits : ∀ v, s = some v → v.FitsStore) :
    FitsLength (ofSlot s).str.length := by
  cases s with
  | none => exact Nat.two_pow_pos 32
  | some v =>
      have fits := fits v rfl
      cases v with
      | str t => exact fits
      | symbol t => exact fits
      | pattern p => exact p.length_text_lt
      | _ => exact Nat.two_pow_pos 32

theorem ofProgram_fits {p : Lightboard.Program} (fits : p.FitsStore) : (ofProgram p).Fits where
  name := fits.name
  code := by
    simp only [ofProgram, List.length_map]
    exact fits.code
  routines := by
    simp only [ofProgram, List.length_map, (sortedRoutines_perm p).length_eq]
    exact fits.routines
  operands := by
    intro w member
    obtain ⟨i, inside, rfl⟩ := List.mem_map.1 member
    have fits := fits.operands i inside
    exact ⟨ofSlot_fits fun v is => fits v (by simp [Lightboard.Instruction.operands, is]),
      ofSlot_fits fun v is => fits v (by simp [Lightboard.Instruction.operands, is])⟩
  entries := by
    intro r member
    exact fits.entries _ _ (mem_routines_ofProgram.1 member)

theorem toProgram_ofProgram {p : Lightboard.Program} (fits : p.FitsStore)
    (accepted : p.IsAccepted) :
    (ofProgram p).toProgram = .ok
      { name := p.name
        code := p.code.map Lightboard.Instruction.rounded
        routines := Table.ofList p.sortedRoutines } := by
  have routines : Program.toRoutines (ofProgram p).code.length (ofProgram p).routines =
      .ok (Table.ofList p.sortedRoutines) := by
    rw [toRoutines_eq_ok, entriesOf_ofProgram]
    refine ⟨?_, rfl⟩
    intro r member
    have inside := accepted.entries _ _ (mem_routines_ofProgram.1 member)
    simpa [ofProgram] using inside
  have code := toCode_ofInstructions 0 fits.operands accepted.opCodes accepted.patterns
  unfold Program.toProgram
  rw [routines]
  change (Program.toCode 0 (p.code.map ofInstruction) >>= _) = _
  rw [code]
  rfl

theorem accepted_of_toProgram {p q : Lightboard.Program} (read : (ofProgram p).toProgram = .ok q) :
    p.IsAccepted := by
  obtain ⟨table, routines, read⟩ := Pack.of_bind_ok read
  obtain ⟨code, coded, -⟩ := Pack.of_bind_ok read
  have each := accepted_of_toCode coded
  refine ⟨fun i member => (each i member).1, ?_, fun i member => (each i member).2⟩
  intro n entry found
  have inside := (toRoutines_eq_ok.1 routines).1 ⟨n, entry⟩ (mem_routines_ofProgram.2 found)
  simpa [ofProgram] using inside

/-- A slot that was read can be stored, and comes back as it is. -/
theorem toSlot_spec {w : Operand} {s : Slot} (fits : FitsLength w.str.length)
    (read : w.toSlot = .ok s) :
    (∀ v, s = some v → v.FitsStore ∧ v ≠ .pattern .empty) ∧ s.map Value.rounded = s := by
  unfold Operand.toSlot at read
  split at read
  -- The kinds come in the order of their numbers: kind 2 is a text.
  case h_3 =>
    cases read
    exact ⟨fun v is => by cases is; exact ⟨fits, nofun⟩, rfl⟩
  -- A time pattern is read again, and a text that reads as one is not empty.
  case h_8 =>
    split at read
    · next p parsed =>
      cases read
      refine ⟨?_, rfl⟩
      rintro v is
      cases is
      exact ⟨trivial, fun same => TimePattern.ne_empty_of_read parsed (Value.pattern.inj same)⟩
    · cases read
  -- A symbol is a text as well.
  case h_10 =>
    cases read
    exact ⟨fun v is => by cases is; exact ⟨fits, nofun⟩, rfl⟩
  -- The number of a loop variable is truncated as it is read, so rounding leaves it alone.
  case h_11 =>
    cases read
    have kept := Number.rounded_truncate w.num
    refine ⟨?_, ?_⟩
    · rintro v is
      cases is
      refine ⟨?_, nofun⟩
      change Number.FitsWord (Number.rounded _)
      rw [kept]
      exact Number.fits_truncate w.num
    · change some (Value.loopVar (Number.rounded (Number.truncate w.num))) = _
      rw [kept]
  -- No other kind is known.
  case h_16 => cases read
  -- What is left holds no text and nothing to round.
  all_goals
    cases read
    exact ⟨fun v is => by cases is <;> exact ⟨trivial, nofun⟩, rfl⟩

theorem toInstruction_spec {w : Instruction} {i : Lightboard.Instruction} {index : Nat}
    (first : FitsLength w.first.str.length) (second : FitsLength w.second.str.length)
    (read : w.toInstruction index = .ok i) :
    i.op.code < OpCode.named.length ∧ (∀ v ∈ i.operands, v.FitsStore ∧ v ≠ .pattern .empty) ∧
      i.rounded = i := by
  unfold Instruction.toInstruction at read
  split at read
  · cases read
  · next known =>
    obtain ⟨a, first', read⟩ := Pack.of_bind_ok read
    obtain ⟨b, second', read⟩ := Pack.of_bind_ok read
    obtain ⟨fine, kept⟩ := toSlot_spec first first'
    obtain ⟨fine', kept'⟩ := toSlot_spec second second'
    cases read
    refine ⟨?_, ?_, ?_⟩
    · exact (OpCode.mem_named_iff _).1 (OpCode.ofCode_mem_named (Nat.lt_of_not_le known))
    · intro v member
      simp only [Lightboard.Instruction.operands, List.mem_filterMap, List.mem_cons, id_eq,
        List.not_mem_nil, or_false] at member
      obtain ⟨slot, rfl | rfl, value⟩ := member
      · exact fine v value
      · exact fine' v value
    · unfold Lightboard.Instruction.rounded
      rw [kept, kept']

theorem toCode_spec {ws : List Instruction} {is : List Lightboard.Instruction} {index : Nat}
    (fits : ∀ w ∈ ws, FitsLength w.first.str.length ∧ FitsLength w.second.str.length)
    (read : Program.toCode index ws = .ok is) :
    is.length = ws.length ∧ (∀ i ∈ is, i.op.code < OpCode.named.length) ∧
      (∀ i ∈ is, ∀ v ∈ i.operands, v.FitsStore ∧ v ≠ .pattern .empty) ∧
      is.map Lightboard.Instruction.rounded = is := by
  induction ws generalizing index is with
  | nil =>
      cases read
      simp
  | cons w ws ih =>
      obtain ⟨i, head, read⟩ := Pack.of_bind_ok read
      obtain ⟨rest, tail, read⟩ := Pack.of_bind_ok read
      cases read
      obtain ⟨known, operands, kept⟩ :=
        toInstruction_spec (fits w (by simp)).1 (fits w (by simp)).2 head
      obtain ⟨length, known', operands', kept'⟩ :=
        ih (fun w member => fits w (by simp [member])) tail
      exact ⟨by simp [length], List.forall_mem_cons.2 ⟨known, known'⟩,
        List.forall_mem_cons.2 ⟨operands, operands'⟩, by rw [List.map_cons, kept, kept']⟩

/-- A program that was read from a record can be stored and read back as it is. -/
theorem toProgram_spec {w : Program} {q : Lightboard.Program} (fits : w.Fits)
    (read : w.toProgram = .ok q) :
    q.FitsStore ∧ q.IsAccepted ∧ q.code.map Lightboard.Instruction.rounded = q.code := by
  obtain ⟨table, routines, read⟩ := Pack.of_bind_ok read
  obtain ⟨code, coded, read⟩ := Pack.of_bind_ok read
  obtain ⟨length, known, operands, kept⟩ := toCode_spec fits.operands coded
  obtain ⟨inside, rfl⟩ := toRoutines_eq_ok.1 routines
  cases read
  have entry : ∀ n entry, (Table.ofList (entriesOf w.routines)).get? n = some entry →
      ∃ r ∈ w.routines, r.name = n ∧ r.entry = entry := by
    intro n entry found
    obtain ⟨r, member, same⟩ := List.mem_map.1 (Table.mem_of_get?_ofList found)
    cases same
    exact ⟨r, member, rfl, rfl⟩
  refine ⟨⟨fits.name, ?_, ?_, ?_, fun i member v held => (operands i member v held).1⟩,
    ⟨known, ?_, fun i member v held => (operands i member v held).2⟩, kept⟩
  · simp only [length]
    exact fits.code
  · refine lt_of_le_of_lt (Table.size_ofList_le _) ?_
    simp only [entriesOf, List.length_map]
    exact fits.routines
  · intro n a found
    obtain ⟨r, member, rfl, rfl⟩ := entry n a found
    exact fits.entries r member
  · intro n a found
    obtain ⟨r, member, rfl, rfl⟩ := entry n a found
    simp only [length]
    exact inside r member

end Wire

namespace Program

theorem decode_eq_ok {medium : Pack.Medium} {t : Text} {q : Program}
    (read : decode medium t = .ok q) :
    ∃ w i, Wire.Program.read { medium := medium, rest := t } = .ok (w, i) ∧
      w.toProgram = .ok q := by
  unfold decode at read
  split at read
  · next w i got => exact ⟨w, i, got, read⟩
  · cases read
  · cases read

theorem decode_encode_eq {p : Program} (fits : p.FitsStore) (medium : Pack.Medium) :
    decode medium p.encode = (Wire.ofProgram p).toProgram := by
  obtain ⟨i, read, -⟩ := Wire.Program.read_bytes (Wire.ofProgram_fits fits)
    { medium := medium, rest := p.encode } [] (by simp [encode])
  unfold decode
  rw [read]

theorem decode_encode_of_accepted {p : Program} (fits : p.FitsStore) (accepted : p.IsAccepted)
    (medium : Pack.Medium) :
    decode medium p.encode = .ok
      { name := p.name, code := p.code.map Instruction.rounded
        routines := Table.ofList p.sortedRoutines } := by
  rw [decode_encode_eq fits, Wire.toProgram_ofProgram fits accepted]

/-- Tokens up to `2 ^ 53` are not rounded. -/
theorem rounded_code {code : List Instruction}
    (small : ∀ i ∈ code, ∀ n, .loopVar n ∈ i.operands → n.natAbs ≤ 2 ^ 53) :
    code.map Instruction.rounded = code := by
  have slot : ∀ s : Slot, (∀ n, s = some (.loopVar n) → n.natAbs ≤ 2 ^ 53) →
      s.map Value.rounded = s := by
    intro s small
    cases s with
    | none => rfl
    | some v =>
        cases v with
        | loopVar n => rw [Option.map_some, Value.rounded, Number.rounded_of_le (small n rfl)]
        | _ => rfl
  have each : ∀ i ∈ code, i.rounded = i := by
    intro i member
    have first := slot i.first fun n is => small i member n (by simp [Instruction.operands, is])
    have second := slot i.second fun n is => small i member n (by simp [Instruction.operands, is])
    rw [Instruction.rounded, first, second]
  exact (List.map_congr_left each).trans (List.map_id code)

/-- Storing a program and reading it back succeeds just for accepted programs and gives the same
name, the same routines and the same code, with loop tokens rounded to 53 bits. What was read from
any bytes comes back as it is. -/
theorem decode_encode (medium : Pack.Medium) :
    (∀ p : Program, p.FitsStore →
      ((∃ q, decode medium p.encode = .ok q) ↔ p.IsAccepted) ∧
      ∀ q, decode medium p.encode = .ok q →
        q.name = p.name ∧ (∀ n, q.resolve n = p.resolve n) ∧
        q.code = p.code.map Instruction.rounded ∧
        ((∀ i ∈ p.code, ∀ n, .loopVar n ∈ i.operands → n.natAbs ≤ 2 ^ 53) → q.code = p.code)) ∧
    ∀ t q, decode medium t = .ok q →
      ∃ q', decode medium q.encode = .ok q' ∧ q'.name = q.name ∧ q'.code = q.code ∧
        ∀ n, q'.resolve n = q.resolve n := by
  constructor
  · intro p fits
    have accepts : ∀ q, decode medium p.encode = .ok q → p.IsAccepted := by
      intro q read
      rw [decode_encode_eq fits] at read
      exact Wire.accepted_of_toProgram read
    refine ⟨⟨fun ⟨q, read⟩ => accepts q read, ?_⟩, ?_⟩
    · intro accepted
      exact ⟨_, decode_encode_of_accepted fits accepted medium⟩
    · intro q read
      rw [decode_encode_of_accepted fits (accepts q read)] at read
      cases read
      exact ⟨rfl, Wire.get?_ofList_sortedRoutines p, rfl, rounded_code⟩
  · intro t q read
    obtain ⟨w, i, got, read⟩ := decode_eq_ok read
    obtain ⟨fits, accepted, kept⟩ := Wire.toProgram_spec (Wire.Program.read_gives _ _ _ got) read
    exact ⟨_, decode_encode_of_accepted fits accepted medium, rfl, kept,
      Wire.get?_ofList_sortedRoutines q⟩

/-- A program with a token past `2 ^ 53`, a code without a name, a pattern and a missing operand. -/
def markedLoop : Program where
  name := "marked"
  code :=
    [⟨.routine, some (.str "loop"), none⟩,
     ⟨.moveLiteral, some (.loopVar 9007199254740993), some (.symbol "x")⟩,
     ⟨.timePattern, some (.setOp (SetOp.ofCode 9)), some (.pattern (TimePattern.empty.add
       ⟨none, some 7, some 3, some 0, fun _ none => absurd none (Option.not_mem_none _)⟩))⟩]
  routines := Table.ofList [("loop", 0)]

/-- The token is rounded, and all else comes back. -/
theorem markedLoop_comes_back : markedLoop.FitsStore ∧ markedLoop.IsAccepted ∧
    ∃ q, decode .memory markedLoop.encode = .ok q ∧ q.name = markedLoop.name ∧
      q.resolve "loop" = some 0 ∧ q.code = markedLoop.code.map Instruction.rounded ∧
      Value.rounded (.loopVar 9007199254740993) = .loopVar 9007199254740992 := by
  have found : ∀ n entry, markedLoop.resolve n = some entry → n = "loop" ∧ entry = 0 := by
    intro n entry found
    have member := Table.mem_of_get?_ofList found
    simpa using member
  have fits : markedLoop.FitsStore := by
    refine ⟨by decide, by decide, by decide, ?_, ?_⟩
    · intro n entry h
      obtain ⟨rfl, rfl⟩ := found n entry h
      decide
    · simp [markedLoop, Instruction.operands, Value.FitsStore]
      decide
  have accepted : markedLoop.IsAccepted := by
    refine ⟨by decide, ?_, ?_⟩
    · intro n entry h
      obtain ⟨rfl, rfl⟩ := found n entry h
      decide
    · simp [markedLoop, Instruction.operands]
      decide
  obtain ⟨iff, same⟩ := (decode_encode .memory).1 markedLoop fits
  obtain ⟨q, read⟩ := iff.2 accepted
  obtain ⟨name, routines, code, -⟩ := same q read
  exact ⟨fits, accepted, q, read, name, (routines _).trans rfl, code, rfl⟩

end Program

end Lightboard
