import Lightboard.Proofs.Assembly.Named
import Lightboard.Proofs.Machine.Effect
import Lightboard.Proofs.Number.Plain

/-!
# The table of routines

Which entries of a source can be read is said here without the reader: `Spells` relates an entry to
its instruction, and `Faulty` lists what can be wrong with an entry that stands behind others.
Reading stops at the first faulty entry, and without one it gives the spelled instructions and a
table that holds an address under a name just if the marker of that name stands there.

The invariant is `Lists`: after any number of entries the table has the names that they mark.
-/

namespace Lightboard

/-- The instruction marks the entry of a routine. -/
def Instruction.Marks (i : Instruction) (n : Text) : Prop :=
  i.op = .routine ∧ i.first = some (.str n)

/-- The instruction at index `k` marks the entry of a routine. -/
def Program.MarksAt (p : Program) (k : Nat) (n : Text) : Prop :=
  ∃ i, p.code[k]? = some i ∧ i.Marks n

namespace OpCode

theorem mem_named_of_ofMnemonic? {t : Text} {op : OpCode} (found : ofMnemonic? t = some op) :
    op ∈ named :=
  List.mem_of_find?_eq_some found

theorem ofMnemonic?_eq_some_iff {t : Text} {op : OpCode} :
    ofMnemonic? t = some op ↔ ∃ m, op.mnemonic? = some m ∧ t = Text.ofString m := by
  constructor
  · intro found
    unfold ofMnemonic? at found
    have any := List.find?_some found
    obtain ⟨m, mnemonic, same⟩ := (Option.any_eq_true _ _).mp any
    exact ⟨m, mnemonic, (eq_of_beq same).symm⟩
  · rintro ⟨m, mnemonic, rfl⟩
    exact ofMnemonic?_mnemonic mnemonic

/-- A mnemonic is no number and has neither digits nor blanks in it. -/
theorem mnemonic_is_word {op : OpCode} (listed : op ∈ named) {m : String}
    (mnemonic : op.mnemonic? = some m) :
    Number.readAny? m = none ∧
      ∀ b ∈ Text.ofString m, Text.isDigit b = false ∧ b ≠ ascii ' ' := by
  have numbers : ∀ op ∈ named, ∀ m ∈ op.mnemonic?, Number.readAny? m = none := by decide +kernel
  have bytes : ∀ op ∈ named, ∀ m ∈ op.mnemonic?,
      (Text.ofString m).all (fun b => !Text.isDigit b && b != ascii ' ') = true := by
    decide +kernel
  refine ⟨numbers op listed m mnemonic, fun b mem => ?_⟩
  simpa using List.all_eq_true.mp (bytes op listed m mnemonic) b mem

end OpCode

namespace Text

theorem exists_digit_ofInt (n : Int) : ∃ b ∈ ofInt n, isDigit b = true := by
  obtain ⟨b, t, same, -⟩ := ofNat_leading n.natAbs
  have member : b ∈ ofNat n.natAbs := by simp [same]
  refine ⟨b, ?_, isDigit_of_mem_ofNat _ b member⟩
  unfold ofInt
  split
  · exact List.mem_cons_of_mem _ member
  · exact member

end Text

namespace Assembly

open Toml

variable {raw operands : List Datum} {i : Instruction} {n : Text} {head : Datum}

/-- An entry spells an instruction: it has the mnemonic and behind that the operands. -/
inductive Spells : List Datum → Instruction → Prop
  | intro {op : OpCode} {m : String} {operands : List Datum} {vs : List Value}
      (mnemonic : op.mnemonic? = some m) (few : operands.length ≤ 2)
      (read : List.Forall₂ (fun d v => Operand.read d = .ok v) operands vs) :
      Spells (.text m :: operands) { op := op, first := vs[0]?, second := vs[1]? }

/-- An entry spells no instruction. -/
inductive Misspelled : List Datum → Prop
  | empty : Misspelled []
  | crowded {head : Datum} {operands : List Datum} (many : 2 < operands.length) :
      Misspelled (head :: operands)
  | nameless {head : Datum} {operands : List Datum}
      (other : ∀ op m, OpCode.mnemonic? op = some m → head ≠ .text m) :
      Misspelled (head :: operands)
  | operand {head d : Datum} {operands : List Datum} {e : OperandError} (member : d ∈ operands)
      (rejected : Operand.read d = .error e) : Misspelled (head :: operands)

/-- Scalars of other kinds have texts too, but none of these is a mnemonic. -/
theorem eq_text_of_scalarText? {t : Text} {op : OpCode} (text : scalarText? head = some t)
    (found : OpCode.ofMnemonic? t = some op) : head = .text t := by
  have named := OpCode.mem_named_of_ofMnemonic? found
  obtain ⟨m, mnemonic, rfl⟩ := OpCode.ofMnemonic?_eq_some_iff.mp found
  obtain ⟨noNumber, plain⟩ := OpCode.mnemonic_is_word named mnemonic
  cases head with
  | text t => rw [Option.some.inj text]
  | integer k =>
      obtain ⟨b, member, digit⟩ := Text.exists_digit_ofInt k
      rw [Option.some.inj text] at member
      exact absurd digit (by simp [(plain b member).1])
  | float x =>
      have number := Number.readAny?_plain x
      rw [Option.some.inj text, noNumber] at number
      cases number
  | boolean b =>
      -- The words for truth values are in lower case.
      cases b <;> cases (congrArg OpCode.ofMnemonic? (Option.some.inj text)).trans found
  | moment w =>
      refine absurd rfl (plain (ascii ' ') ?_).2
      rw [← Option.some.inj text]
      change ascii ' ' ∈ List.flatten (_ :: Text.ofString " " :: _)
      exact List.mem_flatten.mpr
        ⟨Text.ofString " ", List.mem_cons_of_mem _ List.mem_cons_self, by decide⟩
  | list items => cases text
  | table entries => cases text
  | tables items => cases text

theorem mapM_eq_ok_iff {α β ε : Type} {f : α → Except ε β} {xs : List α} {ys : List β} :
    xs.mapM f = .ok ys ↔ List.Forall₂ (fun x y => f x = .ok y) xs ys := by
  refine ⟨forall₂_of_mapM, fun read => ?_⟩
  induction read with
  | nil => rfl
  | cons first _ ih =>
      rw [List.mapM_cons, first, ih]
      rfl

/-- Reading a list fails just if one of its items cannot be read. -/
theorem mapM_eq_error_iff {α β ε : Type} {f : α → Except ε β} {xs : List α} :
    (∃ e, xs.mapM f = .error e) ↔ ∃ x ∈ xs, ∃ e, f x = .error e := by
  induction xs with
  | nil => exact ⟨nofun, nofun⟩
  | cons x xs ih =>
      rw [List.mapM_cons]
      cases first : f x with
      | error e => exact ⟨fun _ => ⟨x, List.mem_cons_self, e, first⟩, fun _ => ⟨e, rfl⟩⟩
      | ok y =>
          have later : (∃ z ∈ x :: xs, ∃ e, f z = .error e) ↔ ∃ z ∈ xs, ∃ e, f z = .error e := by
            simp [first]
          rw [later, ← ih]
          cases xs.mapM f with
          | error e => exact ⟨fun _ => ⟨e, rfl⟩, fun _ => ⟨e, rfl⟩⟩
          | ok ys => exact ⟨nofun, nofun⟩

/-- An entry is read as the instruction that it spells. -/
theorem readInstruction_eq_ok_iff : readInstruction raw = .ok i ↔ Spells raw i := by
  constructor
  · intro read
    unfold readInstruction at read
    split at read
    · cases read
    · next head operands =>
      split at read
      · cases read
      · next few =>
        split at read
        · cases read
        · next t text =>
          split at read
          · cases read
          · next op found =>
            split at read
            · cases read
            · next vs all =>
              obtain rfl := Except.ok.inj read
              obtain ⟨m, mnemonic, rfl⟩ := OpCode.ofMnemonic?_eq_some_iff.mp found
              rw [eq_text_of_scalarText? text found]
              exact .intro mnemonic (by omega) (forall₂_of_mapM all)
  · rintro ⟨mnemonic, few, read⟩
    simp only [readInstruction, scalarText?, OpCode.ofMnemonic?_mnemonic mnemonic,
      mapM_eq_ok_iff.mpr read, if_neg (Nat.not_lt.mpr few)]

theorem readInstruction_eq_error_iff :
    (∃ e, readInstruction raw = .error e) ↔ Misspelled raw := by
  constructor
  · rintro ⟨e, failed⟩
    unfold readInstruction at failed
    split at failed
    · exact .empty
    · next head operands =>
      split at failed
      · next many => exact .crowded many
      · split at failed
        · next none =>
          refine .nameless fun op m _ same => ?_
          rw [same] at none
          cases none
        · next t text =>
          split at failed
          · next none =>
            refine .nameless fun op m mnemonic same => ?_
            rw [same] at text
            obtain rfl := Option.some.inj text
            rw [OpCode.ofMnemonic?_mnemonic mnemonic] at none
            cases none
          · split at failed
            · next rejected =>
              obtain ⟨d, member, e, wrong⟩ := mapM_eq_error_iff.mp ⟨_, rejected⟩
              exact .operand member wrong
            · cases failed
  · intro wrong
    cases read : readInstruction raw with
    | error e => exact ⟨e, rfl⟩
    | ok i =>
        obtain ⟨mnemonic, few, all⟩ := readInstruction_eq_ok_iff.mp read
        cases wrong with
        | crowded many => exact absurd few (Nat.not_le.mpr many)
        | nameless other => exact absurd rfl (other _ _ mnemonic)
        | operand member rejected =>
            obtain ⟨e, failed⟩ := mapM_eq_error_iff.mpr ⟨_, member, _, rejected⟩
            rw [mapM_eq_ok_iff.mpr all] at failed
            cases failed

/-- The entry marks the routine `n`: its first operand is read as that text. -/
def Names (raw : List Datum) (n : Text) : Prop :=
  ∃ d more, raw = .text "ROUTINE" :: d :: more ∧ Operand.read d = .ok (.str n)

/-- What can be wrong with an entry behind the entries `before`. -/
inductive Faulty (before : List (List Datum)) : List Datum → Prop
  | misspelled {raw : List Datum} (wrong : Misspelled raw) : Faulty before raw
  | unnamed {operands : List Datum} (none : ∀ n, ¬ Names (.text "ROUTINE" :: operands) n) :
      Faulty before (.text "ROUTINE" :: operands)
  | repeated {raw earlier : List Datum} {n : Text} (here : Names raw n) (member : earlier ∈ before)
      (there : Names earlier n) : Faulty before raw

/-- The entry at index `k` of a source cannot stand there. -/
def FaultyAt (code : List (List Datum)) (k : Nat) : Prop :=
  ∃ raw, code[k]? = some raw ∧ Faulty (code.take k) raw

/-- The entry at index `k` marks the routine `n`. -/
def NamesAt (entries : List (List Datum)) (k : Nat) (n : Text) : Prop :=
  ∃ raw, entries[k]? = some raw ∧ Names raw n

/-- The table has the names that entries mark, each under the index of its entry. -/
def Lists (table : Table Text Int) (entries : List (List Datum)) : Prop :=
  ∀ n (address : Int), table.get? n = some address ↔
    ∃ k : Nat, address = k ∧ NamesAt entries k n

theorem mnemonic_routine_iff {op : OpCode} {m : String} (mnemonic : op.mnemonic? = some m) :
    op = .routine ↔ Text.ofString m = "ROUTINE" := by
  constructor
  · rintro rfl
    rw [← Option.some.inj mnemonic]
  · intro same
    have found := OpCode.ofMnemonic?_mnemonic mnemonic
    rw [same] at found
    exact (Option.some.inj found).symm

theorem Spells.op_iff (spells : Spells raw i) :
    i.op = .routine ↔ ∃ operands, raw = .text "ROUTINE" :: operands := by
  obtain ⟨mnemonic, -, -⟩ := spells
  rw [mnemonic_routine_iff mnemonic]
  constructor
  · intro same
    exact ⟨_, by rw [same]⟩
  · rintro ⟨operands, same⟩
    exact Datum.text.inj (List.cons.inj same).1

/-- An entry marks a routine just if its instruction does. -/
theorem Spells.names_iff (spells : Spells raw i) : Names raw n ↔ i.Marks n := by
  have op := spells.op_iff
  obtain ⟨mnemonic, few, read⟩ := spells
  constructor
  · rintro ⟨d, more, same, text⟩
    refine ⟨op.mpr ⟨d :: more, same⟩, ?_⟩
    obtain ⟨-, rfl⟩ := List.cons.inj same
    obtain ⟨v, vs, first, -, rfl⟩ := List.forall₂_cons_left_iff.mp read
    rw [← Except.ok.inj (text.symm.trans first)]
    rfl
  · rintro ⟨routine, first⟩
    obtain ⟨operands, same⟩ := op.mp routine
    obtain ⟨head, rfl⟩ := List.cons.inj same
    obtain ⟨vs, rfl⟩ := List.head?_eq_some_iff.mp (List.head?_eq_getElem?.trans first)
    obtain ⟨d, more, text, -, rfl⟩ := List.forall₂_cons_right_iff.mp read
    exact ⟨d, more, by rw [head], text⟩

variable {before : List (List Datum)} {table : Table Text Int}

theorem Lists.empty : Lists Table.empty [] := by
  intro n address
  constructor
  · intro found
    cases found
  · rintro ⟨k, -, raw, found, -⟩
    cases found

/-- What one more entry adds to the names that are marked. -/
theorem namesAt_concat_iff {k : Nat} :
    NamesAt (before ++ [raw]) k n ↔ NamesAt before k n ∨ (k = before.length ∧ Names raw n) := by
  unfold NamesAt
  rw [List.getElem?_append]
  split
  · next old =>
    simp only [Nat.ne_of_lt old, false_and, or_false]
  · next new =>
    rw [List.getElem?_eq_none (Nat.not_lt.mp new), List.getElem?_singleton]
    by_cases last : k = before.length
    · simp [last]
    · have : k - before.length ≠ 0 := by omega
      simp [last, this]

/-- An entry that marks no routine leaves the table as it is. -/
theorem Lists.concat_unnamed (lists : Lists table before) (none : ∀ n, ¬ Names raw n) :
    Lists table (before ++ [raw]) := by
  intro n address
  rw [lists n address]
  simp only [namesAt_concat_iff, none n, and_false, or_false]

/-- An entry that marks a new routine is entered with its index. -/
theorem Lists.concat_named (lists : Lists table before) (new : table.get? n = none)
    (named : ∀ n', Names raw n' ↔ n' = n) :
    Lists (table.insert n before.length) (before ++ [raw]) := by
  intro n' address
  simp only [namesAt_concat_iff, Table.get?_insert, named]
  split
  · next same =>
    subst same
    constructor
    · intro found
      exact ⟨before.length, (Option.some.inj found).symm, .inr ⟨rfl, rfl⟩⟩
    · rintro ⟨k, rfl, old | ⟨rfl, -⟩⟩
      · have found := (lists n' k).mpr ⟨k, rfl, old⟩
        rw [new] at found
        cases found
      · rfl
  · next other =>
    rw [lists n' address]
    simp only [other, and_false, or_false]

theorem Lists.get?_of_mem (lists : Lists table before) {earlier : List Datum}
    (member : earlier ∈ before) (there : Names earlier n) :
    ∃ address, table.get? n = some address := by
  obtain ⟨k, found⟩ := List.mem_iff_getElem?.mp member
  exact ⟨k, (lists n k).mpr ⟨k, rfl, earlier, found, there⟩⟩

/-- A spelled entry is entered just if nothing is wrong with it behind the others. -/
theorem Lists.enter (lists : Lists table before) (spells : Spells raw i) :
    (∃ table', enterRoutine table before.length i = .ok table' ∧ Lists table' (before ++ [raw]) ∧
      ¬ Faulty before raw) ∨
    ((∃ e, enterRoutine table before.length i = .error e) ∧ Faulty before raw) := by
  have right : ¬ Misspelled raw := by
    intro wrong
    obtain ⟨e, failed⟩ := readInstruction_eq_error_iff.mpr wrong
    rw [readInstruction_eq_ok_iff.mpr spells] at failed
    cases failed
  by_cases op : i.op = .routine
  · by_cases marks : ∃ n, i.Marks n
    · obtain ⟨n, -, first⟩ := marks
      have named (n' : Text) : Names raw n' ↔ n' = n := by
        rw [spells.names_iff, Instruction.Marks, first]
        simp [op, eq_comm]
      cases old : table.get? n with
      | some address =>
          obtain ⟨k, -, earlier, found, there⟩ := (lists n address).mp old
          refine .inr ⟨⟨.routineRepeated n address, ?_⟩,
            .repeated ((named n).mpr rfl) (List.mem_of_getElem? found) there⟩
          simp only [enterRoutine, if_pos op, first, old]
      | none =>
          refine .inl ⟨table.insert n before.length, ?_, lists.concat_named old named, ?_⟩
          · simp only [enterRoutine, if_pos op, first, old]
          · rintro (wrong | none | ⟨here, member, there⟩)
            · exact right wrong
            · exact none n ((named n).mpr rfl)
            · rw [(named _).mp here] at there
              obtain ⟨address, found⟩ := lists.get?_of_mem member there
              rw [old] at found
              cases found
    · obtain ⟨operands, rfl⟩ := spells.op_iff.mp op
      have none (n : Text) : ¬ i.Marks n := fun marked => marks ⟨n, marked⟩
      refine .inr ⟨⟨.routineUnnamed, ?_⟩,
        .unnamed fun n named => none n (spells.names_iff.mp named)⟩
      unfold enterRoutine
      rw [if_pos op]
      split
      · next n first => exact absurd ⟨op, first⟩ (none n)
      · rfl
  · have none (n : Text) : ¬ Names raw n := fun named => op (spells.names_iff.mp named).1
    refine .inl ⟨table, if_neg op, lists.concat_unnamed none, ?_⟩
    rintro (wrong | unnamed | ⟨here, -, -⟩)
    · exact right wrong
    · exact op (spells.op_iff.mpr ⟨_, rfl⟩)
    · exact none _ here

theorem faultyAt_length_iff {raws : List (List Datum)} :
    FaultyAt (before ++ raw :: raws) before.length ↔ Faulty before raw := by
  simp [FaultyAt]

theorem not_faultyAt_of_le {code : List (List Datum)} {k : Nat} (outside : code.length ≤ k) :
    ¬ FaultyAt code k := by
  rintro ⟨raw, found, -⟩
  rw [List.getElem?_eq_none outside] at found
  cases found

/-- The entry at index `k` is the first faulty one from the index `start` on. -/
structure IsFirstFault (code : List (List Datum)) (start k : Nat) : Prop where
  start_le : start ≤ k
  faulty : FaultyAt code k
  sound_before : ∀ j, start ≤ j → j < k → ¬ FaultyAt code j

theorem isFirstFault_here {raws : List (List Datum)} (faulty : Faulty before raw) :
    IsFirstFault (before ++ raw :: raws) before.length before.length :=
  ⟨le_rfl, faultyAt_length_iff.mpr faulty, fun _ ge lt => absurd ge (Nat.not_le.mpr lt)⟩

theorem IsFirstFault.of_succ {code : List (List Datum)} {start k : Nat}
    (first : IsFirstFault code (start + 1) k) (sound : ¬ FaultyAt code start) :
    IsFirstFault code start k := by
  refine ⟨Nat.le_of_succ_le first.start_le, first.faulty, fun j ge lt => ?_⟩
  obtain rfl | gt := Nat.eq_or_lt_of_le ge
  · exact sound
  · exact first.sound_before j gt lt

/-- Reading stops at the first faulty entry, and gives a table of all entries if there is none. -/
theorem Lists.readCode (lists : Lists table before) (raws : List (List Datum)) :
    (∃ code table', Assembly.readCode table before.length raws = .ok (code, table') ∧
      List.Forall₂ Spells raws code ∧ Lists table' (before ++ raws) ∧
      ∀ k, before.length ≤ k → ¬ FaultyAt (before ++ raws) k) ∨
    ∃ k e, Assembly.readCode table before.length raws = .error (k, e) ∧
      IsFirstFault (before ++ raws) before.length k := by
  induction raws generalizing table before with
  | nil =>
      refine .inl ⟨[], table, rfl, .nil, by rwa [List.append_nil], fun k outside => ?_⟩
      exact not_faultyAt_of_le (by simpa using outside)
  | cons raw raws ih =>
      cases read : readInstruction raw with
      | error e =>
          have faulty : Faulty before raw :=
            .misspelled (readInstruction_eq_error_iff.mp ⟨e, read⟩)
          refine .inr ⟨before.length, e, ?_, isFirstFault_here faulty⟩
          simp only [Assembly.readCode, read]
      | ok i =>
          obtain ⟨table', entered, lists', right⟩ | ⟨⟨e, failed⟩, faulty⟩ :=
            lists.enter (readInstruction_eq_ok_iff.mp read)
          · have sound : ¬ FaultyAt (before ++ raw :: raws) before.length :=
              mt faultyAt_length_iff.mp right
            have later := ih lists'
            rw [List.length_append, List.append_assoc, List.singleton_append] at later
            obtain ⟨code, table'', more, spelled, lists'', none⟩ | ⟨k, e, more, first⟩ := later
            · refine .inl ⟨i :: code, table'', ?_,
                .cons (readInstruction_eq_ok_iff.mp read) spelled, lists'', fun k ge => ?_⟩
              · rw [List.length_singleton] at more
                simp only [Assembly.readCode, read, entered, more]
              · obtain rfl | gt := Nat.eq_or_lt_of_le ge
                · exact sound
                · exact none k gt
            · refine .inr ⟨k, e, ?_, first.of_succ sound⟩
              rw [List.length_singleton] at more
              simp only [Assembly.readCode, read, entered, more]
          · refine .inr ⟨before.length, e, ?_, isFirstFault_here faulty⟩
            simp only [Assembly.readCode, read, failed]

/-- The names that entries mark are those that their instructions mark. -/
theorem namesAt_iff {raws : List (List Datum)} {code : List Instruction}
    (spelled : List.Forall₂ Spells raws code) (k : Nat) (n : Text) :
    NamesAt raws k n ↔ ∃ i, code[k]? = some i ∧ i.Marks n := by
  induction spelled generalizing k with
  | nil => simp [NamesAt]
  | cons first _ ih =>
      cases k with
      | zero => simp [NamesAt, first.names_iff]
      | succ k => simpa [NamesAt] using ih k

theorem load_of_read? {name : Text} {s : Stream} {src : Source} (readable : s.failure = none)
    (shape : Source.read? s.bytes = some src) : load name s = loadSource name src := by
  simp only [load, readable, shape]

end Assembly

namespace Rig

variable {r : Rig} {p : Program} {call : Instruction} {m : Machine}

/-- A call that succeeds goes on at the address of the routine it names. -/
theorem Effect.called_entry {outcome : Except RunError Unit} (effect : r.Effect p call m outcome)
    (ok : outcome = .ok ()) (op : call.op = .call) :
    ∃ n address, name call.first = .ok n ∧ p.resolve n = some address ∧
      m.registers.pc = address := by
  cases effect
  case called _ n address named resolved => exact ⟨n, address, named, resolved, rfl⟩
  case refused => cases ok
  -- Every other success is that of another instruction.
  all_goals simp_all [OpCode.advances]

theorem IsRun.called_entry {run : Nat → Rig} (isRun : IsRun run) {k : Nat}
    (running : (run k).machine.program = some p)
    (fetched : (run k).machine.instruction? = some call) (op : call.op = .call)
    (succeeded : ∀ e, (run k).step.2 ≠ .error e) :
    ∃ n address, name call.first = .ok n ∧ p.resolve n = some address ∧
      (run (k + 1)).machine.registers.pc = address := by
  have stepped := isRun.stepped k
  generalize (run (k + 1)).machine = m at stepped
  generalize (run k).step.2 = result at stepped succeeded
  cases stepped with
  | ended none => cases none.symm.trans fetched
  | interrupted => exact absurd rfl (succeeded _)
  | failed => exact absurd rfl (succeeded _)
  | done loaded fetched' effect _ =>
      obtain rfl := Option.some.inj (fetched'.symm.trans fetched)
      obtain rfl := Option.some.inj (loaded.symm.trans running)
      obtain ⟨n, address, named, resolved, pc⟩ := effect.called_entry rfl op
      refine ⟨n, address, named, resolved, ?_⟩
      simpa [Machine.movedPast, op, OpCode.advances] using pc

end Rig

namespace Assembly

open Toml

variable {name : Text} {src : Source} {p : Program}

/-- The name of the program of a source: its own, or the one that is given. -/
def Source.title (src : Source) (given : Text) : Text :=
  if src.name.isEmpty then given else src.name

theorem loadSource_of_error {k : Nat} {e : InstructionError}
    (failed : readCode Table.empty 0 src.code = .error (k, e)) :
    (loadSource name src).result = .error (.instruction (src.title name) k e) := by
  simp only [loadSource, failed]
  rfl

theorem loadSource_of_ok {code : List Instruction} {table : Table Text Int}
    (read : readCode Table.empty 0 src.code = .ok (code, table)) :
    (loadSource name src).result =
      .ok { name := src.title name, code := code, routines := table } := by
  simp only [loadSource, read]
  rfl

/-- The table of a program that was read from entries resolves the names of its markers. -/
theorem Lists.resolve_iff (lists : Lists p.routines src.code)
    (spelled : List.Forall₂ Spells src.code p.code) (n : Text) (address : Int) :
    p.resolve n = some address ↔ ∃ k : Nat, address = k ∧ p.MarksAt k n := by
  rw [show p.resolve n = p.routines.get? n from rfl, lists n address]
  simp only [namesAt_iff spelled, Program.MarksAt]

/-- Loading a document that has the shape of a source is exact. It fails just if an entry is faulty,
and the error tells the first of these. The program has one instruction for each entry, in the same
order, as the entry spells it. A name resolves to an address just if its marker stands there, no
name has two markers, and whenever a call succeeds in a run of the program, the run goes on at the
marker of the name that was called. -/
theorem load_exact {s : Stream} (readable : s.failure = none)
    (shape : Source.read? s.bytes = some src) :
    ((∃ e, (load name s).result = .error e) ↔ ∃ k, FaultyAt src.code k) ∧
    (∀ e, (load name s).result = .error e → ∃ k why,
      e = .instruction (src.title name) k why ∧
        e.message =
          Text.concat [src.title name, ": instruction ", Text.ofNat k, ": ", why.message] ∧
        FaultyAt src.code k ∧ ∀ j < k, ¬ FaultyAt src.code j) ∧
    ∀ p, (load name s).result = .ok p →
      List.Forall₂ Spells src.code p.code ∧
      (∀ n (address : Int), p.resolve n = some address ↔ ∃ k : Nat, address = k ∧ p.MarksAt k n) ∧
      (∀ n j k, p.MarksAt j n → p.MarksAt k n → j = k) ∧
      ∀ (m : Machine) (run : Nat → Rig), Rig.IsRun run → (run 0).machine = m.load p →
        ∀ k call, (run k).machine.instruction? = some call → call.op = .call →
          (∀ e, (run k).step.2 ≠ .error e) →
          ∃ n, ∃ address : Nat, Rig.name call.first = .ok n ∧
            (run (k + 1)).machine.registers.pc = address ∧ p.MarksAt address n := by
  rw [load_of_read? readable shape]
  obtain ⟨code, table, read, spelled, lists, sound⟩ | ⟨k, why, read, first⟩ :=
    Lists.empty.readCode src.code
  · rw [loadSource_of_ok read]
    have none : ¬ ∃ k, FaultyAt src.code k := by
      rintro ⟨k, faulty⟩
      exact sound k (Nat.zero_le k) faulty
    refine ⟨⟨nofun, fun faulty => absurd faulty none⟩, nofun, ?_⟩
    rintro _ ⟨⟩
    have resolve := @Lists.resolve_iff src ⟨src.title name, code, table⟩ lists spelled
    refine ⟨spelled, resolve, fun n j k one other => ?_,
      fun m run isRun start k call fetched op ok => ?_⟩
    · have same := ((resolve n j).mpr ⟨j, rfl, one⟩).symm.trans ((resolve n k).mpr ⟨k, rfl, other⟩)
      exact Int.ofNat.inj (Option.some.inj same)
    · obtain ⟨n, address, named, resolved, pc⟩ :=
        isRun.called_entry (isRun.program start k) fetched op ok
      obtain ⟨k', rfl, marked⟩ := (resolve n address).mp resolved
      exact ⟨n, k', named, pc, marked⟩
  · rw [loadSource_of_error read]
    refine ⟨⟨fun _ => ⟨k, first.faulty⟩, fun _ => ⟨_, rfl⟩⟩, ?_, nofun⟩
    rintro _ ⟨⟩
    exact ⟨k, why, rfl, rfl, first.faulty, fun j less => first.sound_before j (Nat.zero_le j) less⟩

/-- A source with a call of a routine that is marked behind it. -/
def calledBefore : Stream :=
  { bytes := "code = [[\"JSR\", \"f\"], [\"STOP\"], [\"ROUTINE\", \"f\"], [\"END\"]]" }

/-- A source with two markers of one name. -/
def markedTwice : Stream :=
  { bytes := "code = [[\"ROUTINE\", \"f\"], [\"END\"], [\"ROUTINE\", \"f\"]]" }

/-- The call lands on its marker, and the second marker of a name is the fault that is told. -/
theorem markers_found_and_refused :
    (∃ src p, Source.read? calledBefore.bytes = some src ∧ (load "p" calledBefore).result = .ok p ∧
      ∃ address : Nat, ((({} : Rig).load p).afterSteps 1).machine.registers.pc = address ∧
        p.MarksAt address "f") ∧
    ∃ src, Source.read? markedTwice.bytes = some src ∧ FaultyAt src.code 2 ∧
      ∃ e, (load "p" markedTwice).result = .error e := by
  constructor
  · have shape : Source.read? calledBefore.bytes = some
        { code := [[.text "JSR", .text "f"], [.text "STOP"], [.text "ROUTINE", .text "f"],
            [.text "END"]] } := by
      rfl
    have loaded : (load "p" calledBefore).result = .ok
        { name := "p", routines := Table.empty.insert "f" 2
          code := [⟨.call, some (.str "f"), none⟩, ⟨.stop, none, none⟩,
            ⟨.routine, some (.str "f"), none⟩, ⟨.ret, none, none⟩] } := by
      rfl
    have exact := (load_exact rfl shape).2.2 _ loaded
    obtain ⟨n, address, named, pc, marked⟩ := exact.2.2.2 {} _
      (Rig.isRun_afterSteps (({} : Rig).load _)) rfl 0 ⟨.call, some (.str "f"), none⟩
      rfl rfl (fun e failed => nomatch failed)
    obtain rfl := Except.ok.inj named
    exact ⟨_, _, shape, loaded, address, pc, marked⟩
  · have shape : Source.read? markedTwice.bytes = some
        { code := [[.text "ROUTINE", .text "f"], [.text "END"],
            [.text "ROUTINE", .text "f"]] } := by
      rfl
    have names : Names [.text "ROUTINE", .text "f"] "f" := ⟨_, _, rfl, rfl⟩
    have faulty : FaultyAt [[.text "ROUTINE", .text "f"], [.text "END"],
        [.text "ROUTINE", .text "f"]] 2 := ⟨_, rfl, .repeated names (by simp) names⟩
    exact ⟨_, shape, faulty, (load_exact rfl shape).1.mpr ⟨2, faulty⟩⟩

end Assembly

end Lightboard
