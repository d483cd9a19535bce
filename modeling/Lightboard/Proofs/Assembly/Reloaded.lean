import Lightboard.Proofs.Assembly.Printed
import Lightboard.Proofs.Toml.Documents

/-!
# Printed programs load again

A program loaded from assembly text has a notation for each of its instructions, since the texts in
a document are UTF-8. So it can be printed, and its text loads as a program with the same routines
and instructions.

Two things are lost on the way. A zero with a sign comes back without it, so its line is another
one, and stray bytes in a name given from outside come back as replacement characters.
-/

namespace Lightboard

namespace Number

theorem le_of_word? {m n : Int} (h : word? m = some n) : n ≤ greatestWord := by
  rw [word?] at h
  split at h
  · next fits =>
    cases h
    exact fits.2
  · cases h

theorem le_of_readInteger? {t : Text} {n : Int} (h : readInteger? t = some n) :
    n ≤ greatestWord := by
  simp only [readInteger?] at h
  split at h
  · cases h
  · obtain ⟨m, -, h⟩ := Option.bind_eq_some_iff.1 h
    exact le_of_word? h

theorem le_of_readLenientInteger? {t : Text} {n : Int} (h : readLenientInteger? t = some n) :
    n ≤ greatestWord := by
  simp only [readLenientInteger?] at h
  split at h
  · cases h
    decide
  · split at h
    · exact le_of_readInteger? h
    · exact le_of_readInteger? h

end Number

namespace Assembly

open Toml

theorem ofTag?_hasNotation {t : Text} {v : Value} (h : Value.ofTag? t = some v) :
    v.HasNotation := by
  obtain rfl | ⟨o, named, rfl⟩ | ⟨c, named, rfl⟩ | ⟨o, named, rfl⟩ | ⟨m, named, rfl⟩ |
    ⟨o, named, rfl⟩ | ⟨o, named, rfl⟩ := ofTag?_cases h
  · trivial
  all_goals exact named

theorem readWord_hasNotation {word : Text} {v : Value} (utf8 : word.IsUtf8)
    (h : Operand.readWord word = .ok v) :
    v.HasNotation := by
  have named := readWord_isNamed h
  cases word with
  | nil =>
      cases h
      exact utf8
  | cons sigil rest =>
      have tail : ∀ c : Char, (ascii c).toNat < 128 → sigil = ascii c → Text.IsUtf8 rest := by
        rintro c small rfl
        exact utf8.tail small
      simp only [Operand.readWord] at h
      split at h
      · next same =>
        cases h
        exact tail _ (by decide) same
      · split at h
        · split at h
          · cases h
            exact named
          · cases h
        · split at h
          · next same =>
            split at h
            · cases h
            · next some =>
              cases h
              exact ⟨by simpa using some, tail _ (by decide) same⟩
          · split at h
            · split at h
              · next n read =>
                split at h
                · cases h
                · next positive =>
                  cases h
                  exact ⟨by omega, Number.le_of_readLenientInteger? read⟩
              · cases h
            · split at h
              · split at h
                · next tag =>
                  cases h
                  exact ofTag?_hasNotation tag
                · cases h
              · split at h
                · split at h
                  · next read =>
                    cases h
                    exact TimePattern.ne_empty_of_read read
                  · cases h
                · cases h
                  exact utf8

theorem read_hasNotation {d : Datum} {v : Value} (utf8 : d.IsUtf8) (h : Operand.read d = .ok v) :
    v.HasNotation := by
  cases utf8 with
  | text ht => exact readWord_hasNotation ht h
  | integer n =>
      cases h
      trivial
  | float x =>
      cases h
      trivial
  | boolean b =>
      cases h
      trivial
  | moment m => cases h
  | list all => cases h
  | table es => cases h
  | tables items => cases h

theorem readInstruction_hasNotation {raw : List Datum} {i : Instruction}
    (utf8 : ∀ d ∈ raw, d.IsUtf8)
    (h : readInstruction raw = .ok i) : i.HasNotation := by
  obtain ⟨head, operands, vs, -, named, -, first, second⟩ := readInstruction_ok h
  refine ⟨named, readInstruction_operands h fun d mem v => read_hasNotation (utf8 d mem),
    fun none => ?_⟩
  rw [first] at none
  rw [second]
  exact List.getElem?_eq_none (Nat.le_succ_of_le (List.getElem?_eq_none_iff.1 none))

/-- A source whose entries have texts in UTF-8. -/
def Source.IsUtf8 (src : Source) : Prop := ∀ row ∈ src.code, ∀ d ∈ row, d.IsUtf8

theorem rows?_utf8 {d : Datum} {rows : List (List Datum)} (utf8 : d.IsUtf8)
    (h : Source.rows? d = some rows) :
    ∀ row ∈ rows, ∀ d ∈ row, d.IsUtf8 := by
  cases utf8 with
  | @list items all =>
      rw [Source.rows?] at h
      induction items generalizing rows with
      | nil =>
          cases h
          simp
      | cons item items ih =>
          rw [List.mapM_cons] at h
          obtain ⟨row, first, h⟩ := Option.bind_eq_some_iff.1 h
          obtain ⟨rows, more, h⟩ := Option.bind_eq_some_iff.1 h
          cases h
          obtain ⟨hitem, rest⟩ := List.forall_mem_cons.1 all
          cases hitem with
          | list inside =>
              cases first
              exact List.forall_mem_cons.2 ⟨inside, ih rest more⟩
          | _ => cases first
  | _ => cases h

theorem readOver_utf8 {es : Entries} (utf8 : es.IsUtf8) {path : Path} {s s' : Source}
    {used : List Path}
    (h : es.readOver Source.fields path s = some (s', used)) (hs : s.IsUtf8) : s'.IsUtf8 := by
  induction es generalizing s used with
  | nil =>
      cases h
      exact hs
  | cons e es ih =>
      obtain ⟨key, d⟩ := e
      obtain ⟨hd, rest⟩ := List.forall_mem_cons.1 utf8
      rw [Entries.readOver] at h
      split at h
      · exact ih rest h hs
      · next f found =>
        obtain ⟨⟨s₁, inside⟩, updated, h⟩ := Option.bind_eq_some_iff.1 h
        obtain ⟨⟨s₂, later⟩, more, h⟩ := Option.bind_eq_some_iff.1 h
        cases h
        refine ih rest more ?_
        have field := List.mem_of_find?_eq_some found
        simp only [Source.fields, List.mem_cons, List.not_mem_nil, or_false] at field
        obtain rfl | rfl := field
        · cases d with
          | text t =>
              cases updated
              exact hs
          | _ => cases updated
        · obtain ⟨rows, shape, same⟩ := Option.map_eq_some_iff.1 updated
          cases same
          exact rows?_utf8 hd shape

theorem read?_utf8 {t : Text} {src : Source} (h : Source.read? t = some src) : src.IsUtf8 := by
  obtain ⟨doc, document, h⟩ := Option.bind_eq_some_iff.1 h
  obtain ⟨⟨s, unknown⟩, whole, h⟩ := Option.bind_eq_some_iff.1 h
  obtain ⟨⟨s', used⟩, fields, same⟩ := Option.map_eq_some_iff.1 whole
  cases same
  cases h
  refine @readOver_utf8 _ (Document.isUtf8_root document) _ _ s used fields ?_
  exact fun row mem => absurd mem List.not_mem_nil

/-- Each instruction of a loaded program has a notation. -/
theorem load_hasNotation {name : Text} {s : Stream} {p : Program}
    (h : (load name s).result = .ok p) :
    ∀ i ∈ p.code, i.HasNotation := by
  obtain ⟨src, read, -, coded⟩ := load_ok h
  have utf8 := read?_utf8 read
  exact readCode_forall coded fun raw mem i => readInstruction_hasNotation (utf8 raw mem)

theorem enterRoutine_settled (table : Table Text Int) (index : Nat) (i : Instruction) :
    enterRoutine table index i.settled = enterRoutine table index i := by
  obtain ⟨op, first, second⟩ := i
  cases first with
  | none => rfl
  | some v => cases v <;> rfl

/-- Rows that mean the instructions of some code enter the same routines as the entries it was read
from. -/
theorem readCode_rows {raws : List (List Datum)} {code : List Instruction}
    {rows : List (List Scalar)} {table table' : Table Text Int} {index : Nat}
    (h : readCode table index raws = .ok (code, table'))
    (means : List.Forall₂ Means code rows) :
    readCode table index (rows.map (·.map Scalar.datum)) =
      .ok (code.map Instruction.settled, table') := by
  induction raws generalizing table index code rows with
  | nil =>
      cases h
      cases means
      rfl
  | cons raw raws ih =>
      unfold readCode at h
      split at h
      · cases h
      · split at h
        · cases h
        · next entered =>
          split at h
          · cases h
          · next rest =>
            cases h
            cases means with
            | @cons _ row _ rows first more =>
                rw [List.map_cons, readCode,
                  show readInstruction (row.map Scalar.datum) = _ from first]
                simp only [enterRoutine_settled, entered, ih rest more]
                rfl

end Assembly

namespace Value

/-- Whether a value is the zero with a minus sign. -/
def isNegativeZero : Value → Bool
  | .number x => decide (Number.IsNegativeZero x)
  | _ => false

theorem settled_of_not {v : Value} (h : v.isNegativeZero = false) : v.settled = v := by
  cases v with
  | number x => exact congrArg number (if_neg (of_decide_eq_false h))
  | _ => rfl

/-- A zero loses its sign, and nothing else is written shorter. -/
theorem length_listed (v : Value) :
    v.listed.length = v.settled.listed.length + if v.isNegativeZero then 1 else 0 := by
  cases zero : v.isNegativeZero with
  | false => simp [settled_of_not zero]
  | true =>
      cases v with
      | number x =>
          have negative : Number.exact x = .finite true 0 (-1074) := of_decide_eq_true zero
          have written : Number.plain x = [ascii '-', ascii '0'] := by
            rw [Number.plain, Number.numeral, negative]
            rfl
          have settled : Number.settled x = Number.ofInt 0 := if_pos negative
          change (Number.plain x).length = (Number.plain (Number.settled x)).length + 1
          rw [written, settled]
          rfl
      | _ => cases zero

end Value

namespace Instruction

/-- An instruction without a signed zero. -/
def IsSettled (i : Instruction) : Prop := ∀ v ∈ i.operands, v.isNegativeZero = false

theorem operands_settled (i : Instruction) : i.settled.operands = i.operands.map Value.settled := by
  obtain ⟨op, first, second⟩ := i
  cases first <;> cases second <;> rfl

theorem settled_of_isSettled {i : Instruction} (h : i.IsSettled) : i.settled = i := by
  obtain ⟨op, first, second⟩ := i
  have slot : ∀ s : Slot, (∀ v, s = some v → v.isNegativeZero = false) →
    s.map Value.settled = s := by
    intro s plain
    cases s with
    | none => rfl
    | some v => exact congrArg some (Value.settled_of_not (plain v rfl))
  have one : first.map Value.settled = first := by
    refine slot first fun v same => h v ?_
    simp [operands, same]
  have two : second.map Value.settled = second := by
    refine slot second fun v same => h v ?_
    simp [operands, same]
  change Instruction.mk op (first.map Value.settled) (second.map Value.settled) = _
  rw [one, two]

theorem length_operands (vs : List Value) :
    (vs.flatMap fun v => ascii ' ' :: v.listed).length =
      ((vs.map Value.settled).flatMap fun v => ascii ' ' :: v.listed).length +
        vs.countP Value.isNegativeZero := by
  induction vs with
  | nil => rfl
  | cons v vs ih =>
      have first := v.length_listed
      simp only [List.map_cons, List.flatMap_cons, List.length_append, List.length_cons,
        List.countP_cons]
      omega

/-- The line of an instruction stays the same just if no zero in it has a sign. -/
theorem line?_settled_iff {i : Instruction} (named : i.op ∈ OpCode.named) :
    i.settled.line? = i.line? ↔ i.IsSettled := by
  constructor
  · intro same
    obtain ⟨m, mnemonic⟩ := Assembly.mnemonic_of_named named
    have op : i.settled.op.mnemonic? = some m := mnemonic
    have written := length_operands i.operands
    rw [line?, line?, op, mnemonic, operands_settled] at same
    have behind := List.append_cancel_left (Option.some.inj same)
    rw [behind] at written
    have none : i.operands.countP Value.isNegativeZero = 0 := by omega
    intro v mem
    exact Bool.eq_false_iff.2 (List.countP_eq_zero.1 none v mem)
  · intro settled
    rw [settled_of_isSettled settled]

end Instruction

namespace Program

theorem lines?_of_named {code : List Instruction} (named : ∀ i ∈ code, i.op ∈ OpCode.named) :
    ∃ ls, code.mapM Instruction.line? = some ls := by
  induction code with
  | nil => exact ⟨[], rfl⟩
  | cons i code ih =>
      obtain ⟨first, rest⟩ := List.forall_mem_cons.1 named
      obtain ⟨m, mnemonic⟩ := Assembly.mnemonic_of_named first
      obtain ⟨ls, lines⟩ := ih rest
      obtain ⟨l, line⟩ : ∃ l, i.line? = some l := ⟨_, by rw [Instruction.line?, mnemonic]; rfl⟩
      exact ⟨l :: ls, by simp [List.mapM_cons, line, lines]⟩

theorem fingerprint?_of_named {p : Program} (named : ∀ i ∈ p.code, i.op ∈ OpCode.named) :
    ∃ h, p.fingerprint? = some h := by
  obtain ⟨ls, lines⟩ := lines?_of_named named
  refine ⟨Hash64.hash (ls.flatMap (· ++ [ascii '\n'])), ?_⟩
  rw [fingerprint?, canonical?, lines?, lines]
  rfl

end Program

namespace Assembly

/-- A loaded program with a name is printed, and its text is loaded under any name for messages as a
program with the same routines and instructions. Its name is the same just if that is UTF-8, and the
line of an instruction is the same just if no zero in it has a sign; without signed zeros the
fingerprint is the same. -/
theorem print?_loads_back {name : Text} {s : Stream} {p : Program}
    (loaded : (load name s).result = .ok p)
    (own : p.name ≠ []) (again : Text) (medium : Pack.Medium) :
    ∃ text q, print? p = some text ∧
      (load again { bytes := text, medium := medium }).result = .ok q ∧
      q.name = p.name.repaired ∧ (q.name = p.name ↔ p.name.IsUtf8) ∧ q.routines = p.routines ∧
      q.code = p.code.map Instruction.settled ∧
      List.Forall₂ (fun i j => j.line? = i.line? ↔ i.IsSettled) p.code q.code ∧
      ((∀ i ∈ p.code, i.IsSettled) → ∃ h, p.fingerprint? = some h ∧ q.fingerprint? = some h) := by
  have written := load_hasNotation loaded
  have named : ∀ i ∈ p.code, i.op ∈ OpCode.named := fun i mem => (written i mem).named
  obtain ⟨text, rows, printed, read, means⟩ := print?_source written
  obtain ⟨src, -, -, coded⟩ := load_ok loaded
  have code := readCode_rows coded means
  refine ⟨text, ⟨p.name.repaired, p.code.map Instruction.settled, p.routines⟩, printed, ?_, rfl,
    Text.repaired_eq_iff p.name, rfl, rfl, ?_, ?_⟩
  · have some : p.name.repaired.isEmpty = false := by simpa using Text.repaired_ne_nil own
    simp only [load, read, loadSource, code, some]
    rfl
  · rw [List.forall₂_map_right_iff, List.forall₂_same]
    exact fun i mem => Instruction.line?_settled_iff (named i mem)
  · intro settled
    obtain ⟨h, print⟩ := Program.fingerprint?_of_named named
    have same : p.code.map Instruction.settled = p.code := by
      rw [List.map_congr_left fun i mem => Instruction.settled_of_isSettled (settled i mem),
        List.map_id']
    refine ⟨h, print, ?_⟩
    rw [same]
    exact print

/-- A program that pushes the zero with a sign. -/
def signedZero : Program :=
  { name := "z", routines := Table.empty
    code := [⟨.pushLiteral, some (.number (Number.nearest true 0 1)), none⟩] }

theorem signedZero_comes_back_unsigned :
    (load "x" { bytes := "name = \"z\"\ncode = [[\"PUSHQ\", -0.0]]\n" }).result = .ok signedZero ∧
      ∃ text q, print? signedZero = some text ∧ (load "x" { bytes := text }).result = .ok q ∧
        q.name = signedZero.name ∧ q.routines = signedZero.routines ∧
          q.fingerprint? ≠ signedZero.fingerprint? := by
  have loaded : (load "x" { bytes := "name = \"z\"\ncode = [[\"PUSHQ\", -0.0]]\n" }).result =
    .ok signedZero := by
    rfl
  refine ⟨loaded, ?_⟩
  obtain ⟨text, q, printed, again, -, named, routines, code, -⟩ :=
    print?_loads_back loaded (by decide) "x" .memory
  refine ⟨text, q, printed, again, named.2 ⟨['z'], rfl⟩, routines, ?_⟩
  rw [Program.fingerprint?, Program.canonical?, Program.lines?, code]
  decide +kernel

end Assembly

end Lightboard
