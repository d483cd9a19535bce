import Lightboard.Assembly.Printer
import Lightboard.Proofs.Assembly.Operands

/-!
# Printed programs are sources

The text of a program is a document with a name and an array of rows, one for each instruction on a
line of its own. Reading it as a source gives the name and the rows, and each row is read as its
instruction.
-/

namespace Lightboard

namespace Instruction

/-- The instructions that assembly text has a notation for: a mnemonic, and operands of which the
second does not stand alone. -/
structure HasNotation (i : Instruction) : Prop where
  named : i.op ∈ OpCode.named
  operands : ∀ v ∈ i.operands, v.HasNotation
  first : i.first = none → i.second = none

/-- The instruction without the signs of zeros. -/
def settled (i : Instruction) : Instruction :=
  { i with first := i.first.map Value.settled, second := i.second.map Value.settled }

end Instruction

namespace Assembly

open Toml

theorem mnemonic_of_named {op : OpCode} (named : op ∈ OpCode.named) :
    ∃ m, op.mnemonic? = some m := by
  cases op with
  | unnamed past => exact absurd named (by simp [OpCode.named])
  | _ => exact ⟨_, rfl⟩

theorem isUtf8_mnemonic {op : OpCode} {m : String} (h : op.mnemonic? = some m) : Text.IsUtf8 m := by
  cases op with
  | unnamed past => cases h
  | _ =>
      obtain rfl := Option.some.inj h
      exact Text.IsUtf8.ascii (by decide)

theorem writtenOperands_eq {i : Instruction} (h : i.HasNotation) :
    writtenOperands i = i.operands := by
  have := h.first
  obtain ⟨op, first, second⟩ := i
  cases first with
  | none =>
      obtain rfl : second = none := this rfl
      rfl
  | some a => cases second <;> rfl

/-- Operands are written as scalars that are read as the operands. -/
theorem operands_denote {vs : List Value} (h : ∀ v ∈ vs, v.HasNotation) :
    ∃ ss : List Scalar,
      List.Forall₂ (fun t v => Denotes t v 1) (vs.map Operand.write) (ss.map Scalar.term) ∧
      (ss.map Scalar.datum).mapM Operand.read = .ok (vs.map Value.settled) ∧
      ss.length = vs.length := by
  induction vs with
  | nil => exact ⟨[], .nil, rfl, rfl⟩
  | cons v vs ih =>
      obtain ⟨s, denotes, meaning⟩ := Operand.denotes_write (h v (by simp))
      obtain ⟨ss, rest, meanings, length⟩ := ih fun w mem => h w (by simp [mem])
      refine ⟨s :: ss, .cons denotes rest, ?_, by simp [length]⟩
      rw [List.map_cons, List.mapM_cons, meaning]
      simp only [bind, Except.bind, meanings]
      rfl

/-- The comment behind an instruction, up to the end of its line. -/
def comment (index : Nat) : Text := Text.concat [" # ", Text.ofNat index, "\n"]

/-- An instruction is written as a row that is read as the instruction. -/
theorem line_denotes {i : Instruction} (h : i.HasNotation) (index : Nat) :
    ∃ t row, line? i index = some (ascii ' ' :: ascii ' ' :: (t ++ ascii ',' :: comment index)) ∧
      Denotes t (rowTerm row) 5 ∧ readInstruction (row.map Scalar.datum) = .ok i.settled := by
  obtain ⟨m, mnemonic⟩ := mnemonic_of_named h.named
  obtain ⟨ss, operands, meanings, length⟩ := operands_denote h.operands
  have few : i.operands.length ≤ 2 := List.length_filterMap_le _ _
  have name := denotes_quote m
  rw [(Text.repaired_eq_iff m).2 (isUtf8_mnemonic mnemonic)] at name
  have row := denotes_row name operands
  refine ⟨_, .text m :: ss, ?_, ⟨row.begins, row.clean, fun enough after => row.reads ?_ after⟩, ?_⟩
  · rw [line?, mnemonic, writtenOperands_eq h]
    have front : Text.ofString "  [" = [ascii ' ', ascii ' ', ascii '['] := rfl
    have comma : Text.ofString ", " = [ascii ',', ascii ' '] := rfl
    have back : Text.ofString "], # " = ascii ']' :: ascii ',' :: Text.ofString " # " := rfl
    change some _ = some _
    simp only [Text.concat, comment, List.flatMap_map, List.flatten_cons, List.flatten_nil,
      List.append_nil, front, comma, back, List.cons_append, List.nil_append, List.append_assoc]
  · rw [List.length_map]
    omega
  · have bound : ¬ 2 < (ss.map Scalar.datum).length := by
      rw [List.length_map]
      omega
    change (if 2 < (ss.map Scalar.datum).length then _ else _) = _
    rw [if_neg bound]
    simp only [OpCode.ofMnemonic?_mnemonic mnemonic, meanings]
    have first := h.first
    obtain ⟨op, first', second⟩ := i
    cases first' with
    | none =>
        obtain rfl : second = none := first rfl
        rfl
    | some a => cases second <;> rfl

/-- What may stand before a line, or before the closing bracket. -/
def IsMargin (g : Text) : Prop := Gap g ∧ Gap (g ++ [ascii ' ', ascii ' '])

theorem isMargin_newline : IsMargin [ascii '\n'] := ⟨gap_white (by decide), gap_white (by decide)⟩

theorem isMargin_comment (index : Nat) : IsMargin (comment index) := by
  have inside : ∀ b ∈ ascii ' ' :: Text.ofNat index, isLineEnd b = false := by
    intro b mem
    obtain rfl | mem := List.mem_cons.1 mem
    · rfl
    · have digit := Text.isDigit_of_mem_ofNat index b mem
      have feed : b ≠ ascii '\n' := Text.ne_of_isDigit digit rfl
      have ret : b ≠ ascii '\r' := Text.ne_of_isDigit digit rfl
      simp [isLineEnd, feed, ret]
  have text : comment index = [ascii ' '] ++ ascii '#' :: (ascii ' ' :: Text.ofNat index) ++
    [ascii '\n'] := by
    simp only [comment, Text.concat, List.flatten_cons, List.flatten_nil, List.append_nil]
    rfl
  constructor
  · rw [text]
    exact gap_comment (by decide) inside (by decide) rfl
  · rw [text, List.append_assoc _ [ascii '\n']]
    exact gap_comment (by decide) inside (by decide) rfl

theorem isClean_comment (index : Nat) : IsClean (comment index) := by
  have number : IsCleanAscii (Text.ofNat index) := by
    intro b mem
    have := (Text.isDigit_iff b).1 (Text.isDigit_of_mem_ofNat index b mem)
    exact .inr (by omega)
  simp only [comment, Text.concat, List.flatten_cons, List.flatten_nil, List.append_nil]
  exact .append (.bytes (by decide)) (.append (.bytes number) (.bytes (by decide)))

/-- A row that is read as an instruction, but for the signs of zeros. -/
def Means (i : Instruction) (row : List Scalar) : Prop :=
  readInstruction (row.map Scalar.datum) = .ok i.settled

/-- The lines of a program, and the rows they are read as. -/
structure Prints (code : List Instruction) (text : Text) (rows : List (List Scalar)) : Prop where
  clean : IsClean text
  reads : ∀ {fuel : Nat} {g : Text} (tail : Text), IsMargin g → text.length < fuel →
    readItems fuel (g ++ (text ++ ascii ']' :: tail)) = some (.array (rows.map rowTerm), tail)
  meanings : List.Forall₂ Means code rows

theorem lines_print {code : List Instruction} (h : ∀ i ∈ code, i.HasNotation) (index : Nat) :
    ∃ lines rows, ((code.zipIdx index).mapM fun (i, n) => line? i n) = some lines ∧
      Prints code (Text.concat lines) rows := by
  induction code generalizing index with
  | nil =>
      refine ⟨[], [], rfl, .nil, fun tail margin enough => ?_, .nil⟩
      rename_i fuel g
      obtain ⟨fuel, rfl⟩ : ∃ n, fuel = n + 1 := ⟨fuel - 1, by omega⟩
      exact readItems_close margin.1 fuel tail
  | cons i code ih =>
      obtain ⟨t, row, line, denotes, meaning⟩ := line_denotes (h i (by simp)) index
      obtain ⟨lines, rows, more, prints⟩ := ih (fun j mem => h j (by simp [mem])) (index + 1)
      refine ⟨(ascii ' ' :: ascii ' ' :: (t ++ ascii ',' :: comment index)) :: lines,
        row :: rows, ?_, ?_, ?_, .cons meaning prints.meanings⟩
      · rw [List.zipIdx_cons, List.mapM_cons]
        simp only [line, more, Option.bind_eq_bind, Option.bind_some]
        rfl
      · have margin : IsClean [ascii ' ', ascii ' '] := .bytes (by decide)
        have comma : IsClean [ascii ','] := .bytes (by decide)
        have line := margin.append (denotes.clean.append (comma.append (isClean_comment index)))
        exact line.append prints.clean
      · intro fuel g tail margin enough
        have behind : 4 ≤ (comment index).length := by
          simp only [comment, Text.concat, List.flatten_cons, List.flatten_nil, List.length_append]
          change 4 ≤ 3 + (_ + (1 + 0))
          omega
        simp only [Text.concat, List.flatten_cons, List.length_append, List.length_cons] at enough
        obtain ⟨fuel, rfl⟩ : ∃ n, fuel = n + 1 := ⟨fuel - 1, by omega⟩
        have rest := @prints.reads fuel _ tail (isMargin_comment index)
          (by simp only [Text.concat]; omega)
        have item := readItems_item margin.2 denotes (by omega) rest
        have same : g ++ (Text.concat
            ((ascii ' ' :: ascii ' ' :: (t ++ ascii ',' :: comment index)) :: lines) ++
            ascii ']' :: tail) = g ++ [ascii ' ', ascii ' '] ++ (t ++ ascii ',' :: (comment index ++
              (Text.concat lines ++ ascii ']' :: tail))) := by
          simp [Text.concat]
        rw [same]
        exact item

theorem readTerm_blank (fuel : Nat) (t : Text) :
    readTerm (fuel + 1) (ascii ' ' :: t) = readTerm (fuel + 1) t := rfl

/-- The statement that gives a program its name. -/
theorem readStatement_name (name : Text) {tail : Text} (other : tail.head? ≠ some (ascii '"')) :
    readStatement (("name = " : Text) ++ (Operand.quote name ++ tail)) =
      some (.assign [("name" : Text)] (.text name.repaired), tail) := by
  have assigned : readAssigned (("name = " : Text) ++ (Operand.quote name ++ tail)) =
      some ([("name" : Text)], ascii ' ' :: (Operand.quote name ++ tail)) := rfl
  have term : readTerm (ascii ' ' :: (Operand.quote name ++ tail)).length
      (ascii ' ' :: (Operand.quote name ++ tail)) = some (.text name.repaired, tail) := by
    rw [List.length_cons, readTerm_blank,
      readTerm_of_isBasicString (Operand.isBasicString_quote name) other]
  change (readAssigned (("name = " : Text) ++ (Operand.quote name ++ tail)) >>= fun key =>
    readTerm key.2.length key.2 >>= fun value =>
      some (Statement.assign key.1 value.1, value.2)) = _
  simp only [assigned, term, Option.bind_eq_bind, Option.bind_some]

/-- The statement that gives a program its code. -/
theorem readStatement_code {code : List Instruction} {text : Text} {rows : List (List Scalar)}
    (prints : Prints code text rows) (tail : Text) :
    readStatement (("code = [\n" : Text) ++ (text ++ ascii ']' :: tail)) =
      some (.assign [("code" : Text)] (.array (rows.map rowTerm)), tail) := by
  have assigned : readAssigned (("code = [\n" : Text) ++ (text ++ ascii ']' :: tail)) =
      some ([("code" : Text)],
        ascii ' ' :: ascii '[' :: ascii '\n' :: (text ++ ascii ']' :: tail)) := rfl
  have enough : text.length < (ascii '[' :: ascii '\n' :: (text ++ ascii ']' :: tail)).length := by
    simp only [List.length_cons, List.length_append]
    omega
  have items := prints.reads tail isMargin_newline enough
  have term : readTerm (ascii ' ' :: ascii '[' :: ascii '\n' :: (text ++ ascii ']' :: tail)).length
      (ascii ' ' :: ascii '[' :: ascii '\n' :: (text ++ ascii ']' :: tail)) =
        some (.array (rows.map rowTerm), tail) := items
  change (readAssigned (("code = [\n" : Text) ++ (text ++ ascii ']' :: tail)) >>= fun key =>
    readTerm key.2.length key.2 >>= fun value =>
      some (Statement.assign key.1 value.1, value.2)) = _
  simp only [assigned, term, Option.bind_eq_bind, Option.bind_some]

/-- A statement on a line of its own. -/
theorem readStatements_cons {t u rest : Text} {b : UInt8} {s : Statement}
    (skip : skipBlank t.length t = b :: u)
    (statement : readStatement (b :: u) = some (s, ascii '\n' :: rest))
    (fuel : Nat) :
    readStatements (fuel + 1) t = (readStatements fuel (ascii '\n' :: rest)).map (s :: ·) := by
  have line : readLineEnd (ascii '\n' :: rest) = some ((), ascii '\n' :: rest) := rfl
  simp only [readStatements, skip, List.isEmpty_cons, Bool.false_eq_true, if_false, statement, line,
    Option.bind_eq_bind, Option.bind_some]
  cases readStatements fuel (ascii '\n' :: rest) <;> rfl

/-- The statement of the code with given lines. -/
def codeText (body : Text) : Text := ("code = [\n" : Text) ++ (body ++ ("]\n" : Text))

/-- The text of a program with given lines. -/
def sourceText (name body : Text) : Text :=
  ("name = " : Text) ++ (Operand.quote name ++ ascii '\n' :: codeText body)

/-- The text of a program is a document of its name and rows. -/
theorem parse_sourceText {code : List Instruction} {body : Text} {rows : List (List Scalar)}
    (prints : Prints code body rows) (name : Text) :
    parse (sourceText name body) =
      some [.assign [("name" : Text)] (.text name.repaired),
        .assign [("code" : Text)] (.array (rows.map rowTerm))] := by
  have clean : IsClean (sourceText name body) :=
    .append (.bytes (by decide)) ((isClean_of_isBasicString (Operand.isBasicString_quote name)).append
      (.append (.bytes (by decide : IsCleanAscii "\ncode = [\n"))
        (prints.clean.append (.bytes (by decide)))))
  have first : readStatement (sourceText name body) =
      some (.assign [("name" : Text)] (.text name.repaired), ascii '\n' :: codeText body) := by
    refine readStatement_name name ?_
    exact fun same => absurd (Option.some.inj same) (by decide)
  have second : readStatement (codeText body) =
      some (.assign [("code" : Text)] (.array (rows.map rowTerm)), [ascii '\n']) :=
    readStatement_code prints [ascii '\n']
  have skip : skipBlank (sourceText name body).length (sourceText name body) =
    sourceText name body :=
    skipBlank_of_endsGap (by decide) _ _
  have skip' : skipBlank (ascii '\n' :: codeText body).length (ascii '\n' :: codeText body) =
    codeText body :=
    isMargin_newline.1 (ascii 'c') _ (by decide)
  have parsed : parse (sourceText name body) = readStatements ((sourceText name body).length + 1)
      (sourceText name body) := parse_of_isClean (by decide) clean
  obtain ⟨fuel, same⟩ : ∃ fuel, (sourceText name body).length = fuel + 2 := by
    refine ⟨(sourceText name body).length - 2, ?_⟩
    have : 7 ≤ (sourceText name body).length := by
      rw [sourceText, List.length_append]
      exact Nat.le_add_right 7 _
    omega
  have last : readStatements (fuel + 1) [ascii '\n'] = some [] := rfl
  rw [parsed, same, readStatements_cons skip first, readStatements_cons skip' second, last]
  rfl

theorem rows?_rowDatum (rows : List (List Scalar)) :
    Source.rows? (.list (rows.map rowDatum)) = some (rows.map (·.map Scalar.datum)) := by
  unfold Source.rows?
  induction rows with
  | nil => rfl
  | cons row rows ih =>
      simp only at ih
      simp only [List.map_cons, List.mapM_cons, ih, rowDatum, Option.bind_eq_bind, Option.bind_some]
      rfl

/-- Every program whose instructions have a notation is printed, and its text is read as a source
with its name and rows for its instructions. -/
theorem print?_source {p : Program} (h : ∀ i ∈ p.code, i.HasNotation) :
    ∃ text rows, print? p = some text ∧
      Source.read? text = some { name := p.name.repaired, code := rows.map (·.map Scalar.datum) } ∧
      List.Forall₂ Means p.code rows := by
  obtain ⟨lines, rows, printed, prints⟩ := lines_print h 0
  refine ⟨sourceText p.name (Text.concat lines), rows, ?_, ?_, prints.meanings⟩
  · unfold print?
    simp only [printed, Option.bind_eq_bind, Option.bind_some]
    change some _ = some _
    simp only [Text.concat, List.flatten_cons, List.flatten_nil, List.append_nil]
    rfl
  · have document : Document.read (sourceText p.name (Text.concat lines)) = some
        ⟨[(("name" : Text), .text p.name.repaired), (("code" : Text), .list (rows.map rowDatum))],
          [[("name" : Text)], [("code" : Text)]]⟩ := by
      unfold Document.read
      rw [parse_sourceText prints]
      exact ofStatements_source _ _
    have name : fieldOf? Source.fields ("name" : Text) =
        some ⟨"name", .text fun s t => { s with name := t }⟩ := rfl
    have code : fieldOf? Source.fields ("code" : Text) =
        some ⟨"code", fun s _ d => (Source.rows? d).map fun rows =>
          ({ s with code := rows }, [])⟩ := rfl
    unfold Source.read?
    simp only [document, Document.readOver, Entries.readOver, name, code, Update.text,
      rows?_rowDatum, Option.bind_eq_bind, Option.bind_some, Option.map_some]
    rfl

end Assembly

end Lightboard
