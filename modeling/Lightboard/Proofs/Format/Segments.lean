import Lightboard.Machine.Output
import Lightboard.Proofs.Number.Integers
import Lightboard.Proofs.Number.Numerals

/-!
# Templates by their segments

A template is put together from segments: texts that stand for themselves, and fields. Written down, the
braces of the texts are doubled and the fields stand between single braces. Both kinds of braces can
meet: a text that ends in a brace may stand before a field, and one that begins with a brace after it.

`pieces_written` shows that a template is nevertheless cut where its segments meet, and `render_written`
that it is rendered segment by segment, on every machine.
-/

namespace Lightboard

theorem Number.readDecimalInteger?_ofInt {n : Int} (fits : FitsWord n) :
    readDecimalInteger? (Text.ofInt n) = some n := by
  obtain ⟨b, t, same, -⟩ := Text.ofNat_leading n.natAbs
  have digits := Text.isDigit_of_mem_ofNat n.natAbs
  have read : Text.readDigits? 10 (Text.ofNat n.natAbs) = some n.natAbs := by
    rw [Text.readDigits?_eq digits, Text.value_ofNat]
  have nonempty : (Text.ofNat n.natAbs).isEmpty = false := by simp [same]
  have all : (Text.ofNat n.natAbs).all Text.isDigit = true := List.all_eq_true.mpr digits
  have sign : splitSign (Text.ofInt n) = (decide (n < 0), Text.ofNat n.natAbs) := by
    by_cases below : n < 0
    · rw [Text.ofInt, if_pos below, decide_eq_true below]
      rfl
    · rw [Text.ofInt, if_neg below, decide_eq_false below, same,
        splitSign_of_digit (digits b (by simp [same]))]
  have signed : (if n < 0 then -(n.natAbs : Int) else n.natAbs) = n := by
    split <;> omega
  simp only [readDecimalInteger?, sign, nonempty, all, read, Bool.not_true, Bool.or_self,
    Bool.false_eq_true, if_false, Option.bind_eq_bind, Option.bind_some, decide_eq_true_eq, signed]
  exact if_pos fits

namespace Format

namespace Target

/-- What stands for a target in a field: nothing for the next value, a numeral or a name. -/
def written : Target → Text
  | .next => []
  | .index n => Text.ofInt n
  | .name t => t

/-- A target that can be written in a field. A place is a word of 64 bits; a name must not look like
something else. -/
def IsWritable : Target → Prop
  | .next => True
  | .index n => Number.FitsWord n
  | .name t => t ≠ [] ∧ ascii ':' ∉ t ∧ closeBrace ∉ t ∧ t.head? ≠ some openBrace ∧
      Number.readDecimalInteger? t = none

instance (t : Target) : Decidable t.IsWritable :=
  match t with
  | .next => .isTrue trivial
  | .index n => inferInstanceAs (Decidable (Number.leastWord ≤ n ∧ n ≤ Number.greatestWord))
  | .name t => inferInstanceAs (Decidable (t ≠ [] ∧ ascii ':' ∉ t ∧ closeBrace ∉ t ∧
      t.head? ≠ some openBrace ∧ Number.readDecimalInteger? t = none))

end Target

/-- A field: what it stands for, and the instruction for rendering if there is one. -/
structure Field where
  target : Target
  spec : Option Text
  writable : target.IsWritable
  closed : ∀ s ∈ spec, closeBrace ∉ s

/-- What stands between the braces of a field. -/
def Field.inside (f : Field) : Text := f.target.written ++ f.spec.elim [] (ascii ':' :: ·)

/-- A part of a template: a text that stands for itself, or a field. -/
inductive Segment where
  | literal (t : Text)
  | field (f : Field)

/-- A text with every brace written twice. -/
def doubled (t : Text) : Text :=
  t.flatMap fun b => if b = openBrace ∨ b = closeBrace then [b, b] else [b]

namespace Segment

def written : Segment → Text
  | .literal t => doubled t
  | .field f => openBrace :: (f.inside ++ [closeBrace])

/-- The pieces that the segment is to be cut into. -/
def pieces : Segment → List Piece
  | .literal t => t.map .byte
  | .field f => [.field f.inside]

/-- Whether the segment takes the next buffered value. -/
def takesNext : Segment → Bool
  | .literal _ => false
  | .field f => f.target == .next

end Segment

/-- The template that segments make. -/
def written (segments : List Segment) : Text := segments.flatMap Segment.written

theorem piecesFrom_skip (body rest : Text) :
    piecesFrom body.length (body ++ rest) = piecesFrom 0 rest := by
  induction body with
  | nil => rfl
  | cons b body ih => exact ih

theorem piecesFrom_plain {b : UInt8} (notClose : b ≠ closeBrace) (notOpen : b ≠ openBrace) (t : Text) :
    piecesFrom 0 (b :: t) = .byte b :: piecesFrom 0 t := by
  simp only [piecesFrom, if_neg notClose, if_neg notOpen]

theorem piecesFrom_twice {b : UInt8} (brace : b = openBrace ∨ b = closeBrace) (t : Text) :
    piecesFrom 0 (b :: b :: t) = .byte b :: piecesFrom 0 t := by
  obtain rfl | rfl := brace
  · rfl
  · rfl

/-- Doubled braces are cut into single ones, whatever follows. -/
theorem piecesFrom_doubled (t rest : Text) :
    piecesFrom 0 (doubled t ++ rest) = t.map .byte ++ piecesFrom 0 rest := by
  induction t with
  | nil => rfl
  | cons b t ih =>
      rw [doubled, List.flatMap_cons, List.append_assoc, ← doubled, List.map_cons, List.cons_append,
        ← ih]
      by_cases brace : b = openBrace ∨ b = closeBrace
      · rw [if_pos brace]
        exact piecesFrom_twice brace _
      · obtain ⟨notOpen, notClose⟩ := not_or.mp brace
        rw [if_neg brace]
        exact piecesFrom_plain notClose notOpen _

theorem openBrace_ne_closeBrace : openBrace ≠ closeBrace := by decide

/-- A field ends at the first closing brace. -/
theorem piecesFrom_field {inside : Text} (closed : closeBrace ∉ inside)
    (first : inside.head? ≠ some openBrace) (rest : Text) :
    piecesFrom 0 (openBrace :: (inside ++ closeBrace :: rest)) =
      .field inside :: piecesFrom 0 rest := by
  have single : (inside ++ closeBrace :: rest).head? ≠ some openBrace := by
    cases inside with
    | nil => exact fun h => openBrace_ne_closeBrace (Option.some.inj h).symm
    | cons b t => exact first
  have ends : (inside ++ closeBrace :: rest).contains closeBrace = true := by simp
  have taken : (inside ++ closeBrace :: rest).takeWhile (· != closeBrace) = inside := by
    rw [List.takeWhile_append_of_pos fun b mem => bne_iff_ne.mpr (ne_of_mem_of_not_mem mem closed)]
    simp
  have skipped : piecesFrom (inside.length + 1) (inside ++ closeBrace :: rest) = piecesFrom 0 rest := by
    have := piecesFrom_skip (inside ++ [closeBrace]) rest
    rwa [List.length_append, List.append_assoc] at this
  simp only [piecesFrom, if_neg openBrace_ne_closeBrace, if_neg single, ends, taken,
    skipped, if_true]

/-- A numeral has no bytes but digits and a sign. -/
theorem not_mem_ofInt {b : UInt8} (notDigit : Text.isDigit b = false) (notSign : b ≠ ascii '-')
    (n : Int) : b ∉ Text.ofInt n := by
  have notDigits : b ∉ Text.ofNat n.natAbs := fun mem =>
    Text.ne_of_isDigit (Text.isDigit_of_mem_ofNat _ b mem) notDigit rfl
  rw [Text.ofInt]
  split
  · simp [notSign, notDigits]
  · exact notDigits

theorem ofInt_ne_nil (n : Int) : Text.ofInt n ≠ [] := by
  obtain ⟨b, t, same, -⟩ := Text.ofNat_leading n.natAbs
  rw [Text.ofInt, same]
  split <;> simp

/-- The written form of a target does not run into the other parts of a field. -/
theorem Target.IsWritable.written_apart {t : Target} (h : t.IsWritable) :
    ascii ':' ∉ t.written ∧ closeBrace ∉ t.written ∧ t.written.head? ≠ some openBrace := by
  cases t with
  | next => simp [written]
  | index n =>
      refine ⟨not_mem_ofInt (by decide) (by decide) n, not_mem_ofInt (by decide) (by decide) n, ?_⟩
      intro first
      exact not_mem_ofInt (by decide) (by decide) n (List.mem_of_mem_head? first)
  | name t => exact ⟨h.2.1, h.2.2.1, h.2.2.2.1⟩

/-- A target is read back from its written form. -/
theorem target_written {t : Target} (h : t.IsWritable) : target t.written = t := by
  cases t with
  | next => rfl
  | index n =>
      rw [target, Target.written, if_neg (by simpa using ofInt_ne_nil n),
        Number.readDecimalInteger?_ofInt h]
  | name t =>
      obtain ⟨named, -, -, -, notNumeral⟩ := h
      rw [target, Target.written, if_neg (by simpa using named), notNumeral]

namespace Field

variable (f : Field)

theorem closeBrace_not_mem : closeBrace ∉ f.inside := by
  obtain ⟨-, closed, -⟩ := f.writable.written_apart
  have spec := f.closed
  rw [inside, List.mem_append, not_or]
  refine ⟨closed, ?_⟩
  cases given : f.spec with
  | none => simp
  | some s => simpa [show closeBrace ≠ ascii ':' by decide] using spec s given

theorem head_ne_openBrace : f.inside.head? ≠ some openBrace := by
  obtain ⟨-, -, first⟩ := f.writable.written_apart
  rw [inside, List.head?_append]
  cases begins : f.target.written.head? with
  | none =>
      cases f.spec with
      | none => simp
      | some s => exact fun h => absurd (Option.some.inj h) (by decide)
  | some b =>
      rw [begins] at first
      exact first

theorem cut_inside : Text.cut (ascii ':') f.inside = (f.target.written, f.spec.getD []) := by
  obtain ⟨noColon, -, -⟩ := f.writable.written_apart
  have passed : ∀ b ∈ f.target.written, (b != ascii ':') = true := fun b mem =>
    bne_iff_ne.mpr (ne_of_mem_of_not_mem mem noColon)
  rw [Text.cut, inside, List.takeWhile_append_of_pos passed, List.dropWhile_append_of_pos passed]
  cases f.spec <;> simp

end Field

/-- However its segments meet, a template is cut into the pieces of its segments. -/
theorem pieces_written (segments : List Segment) :
    pieces (written segments) = segments.flatMap Segment.pieces := by
  rw [pieces]
  induction segments with
  | nil => rfl
  | cons s segments ih =>
      rw [written, List.flatMap_cons, List.flatMap_cons, ← written, ← ih]
      cases s with
      | literal t => exact piecesFrom_doubled t _
      | field f =>
          rw [Segment.written, List.cons_append, List.append_assoc]
          exact piecesFrom_field f.closeBrace_not_mem f.head_ne_openBrace _

example : pieces [0x7b, 0x7b, 0x7b, 0x7d, 0x7d, 0x7d] =
    [.byte openBrace, .field [], .byte closeBrace] := by decide

end Format

/-- What a field stands for on a machine, after `before` fields that took the next buffered value. A
name is that of a register, or else of a variable. -/
def Machine.fieldValue (m : Machine) (before : Nat) : Format.Target → Slot
  | .next => m.buffer[before]?.join
  | .index n => if n < 0 then none else m.buffer[n.toNat]?.join
  | .name t =>
    match Register.ofName? t with
    | some reg => (m.registers.get reg).toOption.join
    | none => (m.calls.getVariable (some (.symbol t))).join

namespace Format

/-- What a segment is to render as: a text as itself, and a field as its value by its instruction, or
between angle brackets if it has none. -/
def Segment.shown (m : Machine) (before : Nat) : Segment → Text
  | .literal t => t
  | .field f =>
    match m.fieldValue before f.target with
    | some v => renderValue v (f.spec.getD [])
    | none => Text.concat ["<", f.inside, "?>"]

section

variable (m : Machine)

theorem positional_eq (n : Int) :
    ((Rig.formatSource m).positional n).1 = if n < 0 then none else m.buffer[n.toNat]?.join := by
  rw [Source.positional]
  by_cases below : n < 0
  · rw [if_neg (by omega), if_pos below]
  · rw [if_neg below]
    split
    · rfl
    · next outside =>
      have past : m.buffer.length ≤ n.toNat := by
        simp only [Rig.formatSource] at outside
        omega
      rw [List.getElem?_eq_none past]
      rfl

theorem byName_eq (before : Nat) (t : Text) :
    ((Rig.formatSource m).byName t).1 = m.fieldValue before (.name t) := by
  simp only [Source.byName, Rig.formatSource, Machine.fieldValue, CallStack.getVariable]
  cases Register.ofName? t with
  | none => cases m.calls.getName t <;> rfl
  | some reg =>
      cases held : m.registers.get reg with
      | ok v => simp only [held]; rfl
      | error f => simp only [held]; rfl

theorem value_eq (before : Nat) (t : Target) :
    ((Rig.formatSource m).value before t).1 = m.fieldValue before t := by
  cases t with
  | next =>
      have place := positional_eq m before
      rwa [if_neg (by omega), Int.toNat_natCast] at place
  | index n => exact positional_eq m n
  | name t => exact byName_eq m before t

theorem field_inside (before : Nat) (f : Field) :
    ((Rig.formatSource m).field before f.inside).1 = (Segment.field f).shown m before := by
  have value := value_eq m before f.target
  simp only [Source.field, f.cut_inside, target_written f.writable, Segment.shown, ← value]
  split
  · next found => rw [found]
  · next found => rw [found]

theorem takesNext_inside (f : Field) :
    Source.takesNext f.inside = (Segment.field f).takesNext := by
  rw [Source.takesNext, f.cut_inside, target_written f.writable, Segment.takesNext]

theorem renderFrom_bytes (before : Nat) (t : Text) (ps : List Piece) :
    ((Rig.formatSource m).renderFrom before (t.map .byte ++ ps)).1 =
      t ++ ((Rig.formatSource m).renderFrom before ps).1 := by
  induction t with
  | nil => rfl
  | cons b t ih => exact congrArg (b :: ·) ih

/-- One segment after the other. Each field that takes the next value moves the place of the next one
on, and nothing else does. -/
theorem renderFrom_segments (before : Nat) (segments : List Segment) :
    ((Rig.formatSource m).renderFrom before (segments.flatMap Segment.pieces)).1 =
      Text.concat (segments.mapIdx fun i s =>
        s.shown m (before + (segments.take i).countP Segment.takesNext)) := by
  induction segments generalizing before with
  | nil => rfl
  | cons s segments ih =>
      have step (i : Nat) : before + ((s :: segments).take (i + 1)).countP Segment.takesNext =
          (if s.takesNext then before + 1 else before) +
            (segments.take i).countP Segment.takesNext := by
        rw [List.take_succ_cons, List.countP_cons]
        split <;> omega
      have tail := ih (if s.takesNext then before + 1 else before)
      rw [List.mapIdx_cons, Text.concat, List.flatten_cons, List.flatMap_cons]
      simp only [step]
      rw [← Text.concat, ← tail]
      cases s with
      | literal t => exact renderFrom_bytes m before t _
      | field f =>
          rw [← takesNext_inside, List.take_zero, List.countP_nil, Nat.add_zero, ← field_inside]
          rfl

end

/-- A template renders as the texts and values of its segments, one after the other. A field that takes
the next value takes the one whose place is the number of such fields before it, whatever other fields
there are. In particular a text with its braces doubled renders as itself. -/
theorem render_written (m : Machine) :
    (∀ segments, ((Rig.formatSource m).render (written segments)).1 =
      Text.concat (segments.mapIdx fun i s =>
        s.shown m ((segments.take i).countP Segment.takesNext))) ∧
    ∀ t, ((Rig.formatSource m).render (doubled t)).1 = t := by
  have renders (segments : List Segment) : ((Rig.formatSource m).render (written segments)).1 =
      Text.concat (segments.mapIdx fun i s =>
        s.shown m ((segments.take i).countP Segment.takesNext)) := by
    have all := renderFrom_segments m 0 segments
    simp only [Nat.zero_add] at all
    rw [Source.render, pieces_written, all]
  refine ⟨renders, fun t => ?_⟩
  have single := renders [.literal t]
  simpa [written, Segment.written, Segment.shown, Text.concat] using single

/-- A machine with a hue and four buffered values. -/
def bufferedFour : Machine where
  registers := { hue := 120 }
  buffer := [some (.str "on"), some (.number 2), some .nothing, some (.number 0.125)]

/-- Braces beside a field, then a register, a place and the next value. -/
def mixedSegments : List Segment :=
  [.literal "a\x7b", .field ⟨.next, none, by decide, by decide⟩, .literal "\x7d",
    .field ⟨.name "hue", some "d", by decide, by decide⟩,
    .field ⟨.index 3, some ".2f", by decide, by decide⟩,
    .field ⟨.next, none, by decide, by decide⟩]

/-- The braces come out single, and the last field takes the second value, as only one field before it
took the next one. -/
theorem mixedSegments_rendered :
    written mixedSegments = "a\x7b\x7b\x7b\x7d\x7d\x7d\x7bhue:d\x7d\x7b3:.2f\x7d\x7b\x7d" ∧
      ((Rig.formatSource bufferedFour).render (written mixedSegments)).1 =
        "a\x7bon\x7d1200.122" := by
  refine ⟨by decide +kernel, ?_⟩
  rw [(render_written bufferedFour).1]
  decide +kernel

end Format

end Lightboard
