import Lightboard.Proofs.Assembly.Named
import Lightboard.Proofs.Assembly.Quoted
import Lightboard.Proofs.Code.Patterns
import Lightboard.Proofs.Toml.Numbers

/-!
# Quoted operands

All operands but numbers and truth values are written between quotation marks: a word that says by its
first byte what it names, written as a basic string. `wordOf` is this word. The basic string stands for
the word, and the word is read as the operand, so no operand is taken for one of another kind
(`quoted_comes_back`).

Characters alone can stand in a basic string. A stray byte in a literal or a name is written as the
replacement character, so a value comes back `repaired`, which is the value itself just if its text is
UTF-8.
-/

namespace Lightboard

namespace Value

/-- The operands that are written between quotation marks: literals, variables with a name, loop
tokens of a machine word, registers, tags with a name, and time patterns that have been read from
some text. -/
def IsQuoted : Value → Prop
  | .number _ | .bool _ => False
  | .symbol name => name ≠ []
  | .loopVar n => 0 ≤ n ∧ n ≤ Number.greatestWord
  | .pattern p => ∃ t, TimePattern.read t = .ok p
  | v => v.IsNamed

/-- The value with a replacement character for each stray byte of its text. -/
def repaired : Value → Value
  | .str t => .str t.repaired
  | .symbol name => .symbol name.repaired
  | v => v

/-- A value without stray bytes. -/
def IsUtf8 : Value → Prop
  | .str t => t.IsUtf8
  | .symbol name => name.IsUtf8
  | _ => True

theorem repaired_eq_iff (v : Value) : v.repaired = v ↔ v.IsUtf8 := by
  cases v with
  | str t => exact (Value.str.injEq _ _).to_iff.trans (Text.repaired_eq_iff t)
  | symbol name => exact (Value.symbol.injEq _ _).to_iff.trans (Text.repaired_eq_iff name)
  | _ => exact iff_of_true rfl trivial

end Value

namespace Assembly.Operand

open Number Toml

/-- The word that an operand is written as. -/
def wordOf : Value → Text
  | .str t => protect t
  | .nothing => "#NONE"
  | .unitMode m => ascii '#' :: m.label
  | .operand o => ascii '#' :: o.label
  | .pattern p => ascii '~' :: p.text
  | v => v.text

theorem write_of_isQuoted {v : Value} (quoted : v.IsQuoted) : write v = quote (wordOf v) := by
  cases v with
  | number x => exact quoted.elim
  | bool b => exact quoted.elim
  | _ => rfl

/-- A protected text is read as a literal, whatever it begins with. -/
theorem readWord_protect (t : Text) : readWord (protect t) = .ok (.str t) := by
  cases t with
  | nil => rfl
  | cons b t =>
      rw [protect]
      split
      · rfl
      · next plain =>
        have other : ∀ c ∈ ("\\%$@#~" : Text), b ≠ c := by
          rintro c mem rfl
          exact plain (List.contains_iff_mem.2 mem)
        simp only [readWord, other (ascii '\\') (by decide), other (ascii '%') (by decide),
          other (ascii '$') (by decide), other (ascii '@') (by decide),
            other (ascii '#') (by decide),
          other (ascii '~') (by decide), if_false]

/-- A stray byte is no sigil, and a replacement character does not begin with one. -/
theorem repaired_protect (t : Text) : (protect t).repaired = protect t.repaired := by
  cases t with
  | nil => rfl
  | cons b t =>
      by_cases small : b.toNat < 128
      · rw [protect, Text.repaired_cons small, protect]
        split
        · rw [Text.repaired_cons (by decide), Text.repaired_cons small]
        · exact Text.repaired_cons small t
      · have plain {c : UInt8} (high : 128 ≤ c.toNat) : isSigil c = false := by
          have all : ∀ n < 256, 128 ≤ n → isSigil (UInt8.ofNat n) = false := by decide +kernel
          rw [← @UInt8.ofNat_toNat c]
          exact all _ c.toNat_lt high
        obtain ⟨c, u, same, high⟩ := Text.beginsHigh_repaired (b := b) (by omega) t
        rw [protect, plain (by omega), same, protect, plain high, ← same]
        simp

theorem readLenientInteger?_ofInt {n : Int} (positive : 0 ≤ n) (fits : n ≤ greatestWord) :
    readLenientInteger? (Text.ofInt n) = some n := by
  obtain ⟨b, t, same, zero⟩ := Text.ofNat_leading n.natAbs
  have digits := Text.isDigit_of_mem_ofNat n.natAbs
  have text : Text.ofInt n = Text.ofNat n.natAbs := by
    rw [Text.ofInt, if_neg (by omega)]
  have numeral : (⟨false, Text.ofNat n.natAbs, [], none⟩ : Number.Spelled).IsNumeral := by
    refine ⟨digits, by simp, b, t, same, fun begins => ?_⟩
    have none : Text.ofNat n.natAbs = [ascii '0'] := by
      rw [zero begins]
      rfl
    exact (List.cons.inj (same.symm.trans none)).2
  have point : (Text.ofNat n.natAbs).contains (ascii '.') = false := by
    refine Bool.eq_false_iff.2 fun found => ?_
    exact Text.ne_of_isDigit (digits _ (List.contains_iff_mem.1 found)) rfl rfl
  have read := Toml.Spelled.readInteger?_front numeral
  have nonempty : (Text.ofNat n.natAbs).isEmpty = false := by simp [same]
  rw [text, readLenientInteger?]
  simp only [nonempty, point, Bool.false_and, Bool.false_eq_true, if_false]
  refine read.trans ?_
  rw [Text.value_ofNat]
  have back : signed false n.natAbs = n := Int.natAbs_of_nonneg positive
  rw [back, word?, if_pos ⟨by unfold leastWord; omega, fits⟩]

theorem isUtf8_ofInt (n : Int) : (Text.ofInt n).IsUtf8 := by
  have digits : (Text.ofNat n.natAbs).IsAscii := by
    intro b mem
    have := (Text.isDigit_iff b).1 (Text.isDigit_of_mem_ofNat _ b mem)
    omega
  unfold Text.ofInt
  split
  · exact Text.IsUtf8.cons (by decide) (Text.IsUtf8.ascii digits)
  · exact Text.IsUtf8.ascii digits

theorem isUtf8_join {sep : Text} {ts : List Text} (hs : sep.IsUtf8) (ht : ∀ t ∈ ts, t.IsUtf8) :
    (Text.join sep ts).IsUtf8 := by
  induction ts with
  | nil => exact Text.IsUtf8.nil
  | cons t ts ih =>
      have first := ht t (by simp)
      have rest := ih fun u mem => ht u (by simp [mem])
      cases ts with
      | nil =>
          rw [Text.join, List.intercalate_singleton]
          exact first
      | cons u ts =>
          rw [Text.join, List.intercalate_cons_cons]
          exact (first.append hs).append rest

theorem isUtf8_pattern (p : TimePattern) : p.text.IsUtf8 := by
  refine isUtf8_join (Text.IsUtf8.byte (by decide)) fun t mem => ?_
  obtain ⟨a, -, rfl⟩ := List.mem_map.1 mem
  have small : ∀ {n : Nat} (o : Option (Fin n)), n ≤ 10 →
    (Alternative.digitByte o).toNat < 128 := by
    intro n o bound
    have := Alternative.digitByte_toNat o bound
    omega
  exact Text.IsUtf8.ascii (.cons (small _ (by decide)) (.cons (small _ (by decide))
    (.cons (by decide) (.cons (small _ (by decide)) (.cons (small _ (by decide)) .nil)))))

/-- Words without stray bytes are not changed by writing them. -/
theorem readWord_repaired {word : Text} {v : Value} (utf8 : word.IsUtf8)
    (meaning : readWord word = .ok v) : readWord word.repaired = .ok v := by
  rwa [(Text.repaired_eq_iff word).mpr utf8]

/-- The name of a tag is read as the tag. -/
theorem readWord_tag {label : Text} {v : Value} (small : label.IsAscii)
    (found : Value.ofTag? label = some v) :
    readWord (Text.repaired (ascii '#' :: label)) = .ok v := by
  refine readWord_repaired (Text.IsUtf8.cons (by decide) (.ascii small)) ?_
  simp +decide only [readWord, found, ↓reduceIte]

theorem readWord_symbol {name : Text} (named : name ≠ []) :
    readWord (ascii '$' :: name) = .ok (.symbol name) := by
  have some : name.isEmpty = false := by simpa using named
  change (if name.isEmpty then Except.error OperandError.emptyName
    else Except.ok (Value.symbol name)) = _
  rw [some]
  rfl

theorem readWord_loopVar {n : Int} (positive : 0 ≤ n) (fits : n ≤ greatestWord) :
    readWord (ascii '@' :: Text.ofInt n) = .ok (.loopVar n) := by
  simp +decide only [readWord, readLenientInteger?_ofInt positive fits, ↓reduceIte]
  exact if_neg (by omega)

theorem readWord_pattern {p : TimePattern} (some : p ≠ .empty) :
    readWord (ascii '~' :: p.text) = .ok (.pattern p) := by
  simp +decide only [readWord, TimePattern.read_text some, ↓reduceIte]

/-- The word of an operand is read as the operand. -/
theorem readWord_wordOf {v : Value} (quoted : v.IsQuoted) :
    readWord (wordOf v).repaired = .ok v.repaired := by
  cases v with
  | number x => exact quoted.elim
  | bool b => exact quoted.elim
  | str t =>
      rw [wordOf, repaired_protect]
      exact readWord_protect _
  | nothing => exact @readWord_tag "NONE" _ (by decide) rfl
  | unitMode m =>
      cases m with
      | unnamed past => exact absurd quoted (by simp [Value.IsQuoted, Value.IsNamed, UnitMode.named])
      | _ => exact readWord_tag (by decide) rfl
  | operand o =>
      cases o with
      | unnamed past => exact absurd quoted (by simp [Value.IsQuoted, Value.IsNamed, Operand.named])
      | _ => exact readWord_tag (by decide) rfl
  | register r =>
      cases r with
      | unnamed past => exact absurd quoted (by simp [Value.IsQuoted, Value.IsNamed, Register.named])
      | _ => exact readWord_repaired (.ascii (by decide)) rfl
  | symbol name =>
      change readWord (Text.repaired (ascii '$' :: name)) = _
      rw [Text.repaired_cons (by decide)]
      exact readWord_symbol (Text.repaired_ne_nil quoted)
  | loopVar n =>
      exact readWord_repaired (Text.IsUtf8.cons (by decide) (isUtf8_ofInt n))
        (readWord_loopVar quoted.1 quoted.2)
  | operator o =>
      change readWord (Text.repaired (ascii '#' :: o.label)) = .ok (.operator o)
      cases o with
      | unnamed past => exact absurd quoted (by simp [Value.IsQuoted, Value.IsNamed, Operator.named])
      | _ => exact readWord_tag (by decide) rfl
  | jump c =>
      change readWord (Text.repaired (ascii '#' :: c.label)) = .ok (.jump c)
      cases c with
      | unnamed past =>
          exact absurd quoted (by simp [Value.IsQuoted, Value.IsNamed, JumpCondition.named])
      | _ => exact readWord_tag (by decide) rfl
  | io o =>
      change readWord (Text.repaired (ascii '#' :: o.label)) = .ok (.io o)
      cases o with
      | unnamed past => exact absurd quoted (by simp [Value.IsQuoted, Value.IsNamed, IoOp.named])
      | _ => exact readWord_tag (by decide) rfl
  | setOp o =>
      change readWord (Text.repaired (ascii '#' :: o.label)) = .ok (.setOp o)
      cases o with
      | unnamed past => exact absurd quoted (by simp [Value.IsQuoted, Value.IsNamed, SetOp.named])
      | _ => exact readWord_tag (by decide) rfl
  | pattern p =>
      obtain ⟨t, read⟩ := quoted
      exact readWord_repaired (Text.IsUtf8.cons (by decide) (isUtf8_pattern p))
        (readWord_pattern (TimePattern.ne_empty_of_read read))

/-- Operands without stray bytes that are written alike are the same, whatever their kinds. -/
theorem write_injective {v w : Value} (quotedV : v.IsQuoted) (quotedW : w.IsQuoted)
    (utf8V : v.IsUtf8) (utf8W : w.IsUtf8) (same : write v = write w) : v = w := by
  rw [write_of_isQuoted quotedV, write_of_isQuoted quotedW] at same
  have words := (isBasicString_quote (wordOf v)).unique (same ▸ isBasicString_quote (wordOf w))
  have read := readWord_wordOf quotedV
  rw [← words, readWord_wordOf quotedW, (Value.repaired_eq_iff v).mpr utf8V,
    (Value.repaired_eq_iff w).mpr utf8W] at read
  exact (Except.ok.inj read).symm

/-- An operand is written as a basic string on one line, the string stands for one word and no other,
and this word is read as the operand: just as it was if it has no stray bytes, and with replacement
characters for them otherwise. -/
theorem quoted_comes_back {v : Value} (quoted : v.IsQuoted) :
    ∃ word, (∀ other, IsBasicString (write v) other ↔ other = word) ∧
      (∀ b ∈ write v, isLineEnd b = false) ∧
      readString (write v) = some (word, []) ∧
      readWord word = .ok v.repaired ∧ (readWord word = .ok v ↔ v.IsUtf8) := by
  have basic : IsBasicString (write v) (wordOf v).repaired := by
    rw [write_of_isQuoted quoted]
    exact isBasicString_quote _
  have back := readWord_wordOf quoted
  refine ⟨(wordOf v).repaired, fun other => ⟨basic.unique, ?_⟩, basic.on_one_line, ?_, back, ?_⟩
  · rintro rfl
    exact basic
  · have read := @readString_of_isBasicString _ _ basic [] (by simp)
    rwa [List.append_nil] at read
  · rw [back, ← Value.repaired_eq_iff]
    exact (Except.ok.injEq _ _).to_iff

/-- A literal that begins with a backslash and a sigil and holds marks and control characters, one that
looks like a pattern, a name with a sigil and a line end, and operands of the other kinds. -/
def oddOperands : List Value :=
  [.str (Text.ofChars ['\\', '%', '"', '\x07', '\u0085', 'é']), .str "~7:30",
    .symbol (Text.ofChars ['@', '1', '\n']), .loopVar 10, .register .hue, .nothing, .unitMode .raw,
    .operator .add,
    .pattern (TimePattern.empty.add
      ⟨none, some (Fin.last 9), some (Fin.last 5), none,
        fun _ absent => absurd absent (Option.not_mem_none _)⟩)]

/-- They are written as these texts, each of which stands for a word that is read as the operand. -/
theorem oddOperands_come_back :
    (∀ v ∈ oddOperands, v.IsQuoted ∧ v.IsUtf8) ∧
      oddOperands.map write = ([Text.ofString "\"\\\\\\\\%\\\"\\u0007\\u0085é\"",
        Text.ofString "\"\\\\~7:30\"", Text.ofString "\"$@1\\n\"", Text.ofString "\"@10\"",
        Text.ofString "\"%hue\"", Text.ofString "\"#NONE\"", Text.ofString "\"#RAW\"",
        Text.ofString "\"#ADD\"", Text.ofString "\"~*9:5*\""] : List Text) ∧
      ∀ v ∈ oddOperands, ∃ word, IsBasicString (write v) word ∧ readWord word = .ok v := by
  have words : ∀ v ∈ oddOperands, v.IsQuoted ∧ v.IsUtf8 := by
    simp only [oddOperands, List.forall_mem_cons]
    have named : Text.ofChars ['@', '1', '\n'] ≠ [] := by decide
    have token : (0 : Int) ≤ 10 ∧ (10 : Int) ≤ greatestWord := by decide
    have tags : Register.hue ∈ Register.named ∧ UnitMode.raw ∈ UnitMode.named ∧
      Operator.add ∈ Operator.named := by decide
    exact ⟨⟨trivial, _, rfl⟩, ⟨trivial, .ascii (by decide)⟩, ⟨named, _, rfl⟩, ⟨token, trivial⟩,
      ⟨tags.1, trivial⟩, ⟨trivial, trivial⟩, ⟨tags.2.1, trivial⟩, ⟨tags.2.2, trivial⟩,
      ⟨⟨_, TimePattern.read_text (by decide)⟩, trivial⟩, by simp⟩
  refine ⟨words, by decide +kernel, fun v among => ?_⟩
  obtain ⟨quoted, utf8⟩ := words v among
  obtain ⟨word, basic, -, -, -, back⟩ := quoted_comes_back quoted
  exact ⟨word, (basic word).mpr rfl, back.mpr utf8⟩

end Assembly.Operand

end Lightboard
