import Lightboard.Proofs.Assembly.Operands
import Lightboard.Proofs.Code.Labels
import Lightboard.Proofs.Number.Plain
import Lightboard.Proofs.Text.Escapes

/-!
# Listed operands

In a line of a listing an operand ends at a blank or at the end of the line. A literal stands
between quotation marks there, and all other operands but variables are words without blanks, each
with its own meaning (`ofWord?_listed`). The name of a variable is listed as it is, and it may hold
a blank or a line end itself. So if two operands begin the same text, they are the same, or they are
variables of which the name of one goes on where the name of the other ends (`listed_cut`).
-/

namespace Lightboard

namespace Text

/-- A byte at which a part of a line ends. -/
def IsBreak (b : UInt8) : Prop := b = ascii ' ' ∨ b = ascii '\n'

instance (b : UInt8) : Decidable (IsBreak b) := inferInstanceAs (Decidable (_ ∨ _))

/-- A text that begins with a break. -/
def BeginsBroken (t : Text) : Prop := ∃ b r, t = b :: r ∧ IsBreak b

/-- A text that goes on with a break where another one ends. -/
def GoesOn (s t : Text) : Prop := ∃ r, BeginsBroken r ∧ t = s ++ r

/-- Two texts that are followed by breaks in the same text are the same, or one goes on where the
other ends. -/
theorem cut_cases {s t r r' : Text} (hr : BeginsBroken r) (hr' : BeginsBroken r')
    (same : s ++ r = t ++ r') : (s = t ∧ r = r') ∨ GoesOn s t ∨ GoesOn t s := by
  obtain ⟨x, long, rest⟩ | ⟨x, long, rest⟩ := List.append_eq_append_iff.mp same
  · cases x with
    | nil => exact .inl ⟨by simpa using long.symm, by simpa using rest⟩
    | cons b x =>
        obtain ⟨b', y, first, broken⟩ := hr
        rw [first] at rest
        exact .inr (.inl ⟨b :: x, ⟨b, x, rfl, (List.cons.inj rest).1 ▸ broken⟩, long⟩)
  · cases x with
    | nil => exact .inl ⟨by simpa using long, by simpa using rest.symm⟩
    | cons b x =>
        obtain ⟨b', y, first, broken⟩ := hr'
        rw [first] at rest
        exact .inr (.inr ⟨b :: x, ⟨b, x, rfl, (List.cons.inj rest).1 ▸ broken⟩, long⟩)

theorem GoesOn.exists_break {s t : Text} (h : GoesOn s t) : ∃ b ∈ t, IsBreak b := by
  obtain ⟨_, ⟨b, r, rfl, broken⟩, rfl⟩ := h
  exact ⟨b, by simp, broken⟩

theorem GoesOn.ne {s t : Text} (h : GoesOn s t) : s ≠ t := by
  obtain ⟨_, ⟨b, r, rfl, -⟩, rfl⟩ := h
  simp

/-- Two texts without breaks end at the break behind them. -/
theorem unbroken_cut {s t r r' : Text} (hs : ∀ b ∈ s, ¬ IsBreak b) (ht : ∀ b ∈ t, ¬ IsBreak b)
    (hr : BeginsBroken r) (hr' : BeginsBroken r') (same : s ++ r = t ++ r') : s = t ∧ r = r' := by
  obtain equal | longer | longer := cut_cases hr hr' same
  · exact equal
  · obtain ⟨b, mem, broken⟩ := longer.exists_break
    exact absurd broken (ht b mem)
  · obtain ⟨b, mem, broken⟩ := longer.exists_break
    exact absurd broken (hs b mem)

end Text

namespace Text

/-- A text as one number, which is compared in one step. -/
def asNumber (t : Text) : Nat := t.foldl (fun n b => n * 256 + b.toNat) 0

theorem mem_ofInt {n : Int} {b : UInt8} (mem : b ∈ ofInt n) :
    isDigit b = true ∨ b = ascii '-' := by
  have digits := isDigit_of_mem_ofNat n.natAbs
  unfold ofInt at mem
  split at mem
  · obtain sign | rest := List.mem_cons.mp mem
    · exact .inr sign
    · exact .inl (digits b rest)
  · exact .inl (digits b mem)

theorem mem_join {sep : Text} {ts : List Text} {b : UInt8} (mem : b ∈ join sep ts) :
    b ∈ sep ∨ ∃ t ∈ ts, b ∈ t := by
  induction ts with
  | nil => cases mem
  | cons t ts ih =>
      cases ts with
      | nil =>
          rw [join, List.intercalate_singleton] at mem
          exact .inr ⟨t, by simp, mem⟩
      | cons u ts =>
          rw [join, List.intercalate_cons_cons, List.mem_append, List.mem_append] at mem
          obtain (first | between) | rest := mem
          · exact .inr ⟨t, by simp, first⟩
          · exact .inl between
          · obtain between | ⟨v, later, mem⟩ := ih rest
            · exact .inl between
            · exact .inr ⟨v, List.mem_cons_of_mem _ later, mem⟩

end Text

namespace Number

/-- The bytes that stand in the words for numbers, besides digits. -/
def marks : Text := "+-.eNaInf"

theorem mem_plain {x : Float} {b : UInt8} (mem : b ∈ plain x) :
    Text.isDigit b = true ∨ b ∈ marks := by
  have special : ∀ t ∈ (["NaN", "-Inf", "+Inf"] : List Text), ∀ b ∈ t, b ∈ marks := by
    decide +kernel
  cases parts : exact x with
  | nan =>
      rw [plain, numeral, parts] at mem
      exact .inr (special "NaN" (by simp) b mem)
  | inf below =>
      rw [plain, numeral, parts] at mem
      cases below with
      | true => exact .inr (special "-Inf" (by simp) b mem)
      | false => exact .inr (special "+Inf" (by simp) b mem)
  | finite neg m e =>
      obtain ⟨s, isNumeral, written, -⟩ := plain_spelled parts
      rw [← written] at mem
      obtain digit | rfl | rfl | rfl | rfl := Toml.Spelled.mem_text isNumeral mem
      · exact .inl digit
      all_goals exact .inr (by decide)

end Number

namespace TimePattern

/-- The bytes that stand in patterns, besides digits. -/
def marks : Text := "*:|"

theorem mem_text {p : TimePattern} {b : UInt8} (mem : b ∈ p.text) :
    Text.isDigit b = true ∨ b ∈ marks := by
  have digit {n : Nat} (o : Option (Fin n)) (small : n ≤ 10) :
      Text.isDigit (Alternative.digitByte o) = true ∨ Alternative.digitByte o ∈ marks := by
    obtain star | number := Alternative.digitByte_toNat o small
    · rw [show Alternative.digitByte o = ascii '*' from UInt8.toNat_inj.mp star]
      exact .inr (by decide)
    · exact .inl ((Text.isDigit_iff _).mpr number)
  obtain bar | ⟨t, listed, mem⟩ := Text.mem_join mem
  · rw [List.mem_singleton.mp bar]
    exact .inr (by decide)
  · obtain ⟨a, -, rfl⟩ := List.mem_map.mp listed
    simp only [Alternative.text, List.mem_cons, List.not_mem_nil, or_false] at mem
    obtain rfl | rfl | rfl | rfl | rfl := mem
    · exact digit _ (by decide)
    · exact digit _ (by decide)
    · exact .inr (by decide)
    · exact digit _ (by decide)
    · exact digit _ (by decide)

end TimePattern

namespace Value

open Text

/-- A value that is listed as a word: any but a literal and a variable. -/
def IsWord : Value → Prop
  | .str _ | .symbol _ => False
  | _ => True

theorem listing_cases (v : Value) : v.IsWord ∨ (∃ t, v = .str t) ∨ ∃ n, v = .symbol n := by
  cases v with
  | str t => exact .inr (.inl ⟨t, rfl⟩)
  | symbol n => exact .inr (.inr ⟨n, rfl⟩)
  | _ => exact .inl trivial

/-- A byte that stands in no listed word: a break, or the first one of a literal or a variable. -/
def IsForeign (b : UInt8) : Prop := IsBreak b ∨ b = ascii '"' ∨ b = ascii '$'

instance (b : UInt8) : Decidable (IsForeign b) := inferInstanceAs (Decidable (_ ∨ _))

/-- The values that have a name of their own. -/
def names : List Value :=
  List.flatten
    [[.bool true, .bool false, .nothing], UnitMode.named.map .unitMode, Operand.named.map .operand,
     Register.named.map .register, Operator.named.map .operator, JumpCondition.named.map .jump,
     IoOp.named.map .io, SetOp.named.map .setOp]

theorem names_distinct : (names.map listed).Nodup := by
  have numbers : ((names.map listed).map asNumber).Nodup := by decide +kernel
  exact numbers.of_map _

theorem names_listed {v : Value} (named : v ∈ names) :
    (∀ b ∈ v.listed, ¬ IsForeign b) ∧ Number.readAny? v.listed = none ∧
      v.listed.head? ≠ some (ascii '@') ∧ v.listed.head? ≠ some (ascii '~') := by
  have bytes : ∀ t ∈ names.map listed, t.all (fun b => !decide (IsForeign b)) = true := by
    decide +kernel
  have marks : ∀ t ∈ names.map listed, Number.readAny? t = none ∧
      t.head? ≠ some (ascii '@') ∧ t.head? ≠ some (ascii '~') := by
    decide +kernel
  have member := List.mem_map_of_mem (f := listed) named
  refine ⟨fun b mem => ?_, marks _ member⟩
  simpa using List.all_eq_true.mp (bytes _ member) b mem

/-- A word is a name, a number, a loop token or a pattern. -/
theorem word_cases {v : Value} (written : v.HasNotation) (word : v.IsWord) :
    v ∈ names ∨ (∃ x, v = .number x) ∨ (∃ n, v = .loopVar n) ∨ ∃ p, v = .pattern p := by
  cases v with
  | str t => exact word.elim
  | symbol n => exact word.elim
  | number x => exact .inr (.inl ⟨x, rfl⟩)
  | loopVar n => exact .inr (.inr (.inl ⟨n, rfl⟩))
  | pattern p => exact .inr (.inr (.inr ⟨p, rfl⟩))
  | bool b => cases b <;> exact .inl (by simp [names])
  | nothing => exact .inl (by simp [names])
  | _ => exact .inl (by simpa [names, HasNotation, IsNamed] using written)

/-- A word is neither broken by a blank or a line end nor taken for a literal or a variable. -/
theorem word_plain {v : Value} (written : v.HasNotation) (word : v.IsWord) :
    ∀ b ∈ v.listed, ¬ IsForeign b := by
  have digit {b : UInt8} (h : Text.isDigit b = true) : ¬ IsForeign b := by
    rintro ((rfl | rfl) | rfl | rfl) <;> cases h
  have marks :
      ∀ b ∈ Number.marks ++ TimePattern.marks ++ [ascii '@', ascii '~'], ¬ IsForeign b := by
    decide +kernel
  simp only [List.forall_mem_append] at marks
  obtain named | ⟨x, rfl⟩ | ⟨n, rfl⟩ | ⟨p, rfl⟩ := word_cases written word
  · exact (names_listed named).1
  · intro b mem
    exact (Number.mem_plain mem).elim digit (marks.1.1 b)
  · intro b mem
    obtain rfl | mem := List.mem_cons.mp mem
    · exact marks.2 _ (by simp)
    · obtain number | rfl := Text.mem_ofInt mem
      · exact digit number
      · exact marks.1.1 _ (by decide)
  · intro b mem
    obtain rfl | mem := List.mem_cons.mp mem
    · exact marks.2 _ (by simp)
    · exact (TimePattern.mem_text mem).elim digit (marks.1.2 b)

/-- Tells which value a word stands for. -/
def ofWord? (t : Text) : Option Value :=
  if t.head? = some (ascii '@') ∨ t.head? = some (ascii '~') then
    (Assembly.Operand.readWord t).toOption
  else
    match Number.readAny? t with
    | some x => some (.number x)
    | none => names.find? (·.listed == t)

theorem ofWord?_listed {v : Value} (written : v.HasNotation) (word : v.IsWord) :
    ofWord? v.listed = some v := by
  obtain named | ⟨x, rfl⟩ | ⟨n, rfl⟩ | ⟨p, rfl⟩ := word_cases written word
  · obtain ⟨-, noNumber, noToken, noPattern⟩ := names_listed named
    rw [ofWord?, if_neg (by simp [noToken, noPattern]), noNumber]
    cases found : names.find? (·.listed == v.listed) with
    | none => exact absurd (List.find?_eq_none.mp found v named) (by simp)
    | some w =>
        have hit := List.find?_some found
        have same : w.listed = v.listed := eq_of_beq hit
        exact congrArg some
          (List.inj_on_of_nodup_map names_distinct (List.mem_of_find?_eq_some found) named same)
  · have other {b : UInt8} (digit : Text.isDigit b = false) (mark : b ∉ Number.marks) :
        (Number.plain x).head? ≠ some b := fun first => by
      obtain found | found := Number.mem_plain (List.mem_of_head? first)
      · exact absurd found (by simp [digit])
      · exact mark found
    have first : ¬ ((number x).listed.head? = some (ascii '@') ∨
        (number x).listed.head? = some (ascii '~')) :=
      not_or.mpr ⟨other (by decide) (by decide), other (by decide) (by decide)⟩
    simp only [ofWord?, if_neg first]
    rw [show (number x).listed = Number.plain x from rfl, Number.readAny?_plain]
  · rw [ofWord?, if_pos (.inl rfl)]
    change (Assembly.Operand.readWord (ascii '@' :: Text.ofInt n)).toOption = _
    rw [Assembly.Operand.readWord_loopVar written.1 written.2]
    rfl
  · rw [ofWord?, if_pos (.inr rfl)]
    change (Assembly.Operand.readWord (ascii '~' :: p.text)).toOption = _
    rw [Assembly.Operand.readWord_pattern written]
    rfl

/-- Words that are listed alike are the same. -/
theorem word_injective {v w : Value} (hv : v.HasNotation) (hw : w.HasNotation) (word : v.IsWord)
    (word' : w.IsWord) (same : v.listed = w.listed) : v = w := by
  have read := ofWord?_listed hv word
  rw [same, ofWord?_listed hw word'] at read
  exact (Option.some.inj read).symm

/-- Two variables, the name of one going on with a break where the name of the other ends. -/
inductive NamesRunOn : Value → Value → Prop
  | longer {a b : Text} (h : GoesOn a b) : NamesRunOn (.symbol a) (.symbol b)
  | shorter {a b : Text} (h : GoesOn b a) : NamesRunOn (.symbol a) (.symbol b)

theorem NamesRunOn.ne {v w : Value} (h : NamesRunOn v w) : v ≠ w := by
  obtain more | less := h
  · exact fun same => more.ne (symbol.inj same)
  · exact fun same => less.ne (symbol.inj same).symm

/-- A word with a break behind it does not begin like a literal or a variable. -/
theorem word_first {v : Value} (written : v.HasNotation) (word : v.IsWord) {r : Text}
    (broken : BeginsBroken r) {b : UInt8} {t : Text} (begins : v.listed ++ r = b :: t)
    (mark : b = ascii '"' ∨ b = ascii '$') : False := by
  obtain ⟨c, r, rfl, stop⟩ := broken
  cases listed : v.listed with
  | nil =>
      rw [listed] at begins
      obtain rfl := (List.cons.inj begins).1
      obtain rfl | rfl := mark <;> exact absurd stop (by decide)
  | cons d l =>
      rw [listed] at begins
      obtain rfl := (List.cons.inj begins).1
      exact word_plain written word d (by simp [listed]) (.inr mark)

/-- If two operands begin the same text and are followed by a break there, they are the same, or
variables of which one name goes on where the other ends. -/
theorem listed_cut {v w : Value} (hv : v.HasNotation) (hw : w.HasNotation) {r r' : Text}
    (broken : BeginsBroken r) (broken' : BeginsBroken r') (same : v.listed ++ r = w.listed ++ r') :
    (v = w ∧ r = r') ∨ NamesRunOn v w := by
  obtain word | ⟨s, rfl⟩ | ⟨a, rfl⟩ := v.listing_cases
  · obtain word' | ⟨t, rfl⟩ | ⟨b, rfl⟩ := w.listing_cases
    · have unbroken {u : Value} (hu : u.HasNotation) (word : u.IsWord) :
          ∀ b ∈ u.listed, ¬ IsBreak b := fun b mem stop => word_plain hu word b mem (.inl stop)
      obtain ⟨alike, rest⟩ :=
        unbroken_cut (unbroken hv word) (unbroken hw word') broken broken' same
      exact .inl ⟨word_injective hv hw word word' alike, rest⟩
    · exact (word_first hv word broken same (.inl rfl)).elim
    · exact (word_first hv word broken same (.inr rfl)).elim
  · obtain word' | ⟨t, rfl⟩ | ⟨b, rfl⟩ := w.listing_cases
    · exact (word_first hw word' broken' same.symm (.inl rfl)).elim
    · obtain ⟨rfl, rest⟩ := quoted_cut hv hw same
      exact .inl ⟨rfl, rest⟩
    · exact absurd (List.cons.inj same).1 (by decide)
  · obtain word' | ⟨t, rfl⟩ | ⟨b, rfl⟩ := w.listing_cases
    · exact (word_first hw word' broken' same.symm (.inr rfl)).elim
    · exact absurd (List.cons.inj same).1 (by decide)
    · obtain ⟨rfl, rest⟩ | longer | shorter := cut_cases broken broken' (List.cons.inj same).2
      · exact .inl ⟨rfl, rest⟩
      · exact .inr (.longer longer)
      · exact .inr (.shorter shorter)

end Value

end Lightboard
