import Lightboard.Proofs.Text.Digits
import Lightboard.Proofs.Toml.Clean

/-!
# Basic strings

A basic string stands between quotation marks on one line. Its characters stand for themselves, or a
backslash and an escape stand for them: `Spells` is this notation, and `IsBasicString t word` says that
the text `t` is a basic string for `word`. Such a text is read as the word whatever comes behind it
(`readString_of_isBasicString`), so it is one for no other word (`IsBasicString.unique`).
-/

namespace Lightboard.Toml

/-- The characters that stand for themselves: all but the quotation mark, the backslash and the
control characters of ASCII other than the tab. -/
def isUnescaped (c : Char) : Bool :=
  c == '\t' || (0x20 ≤ c.toNat && c.toNat != 0x7F && c != '"' && c != '\\')

/-- The letters and marks that stand for a character behind a backslash. -/
def shortEscapes : List (Char × Char) :=
  [('b', '\x08'), ('t', '\t'), ('n', '\n'), ('f', '\x0c'), ('r', '\r'), ('"', '"'), ('\\', '\\')]

/-- The letters that stand behind a backslash and before a code point, with the number of its digits. -/
def pointEscapes : List (Char × Nat) := [('u', 4), ('U', 8)]

/-- How one character can be written in a basic string. -/
inductive CharNotation : Text → Char → Prop
  | plain {c : Char} (unescaped : isUnescaped c = true) : CharNotation (String.utf8EncodeChar c) c
  | short {e c : Char} (listed : (e, c) ∈ shortEscapes) : CharNotation [ascii '\\', ascii e] c
  | point {e : Char} {ds : Text} {c : Char} (listed : (e, ds.length) ∈ pointEscapes)
      (value : Text.readDigits? 16 ds = some c.toNat) :
      CharNotation (ascii '\\' :: ascii e :: ds) c

/-- How characters can be written one after the other. -/
inductive Spells : Text → List Char → Prop
  | nil : Spells [] []
  | cons {w body : Text} {c : Char} {cs : List Char} (first : CharNotation w c)
      (rest : Spells body cs) : Spells (w ++ body) (c :: cs)

/-- The text is a basic string, and what it stands for is the word. -/
def IsBasicString (t word : Text) : Prop :=
  ∃ body cs, t = ascii '"' :: (body ++ [ascii '"']) ∧ Spells body cs ∧ word = Text.ofChars cs

/-- A byte that stands for itself inside quotation marks. -/
def isPlain (b : UInt8) : Bool := !isLineEnd b && b != ascii '"' && b != ascii '\\'

theorem isPlain_of_digit? {b : UInt8} {d : Nat} (digit : Text.digit? b = some d) :
    isPlain b = true ∧ IsCleanByte b := by
  have all : ∀ n < 256, (Text.digit? (UInt8.ofNat n)).isSome = true →
      isPlain (UInt8.ofNat n) = true ∧ IsCleanByte (UInt8.ofNat n) := by decide +kernel
  have := all b.toNat b.toNat_lt
  rw [UInt8.ofNat_toNat, digit] at this
  exact this rfl

theorem ofNat_toNat_ne_ascii {c d : Char} (small : c.toNat < 128) (smallD : d.toNat < 128)
    (distinct : c ≠ d) : UInt8.ofNat c.toNat ≠ ascii d := by
  intro same
  have := congrArg UInt8.toNat same
  rw [Text.toNat_ofNat_byte (by omega)] at this
  change c.toNat = (UInt8.ofNat d.toNat).toNat at this
  rw [Text.toNat_ofNat_byte (by omega)] at this
  exact distinct (Char.toNat_inj.mp this)

/-- No byte of a character that stands for itself means anything else. -/
theorem isPlain_of_isUnescaped {c : Char} (unescaped : isUnescaped c = true) {b : UInt8}
    (among : b ∈ String.utf8EncodeChar c) : isPlain b = true := by
  obtain ⟨small, single⟩ | ⟨-, high⟩ := Text.utf8EncodeChar_cases c
  · have other (d : Char) (smallD : d.toNat < 128) (escaped : isUnescaped d = false) :
        UInt8.ofNat c.toNat ≠ ascii d := by
      refine ofNat_toNat_ne_ascii small smallD ?_
      rintro rfl
      exact Bool.false_ne_true (escaped.symm.trans unescaped)
    rw [single] at among
    obtain rfl := List.mem_singleton.mp among
    simp [isPlain, isLineEnd, other '"' (by decide) rfl, other '\\' (by decide) rfl,
      other '\n' (by decide) rfl, other '\r' (by decide) rfl]
  · have large := high b among
    have differs (d : UInt8) (small : d.toNat < 128) : b ≠ d := by
      rintro rfl
      omega
    simp [isPlain, isLineEnd, differs (ascii '"') (by decide), differs (ascii '\\') (by decide),
      differs (ascii '\n') (by decide), differs (ascii '\r') (by decide)]

/-- The digits of an escape are cut off by their number. -/
theorem escape?_point {e : Char} {ds : Text} {c : Char} (listed : (e, ds.length) ∈ pointEscapes)
    (value : Text.readDigits? 16 ds = some c.toNat) (rest : Text) :
    escape? (ascii e :: ds ++ rest) = some (String.utf8EncodeChar c, rest) := by
  have point : codePoint? ds = some (String.utf8EncodeChar c) := by
    simp [codePoint?, value, Text.scalar?_toNat]
  have enough : ds.length ≤ (ds ++ rest).length := by
    rw [List.length_append]
    omega
  have cut : (codePoint? ((ds ++ rest).take ds.length)).map (·, (ds ++ rest).drop ds.length) =
      some (String.utf8EncodeChar c, rest) := by
    rw [List.take_left, List.drop_left, point]
    rfl
  simp only [pointEscapes, List.mem_cons, Prod.mk.injEq, List.not_mem_nil, or_false] at listed
  obtain ⟨rfl, length⟩ | ⟨rfl, length⟩ := listed
  · rw [length] at enough cut
    change (if ascii 'u' = ascii 'u' ∧ 4 ≤ (ds ++ rest).length then
      (codePoint? ((ds ++ rest).take 4)).map (·, (ds ++ rest).drop 4) else _) = _
    rw [if_pos ⟨rfl, enough⟩, cut]
  · rw [length] at enough cut
    change (if ascii 'U' = ascii 'U' ∧ 8 ≤ (ds ++ rest).length then
      (codePoint? ((ds ++ rest).take 8)).map (·, (ds ++ rest).drop 8) else _) = _
    rw [if_pos ⟨rfl, enough⟩, cut]

/-- A character is written by itself, or as a backslash and an escape that reading takes for it. -/
theorem CharNotation.by_itself_or_escaped {w : Text} {c : Char} (written : CharNotation w c) :
    (w = String.utf8EncodeChar c ∧ ∀ b ∈ w, isPlain b = true) ∨
      ∃ x ds, w = ascii '\\' :: x :: ds ∧ isLineEnd x = false ∧ (∀ b ∈ ds, isPlain b = true) ∧
        ∀ rest, escape? (x :: ds ++ rest) = some (String.utf8EncodeChar c, rest) := by
  have digits {n : Nat} {ds : Text} (value : Text.readDigits? 16 ds = some n) :
      ∀ b ∈ ds, isPlain b = true := by
    intro b among
    obtain ⟨d, digit⟩ := Text.digit?_of_readDigits? value among
    exact (isPlain_of_digit? digit).1
  cases written with
  | plain unescaped => exact .inl ⟨rfl, fun b among => isPlain_of_isUnescaped unescaped among⟩
  | @short e c listed =>
      have each : ∀ p ∈ shortEscapes, isLineEnd (ascii p.1) = false := by decide
      refine .inr ⟨ascii e, [], rfl, each _ listed, by simp, ?_⟩
      simp only [shortEscapes, List.mem_cons, Prod.mk.injEq, List.not_mem_nil, or_false] at listed
      obtain ⟨rfl, rfl⟩ | ⟨rfl, rfl⟩ | ⟨rfl, rfl⟩ | ⟨rfl, rfl⟩ | ⟨rfl, rfl⟩ | ⟨rfl, rfl⟩ |
        ⟨rfl, rfl⟩ := listed <;> exact fun rest => rfl
  | point listed value =>
      have each : ∀ p ∈ pointEscapes, isLineEnd (ascii p.1) = false := by decide
      exact .inr ⟨_, _, rfl, each _ listed, digits value, escape?_point listed value⟩

theorem scanBasic_plain {a : Text} (plain : ∀ b ∈ a, isPlain b = true) (rest : Text) :
    scanBasic false (a ++ rest) = (scanBasic false rest).map fun (s, t) => (a ++ s, t) := by
  induction a with
  | nil => simp
  | cons b a ih =>
      have this := plain b (by simp)
      simp only [isPlain, Bool.and_eq_true, Bool.not_eq_true', bne_iff_ne] at this
      obtain ⟨⟨line, quote⟩, backslash⟩ := this
      have quote' : (b == ascii '"') = false := beq_false_of_ne quote
      have backslash' : (b == ascii '\\') = false := beq_false_of_ne backslash
      rw [List.cons_append, scanBasic, if_neg (by simp [line]), if_neg (by simp [quote']),
        backslash', Bool.and_false, ih fun c mem => plain c (by simp [mem]), Option.map_map]
      rfl

theorem CharNotation.scanned {w : Text} {c : Char} (written : CharNotation w c) (rest : Text) :
    scanBasic false (w ++ rest) = (scanBasic false rest).map fun (s, t) => (w ++ s, t) := by
  obtain ⟨-, plain⟩ | ⟨x, ds, rfl, line, plain, -⟩ := written.by_itself_or_escaped
  · exact scanBasic_plain plain rest
  · have first : scanBasic false (ascii '\\' :: x :: (ds ++ rest)) =
        (scanBasic true (x :: (ds ++ rest))).map fun (s, t) => (ascii '\\' :: s, t) := rfl
    have second : scanBasic true (x :: (ds ++ rest)) =
        (scanBasic false (ds ++ rest)).map fun (s, t) => (x :: s, t) := by
      rw [scanBasic, if_neg (by simp [line])]
      rfl
    change scanBasic false (ascii '\\' :: x :: (ds ++ rest)) = _
    rw [first, second, scanBasic_plain plain, Option.map_map, Option.map_map]
    rfl

theorem Spells.scanned {body : Text} {cs : List Char} (spelled : Spells body cs) (tail : Text) :
    scanBasic false (body ++ ascii '"' :: tail) = some (body, tail) := by
  induction spelled with
  | nil => rfl
  | cons first _ ih =>
      rw [List.append_assoc, first.scanned, ih]
      rfl

theorem unescapeFrom_skip (a rest : Text) :
    unescapeFrom a.length (a ++ rest) = unescapeFrom 0 rest := by
  induction a with
  | nil => rfl
  | cons b a ih => exact ih

theorem unescapeFrom_plain {a : Text} (plain : ∀ b ∈ a, isPlain b = true) (rest : Text) :
    unescapeFrom 0 (a ++ rest) = (unescapeFrom 0 rest).map (a ++ ·) := by
  induction a with
  | nil => simp
  | cons b a ih =>
      have this := plain b (by simp)
      simp only [isPlain, Bool.and_eq_true, bne_iff_ne] at this
      simp only [List.cons_append, unescapeFrom, if_neg this.2,
        ih fun c mem => plain c (by simp [mem]), Option.map_eq_map, Option.map_map]
      rfl

theorem CharNotation.unescaped {w : Text} {c : Char} (written : CharNotation w c) (rest : Text) :
    unescapeFrom 0 (w ++ rest) = (unescapeFrom 0 rest).map (String.utf8EncodeChar c ++ ·) := by
  obtain ⟨rfl, plain⟩ | ⟨x, ds, rfl, -, -, escape⟩ := written.by_itself_or_escaped
  · exact unescapeFrom_plain plain rest
  · have behind : (x :: ds ++ rest).length - rest.length = (x :: ds).length := by
      rw [List.length_append, Nat.add_sub_cancel]
    change unescapeFrom 0 (ascii '\\' :: (x :: ds ++ rest)) = _
    simp only [unescapeFrom, if_true, escape, behind, unescapeFrom_skip, Option.bind_eq_bind,
      Option.bind_some]
    cases unescapeFrom 0 rest <;> rfl

theorem Spells.unescape_eq {body : Text} {cs : List Char} (spelled : Spells body cs) :
    unescape body = some (Text.ofChars cs) := by
  unfold unescape
  induction spelled with
  | nil => rfl
  | cons first _ ih =>
      rw [first.unescaped, ih, Text.ofChars_cons]
      rfl

/-- The inside of a basic string does not begin with two quotation marks more. -/
theorem Spells.not_crowded {body : Text} {cs : List Char} (spelled : Spells body cs) {tail : Text}
    (other : tail.head? ≠ some (ascii '"')) :
    ([ascii '"', ascii '"'] : Text).isPrefixOf (body ++ ascii '"' :: tail) = false := by
  cases spelled with
  | nil =>
      cases tail with
      | nil => rfl
      | cons b tail =>
          have differs : (ascii '"' == b) = false :=
            beq_false_of_ne fun same => other (by simp [same])
          simp [List.isPrefixOf, differs]
  | @cons w body c cs first rest =>
      have head : ∃ b t, w = b :: t ∧ b ≠ ascii '"' := by
        obtain ⟨same, plain⟩ | ⟨x, ds, same, -⟩ := first.by_itself_or_escaped
        · obtain ⟨b, t, bytes⟩ := List.exists_cons_of_ne_nil (@String.utf8EncodeChar_ne_nil c)
          have this := plain b (by simp [same, bytes])
          simp only [isPlain, Bool.and_eq_true, bne_iff_ne] at this
          exact ⟨b, t, same.trans bytes, this.1.2⟩
        · exact ⟨_, _, same, by decide⟩
      obtain ⟨b, t, rfl, differs⟩ := head
      have differs' : (ascii '"' == b) = false := beq_false_of_ne differs.symm
      simp [List.isPrefixOf, differs']

/-- A basic string is read as the word it stands for. -/
theorem readString_of_isBasicString {t word : Text} (basic : IsBasicString t word) {tail : Text}
    (other : tail.head? ≠ some (ascii '"')) : readString (t ++ tail) = some (word, tail) := by
  obtain ⟨body, cs, rfl, spelled, rfl⟩ := basic
  rw [List.cons_append, List.append_assoc, List.singleton_append]
  unfold readString
  simp only [if_true, spelled.not_crowded other, Bool.false_eq_true, if_false, spelled.scanned,
    spelled.unescape_eq, Option.bind_eq_bind, Option.bind_some]
  rfl

/-- No text is a basic string for two words. -/
theorem IsBasicString.unique {t word word' : Text} (basic : IsBasicString t word)
    (basic' : IsBasicString t word') : word' = word := by
  have read := @readString_of_isBasicString _ _ basic [] (by simp)
  rw [@readString_of_isBasicString _ _ basic' [] (by simp)] at read
  exact (Prod.mk.inj (Option.some.inj read)).1

theorem CharNotation.isClean {w : Text} {c : Char} (written : CharNotation w c) : IsClean w := by
  have digits {n : Nat} {ds : Text} (value : Text.readDigits? 16 ds = some n) : IsClean ds := by
    refine .bytes fun b among => ?_
    obtain ⟨d, digit⟩ := Text.digit?_of_readDigits? value among
    exact (isPlain_of_digit? digit).2
  cases written with
  | plain unescaped =>
      refine .char ?_ ?_
      · simp only [isUnescaped, Bool.or_eq_true, Bool.and_eq_true] at unescaped
        obtain tab | ⟨⟨point, -⟩, -⟩ := unescaped
        · simp [isAllowed, tab]
        · simp only [isAllowed, Bool.or_eq_true, Bool.and_eq_true]
          exact .inr point
      · rintro rfl
        exact absurd unescaped (by decide)
  | short listed =>
      have each : ∀ p ∈ shortEscapes, IsCleanAscii [ascii '\\', ascii p.1] := by decide
      exact .bytes (each _ listed)
  | point listed value =>
      have each : ∀ p ∈ pointEscapes, IsCleanAscii [ascii '\\', ascii p.1] := by decide
      exact .append (.bytes (each _ listed)) (digits value)

/-- A basic string holds no character that a document refuses. -/
theorem isClean_of_isBasicString {t word : Text} (basic : IsBasicString t word) : IsClean t := by
  obtain ⟨body, cs, rfl, spelled, -⟩ := basic
  have inside : IsClean body := by
    induction spelled with
    | nil => exact .nil
    | cons first _ ih => exact first.isClean.append ih
  exact .append (.bytes (by decide : IsCleanAscii [ascii '"'])) (inside.append (.bytes (by decide)))

/-- A basic string stands on one line. -/
theorem IsBasicString.on_one_line {t word : Text} (basic : IsBasicString t word) :
    ∀ b ∈ t, isLineEnd b = false := by
  obtain ⟨body, cs, rfl, spelled, -⟩ := basic
  have plain {b : UInt8} (plain : isPlain b = true) : isLineEnd b = false := by
    simp only [isPlain, Bool.and_eq_true, Bool.not_eq_true'] at plain
    exact plain.1.1
  have inside : ∀ b ∈ body, isLineEnd b = false := by
    induction spelled with
    | nil => simp
    | cons first _ ih =>
        obtain ⟨-, all⟩ | ⟨x, ds, rfl, line, all, -⟩ := first.by_itself_or_escaped
        · exact List.forall_mem_append.mpr ⟨fun b among => plain (all b among), ih⟩
        · refine List.forall_mem_append.mpr ⟨?_, ih⟩
          exact List.forall_mem_cons.mpr
            ⟨by decide, List.forall_mem_cons.mpr ⟨line, fun b among => plain (all b among)⟩⟩
  have mark : isLineEnd (ascii '"') = false := by decide
  refine List.forall_mem_cons.mpr ⟨mark, List.forall_mem_append.mpr ⟨inside, ?_⟩⟩
  exact List.forall_mem_singleton.mpr mark

end Lightboard.Toml
