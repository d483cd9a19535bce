import Lightboard.Proofs.Machine.LightChanges
import Lightboard.Proofs.Text.Characters

/-!
# What is typed and who reads it

A text that is typed is read by lines: the `i`-th reading gives the first character of the `i`-th line
(`Keyboard.keyAt`) and leaves the lines behind it. No instruction but `PAUSE` reads any of them, so
between two readings the keyboard stays as it is (`Rig.execute_keyboard`).
-/

namespace Lightboard

namespace Keyboard

/-- The lines of a text, each with its line end. A text behind the last line end is a line, too. -/
def lines : Text → List Text
  | [] => []
  | b :: t =>
    if b = ascii '\n' then [b] :: lines t
    else
      match lines t with
      | [] => [[b]]
      | l :: ls => (b :: l) :: ls

/-- The character that a text begins with. -/
def firstChar? (t : Text) : Option Char := t.runes.head?.map Rune.shown

/-- What the reading with this number gives, unless the lines are used up. -/
def keyAt (t : Text) (i : Nat) : Option Char := (lines t)[i]?.bind firstChar?

/-- The keyboard after as many lines of the text were taken. -/
def afterLines (t : Text) (i : Nat) : Keyboard := { text := ((lines t).drop i).flatten }

example : lines "ab\n\nq" = ([Text.ofString "ab\n", Text.ofString "\n", Text.ofString "q"] : List Text) ∧
    [0, 1, 2, 3].map (keyAt "ab\n\nq") = [some 'a', some '\n', some 'q', none] := by decide +kernel

@[simp] theorem flatten_lines (t : Text) : (lines t).flatten = t := by
  induction t with
  | nil => rfl
  | cons b t ih =>
      rw [lines]
      split
      · rw [List.flatten_cons, ih]
        rfl
      · cases rest : lines t with
        | nil =>
            rw [rest] at ih
            rw [← ih]
            rfl
        | cons l ls =>
            rw [rest] at ih
            rw [← ih]
            rfl

theorem line_newline (t : Text) : line (ascii '\n' :: t) = [ascii '\n'] := by
  simp [line]

theorem line_cons {b : UInt8} (other : b ≠ ascii '\n') (t : Text) : line (b :: t) = b :: line t := by
  have more : (b :: t).takeWhile (· != ascii '\n') = b :: t.takeWhile (· != ascii '\n') :=
    List.takeWhile_cons_of_pos (by simp [other])
  simp only [line, more, List.length_cons, Nat.add_lt_add_iff_right]
  split <;> rfl

theorem line_append {w : Text} (inside : ascii '\n' ∉ w) (t : Text) : line (w ++ t) = w ++ line t := by
  induction w with
  | nil => rfl
  | cons b w ih =>
      rw [List.mem_cons, not_or] at inside
      rw [List.cons_append, line_cons (Ne.symm inside.1), ih inside.2, List.cons_append]

/-- The lines of a text are its first line and the lines of what is behind it. -/
theorem lines_eq {t : Text} (some : t ≠ []) :
    ∃ rest, t = line t ++ rest ∧ lines t = line t :: lines rest := by
  induction t with
  | nil => exact absurd rfl some
  | cons b t ih =>
      by_cases ends : b = ascii '\n'
      · subst ends
        rw [line_newline, lines, if_pos rfl]
        exact ⟨t, rfl, rfl⟩
      · rw [line_cons ends, lines, if_neg ends]
        cases t with
        | nil => exact ⟨[], rfl, rfl⟩
        | cons c t =>
            obtain ⟨rest, parts, cut⟩ := ih (List.cons_ne_nil c t)
            rw [cut]
            exact ⟨rest, congrArg (b :: ·) parts, rfl⟩

theorem ne_nil_of_mem_lines {t l : Text} (among : l ∈ lines t) : l ≠ [] := by
  induction t generalizing l with
  | nil => cases among
  | cons b t ih =>
      rw [lines] at among
      split at among
      · obtain rfl | among := List.mem_cons.mp among
        · exact List.cons_ne_nil b []
        · exact ih among
      · cases rest : lines t with
        | nil =>
            rw [rest] at among
            obtain rfl := List.mem_singleton.mp among
            exact List.cons_ne_nil b []
        | cons l' ls =>
            rw [rest] at among
            obtain rfl | among := List.mem_cons.mp among
            · exact List.cons_ne_nil b l'
            · exact ih (rest ▸ List.mem_cons_of_mem l' among)

/-- Lines that are left are cut as before. -/
theorem lines_afterLines (t : Text) (i : Nat) : lines (afterLines t i).text = (lines t).drop i := by
  induction i with
  | zero => exact congrArg lines (flatten_lines t)
  | succ i ih =>
      have tail (u : Text) : lines (lines u).tail.flatten = (lines u).tail := by
        by_cases none : u = []
        · rw [none]
          rfl
        · obtain ⟨rest, -, cut⟩ := lines_eq none
          rw [cut, List.tail_cons, flatten_lines]
      have next := tail (afterLines t i).text
      rwa [ih, List.tail_drop] at next

theorem firstChar?_eq_none_iff {t : Text} : firstChar? t = none ↔ t = [] := by
  rw [firstChar?, Option.map_eq_none_iff, List.head?_eq_none_iff]
  constructor
  · intro none
    by_contra some
    exact Text.runes_ne_nil some none
  · rintro rfl
    rfl

/-- A reading gives a character as long as there are lines. -/
theorem keyAt_eq_none_iff {t : Text} {i : Nat} : keyAt t i = none ↔ (lines t).length ≤ i := by
  rw [keyAt, Option.bind_eq_none_iff, ← List.getElem?_eq_none_iff]
  constructor
  · intro none
    by_contra some
    obtain ⟨l, found⟩ := Option.ne_none_iff_exists'.mp some
    exact ne_nil_of_mem_lines (List.mem_of_getElem? found)
      (firstChar?_eq_none_iff.mp (none l found))
  · intro none l found
    cases none.symm.trans found

theorem firstChar?_utf8EncodeChar_append (c : Char) (t : Text) :
    firstChar? (String.utf8EncodeChar c ++ t) = some c := by
  rw [firstChar?, Text.runes_utf8EncodeChar_append]
  rfl

theorem newline_not_mem {c : Char} (other : c ≠ '\n') : ascii '\n' ∉ String.utf8EncodeChar c := by
  intro among
  obtain ⟨small, single⟩ | ⟨-, high⟩ := Text.utf8EncodeChar_cases c
  · rw [single] at among
    have same := congrArg UInt8.toNat (List.mem_singleton.mp among)
    rw [Text.toNat_ofNat_byte (by omega)] at same
    exact other (Char.toNat_inj.mp same.symm)
  · exact absurd (high _ among) (by decide)

/-- A line end is no part of a character, so a line begins as the text does. -/
theorem firstChar?_line (t : Text) : firstChar? (line t) = firstChar? t := by
  have parts {u : Text} {r : Rune} {rs : List Rune} (runes : u.runes = r :: rs) :
      u = r.bytes ++ Text.encode rs := by
    rw [← u.encode_runes, runes]
    rfl
  cases runes : t.runes with
  | nil =>
      obtain rfl : t = [] := by
        by_contra some
        exact Text.runes_ne_nil some runes
      rfl
  | cons r rs =>
      cases r with
      | char c =>
          have text : t = String.utf8EncodeChar c ++ Text.encode rs := parts runes
          rw [text, firstChar?_utf8EncodeChar_append]
          by_cases ends : c = '\n'
          · subst ends
            exact congrArg firstChar? (line_newline _)
          · rw [line_append (newline_not_mem ends), firstChar?_utf8EncodeChar_append]
      | stray b =>
          have some : t ≠ [] := by
            rintro rfl
            cases runes
          obtain ⟨rest, whole, cut⟩ := lines_eq some
          have begins : line t ≠ [] := ne_nil_of_mem_lines (t := t) (cut ▸ List.mem_cons_self)
          have found : firstChar? t = .some (Char.ofNat 0xFFFD) := by
            rw [firstChar?, runes]
            rfl
          generalize line t = l at *
          cases lead : l.runes with
          | nil => exact absurd lead (Text.runes_ne_nil begins)
          | cons r' rs' =>
              cases r' with
              | stray b' =>
                  rw [found, firstChar?, lead]
                  rfl
              | char c =>
                  -- The character begins the text as well.
                  have bytes : l = String.utf8EncodeChar c ++ Text.encode rs' := parts lead
                  rw [whole, bytes, List.append_assoc, firstChar?_utf8EncodeChar_append,
                    firstChar?_utf8EncodeChar_append]

/-- The next reading takes the next line. -/
theorem readKey_afterLines (t : Text) (i : Nat) :
    (afterLines t i).readKey =
      ((keyAt t i).elim (.error .endOfInput) .ok, afterLines t (i + 1)) := by
  have left := lines_afterLines t i
  have key : keyAt t i = ((lines t).drop i).head?.bind firstChar? := by
    rw [List.head?_drop]
    rfl
  have next : afterLines t (i + 1) = { text := ((lines t).drop i).tail.flatten } := by
    rw [List.tail_drop]
    rfl
  rw [key, next, ← left]
  obtain ⟨u, same⟩ : ∃ u, (afterLines t i).text = u := ⟨_, rfl⟩
  have keyboard : afterLines t i = { text := u } := by
    rw [← same]
    rfl
  rw [keyboard]
  cases runes : u.runes with
  | nil =>
      obtain rfl : u = [] := by
        by_contra some
        exact Text.runes_ne_nil some runes
      rfl
  | cons r rs =>
      have some : u ≠ [] := by
        rintro rfl
        cases runes
      obtain ⟨rest, whole, cut⟩ := lines_eq some
      have first : firstChar? (line u) = .some r.shown := by
        rw [firstChar?_line, firstChar?, runes]
        rfl
      have behind : u.drop (line u).length = rest :=
        (congrArg (List.drop (line u).length) whole).trans List.drop_left
      rw [cut, List.head?_cons, Option.bind_some, first, List.tail_cons, flatten_lines, ← behind]
      simp only [readKey, runes]
      rfl

end Keyboard

namespace Stage

@[simp] theorem poll_keyboard (s : Stage) : s.poll.1.keyboard = s.keyboard := by
  rw [poll_eq]

@[simp] theorem write_keyboard (s : Stage) (t : Text) : (s.write t).1.keyboard = s.keyboard := by
  unfold write
  split <;> rfl

theorem Conduct.keyboard {op : OpCode} {s t : Stage} (h : s.Conduct op t) (other : op ≠ .pause) :
    t.keyboard = s.keyboard := by
  induction h with
  | start => rfl
  | aside _ _ _ keyboard ih => exact keyboard.trans ih
  | colored _ _ _ _ ih => exact ih
  | zonesColored _ _ _ _ ih => exact ih
  | switched _ _ _ _ ih => exact ih
  | keyed is => exact absurd is other

end Stage

namespace Rig

/-- No instruction but `PAUSE` reads what is typed. -/
theorem execute_keyboard {r : Rig} {i : Instruction} (other : i.op ≠ .pause) (p : Program) :
    (r.execute p i).1.stage.keyboard = r.stage.keyboard :=
  (r.execute_conduct p i).keyboard other

end Rig

end Lightboard
