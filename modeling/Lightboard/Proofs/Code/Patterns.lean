import Lightboard.Code.TimePattern
import Lightboard.Proofs.Text.Utf8
import Mathlib.Data.Fintype.Option
import Mathlib.Data.Fintype.Prod
import Mathlib.Data.Fintype.Card

/-!
# Time patterns as text

A pattern that has alternatives is read back from its text. The pattern without alternatives has the
empty text, which is no pattern.
-/

namespace Lightboard

namespace Text

theorem splitOn_of_not_mem {sep : UInt8} {t : Text} (absent : sep ∉ t) : splitOn sep t = [t] := by
  induction t with
  | nil => rfl
  | cons b t ih =>
      simp only [List.mem_cons, not_or] at absent
      unfold splitOn
      rw [if_neg (Ne.symm absent.1), ih absent.2]

theorem splitOn_append {sep : UInt8} {t : Text} (absent : sep ∉ t) (rest : Text) :
    splitOn sep (t ++ sep :: rest) = t :: splitOn sep rest := by
  induction t with
  | nil => simp [splitOn]
  | cons b t ih =>
      simp only [List.mem_cons, not_or] at absent
      rw [List.cons_append, splitOn, if_neg (Ne.symm absent.1), ih absent.2]

/-- Cutting undoes joining if the separator is in none of the pieces. -/
theorem splitOn_join {sep : UInt8} {t : Text} {ts : List Text} (absent : ∀ u ∈ t :: ts, sep ∉ u) :
    splitOn sep (join [sep] (t :: ts)) = t :: ts := by
  induction ts generalizing t with
  | nil =>
      simp only [join, List.intercalate_singleton]
      exact splitOn_of_not_mem (absent t (by simp))
  | cons u us ih =>
      have rest := @ih u (fun v member => absent v (List.mem_cons_of_mem t member))
      simp only [join] at rest ⊢
      rw [List.intercalate_cons_cons, List.append_assoc, List.singleton_append,
        splitOn_append (absent t (by simp)), rest]

theorem splitOn_ne_nil (sep : UInt8) (t : Text) : splitOn sep t ≠ [] := by
  cases t with
  | nil => simp [splitOn]
  | cons b t =>
      unfold splitOn
      split
      · simp
      · split <;> simp

/-- White space is cut off at the ends only. -/
theorem trim_of_ends {t : Text} {first last : Rune} {between : List Rune}
    (ends : runes t = first :: (between ++ [last])) (hf : isBlank first = false)
    (hl : isBlank last = false) : trim t = t := by
  unfold trim
  rw [ends, List.dropWhile_cons_of_neg (by simp [hf])]
  rw [show (first :: (between ++ [last])).reverse = last :: (first :: between).reverse by simp,
    List.dropWhile_cons_of_neg (by simp [hl])]
  rw [show (last :: (first :: between).reverse).reverse = runes t by simp [ends], encode_runes]

end Text

namespace Alternative

theorem digitByte_some {n : Nat} (d : Fin n) (small : n ≤ 10) :
    (digitByte (some d)).toNat = 48 + d.val := by
  have below := d.isLt
  have word : 48 + d.val < 256 := by omega
  exact UInt8.toNat_ofNat_of_lt word

/-- A digit is a star or a figure. -/
theorem digitByte_toNat {n : Nat} (o : Option (Fin n)) (small : n ≤ 10) :
    (digitByte o).toNat = 42 ∨ 48 ≤ (digitByte o).toNat ∧ (digitByte o).toNat ≤ 57 := by
  cases o with
  | none => exact .inl rfl
  | some d =>
      rw [digitByte_some d small]
      omega

theorem readDigit?_digitByte {n : Nat} (o : Option (Fin n)) (small : n ≤ 10) :
    readDigit? n (digitByte o) = some o := by
  cases o with
  | none => rfl
  | some d =>
      have byte := digitByte_some d small
      generalize digitByte (some d) = b at *
      have notStar : b ≠ ascii '*' := by
        rintro rfl
        change 42 = _ at byte
        omega
      have isFigure : ascii '0' ≤ b ∧ b.toNat - 48 < n := by
        rw [UInt8.le_iff_toNat_le, byte]
        change 48 ≤ _ ∧ _
        omega
      unfold readDigit?
      rw [if_neg notStar, dif_pos isFigure]
      congr
      omega

theorem read_text (a : Alternative) : read a.text = .ok a := by
  have colon : ¬ ascii ':' ≠ ascii ':' := by simp
  simp only [text, read, pad, if_neg colon, readDigit?_digitByte _ (by decide : 3 ≤ 10),
    readDigit?_digitByte _ (by decide : 6 ≤ 10), readDigit?_digitByte _ (by decide : 10 ≤ 10)]
  rw [dif_pos a.hour_lt]

theorem isBlank_digit {n : Nat} (o : Option (Fin n)) (small : n ≤ 10) :
    Text.isBlank (.char (Char.ofNat (digitByte o).toNat)) = false := by
  have range := digitByte_toNat o small
  generalize (digitByte o).toNat = k at *
  have point : (Char.ofNat k).toNat = k := by
    unfold Char.ofNat
    rw [dif_pos (.inl (by omega))]
    rfl
  simp only [Text.isBlank, Rune.point, Rune.shown, point]
  simp
  omega

theorem runes_text (a : Alternative) :
    Text.runes a.text = a.text.map fun b => .char (Char.ofNat b.toNat) := by
  have small : ∀ {n : Nat} (o : Option (Fin n)), n ≤ 10 → (digitByte o).toNat < 128 := by
    intro n o bound
    have := digitByte_toNat o bound
    omega
  unfold text
  rw [Text.runes_ascii_cons (small _ (by decide)), Text.runes_ascii_cons (small _ (by decide)),
    Text.runes_ascii_cons (by decide), Text.runes_ascii_cons (small _ (by decide)),
    Text.runes_ascii_cons (small _ (by decide))]
  rfl

theorem trim_text (a : Alternative) : a.text.trim = a.text :=
  @Text.trim_of_ends _ _ _ [_, _, _] a.runes_text (isBlank_digit _ (by decide))
    (isBlank_digit _ (by decide))

theorem bar_not_mem_text (a : Alternative) : ascii '|' ∉ a.text := by
  have other : ∀ {n : Nat} (o : Option (Fin n)), n ≤ 10 → ascii '|' ≠ digitByte o := by
    intro n o bound same
    have := digitByte_toNat o bound
    rw [← same] at this
    change 124 = 42 ∨ 48 ≤ 124 ∧ 124 ≤ 57 at this
    omega
  simp only [text, List.mem_cons, List.not_mem_nil, or_false, not_or]
  exact ⟨other _ (by decide), other _ (by decide), by decide, other _ (by decide),
    other _ (by decide)⟩

end Alternative

namespace TimePattern

theorem add_of_not_mem {p : TimePattern} {a : Alternative} (new : a ∉ p.alternatives) :
    (p.add a).alternatives = p.alternatives ++ [a] := by
  unfold add
  rw [dif_neg new]

theorem add_ne_nil (p : TimePattern) (a : Alternative) : (p.add a).alternatives ≠ [] := by
  unfold add
  split
  · next member => exact List.ne_nil_of_mem member
  · simp

/-- One piece of the text of a pattern, read after others. -/
def readPiece (p : TimePattern) (piece : Text) : Except PatternError TimePattern := do
  let a ← Alternative.read piece.trim
  return p.add a

theorem readPiece_text (p : TimePattern) (a : Alternative) :
    p.readPiece a.text = .ok (p.add a) := by
  unfold readPiece
  rw [a.trim_text, a.read_text]
  rfl

/-- Pieces that are new are added one after the other. -/
theorem foldlM_readPiece {as : List Alternative} {p : TimePattern}
    (nodup : (p.alternatives ++ as).Nodup) :
    ∃ q, (as.map Alternative.text).foldlM readPiece p = .ok q ∧
      q.alternatives = p.alternatives ++ as := by
  induction as generalizing p with
  | nil => exact ⟨p, rfl, by simp⟩
  | cons a as ih =>
      have new : a ∉ p.alternatives := by
        intro member
        exact (List.nodup_append.1 nodup).2.2 a member a (by simp) rfl
      have added := add_of_not_mem new
      obtain ⟨q, read, alternatives⟩ := @ih (p.add a) (by rw [added]; simpa using nodup)
      refine ⟨q, ?_, ?_⟩
      · rw [List.map_cons, List.foldlM_cons, readPiece_text]
        exact read
      · rw [alternatives, added]
        simp

theorem ext_alternatives {p q : TimePattern} (h : p.alternatives = q.alternatives) : p = q := by
  cases p
  cases q
  cases h
  rfl

/-- A pattern with alternatives is read back from its text. -/
theorem read_text {p : TimePattern} (some : p ≠ empty) : read p.text = .ok p := by
  change (Text.splitOn (ascii '|') p.text).foldlM readPiece empty = .ok p
  cases alternatives : p.alternatives with
  | nil => exact absurd (ext_alternatives alternatives) some
  | cons a as =>
      have pieces : Text.splitOn (ascii '|') p.text = p.alternatives.map Alternative.text := by
        unfold text
        rw [alternatives, List.map_cons, Text.splitOn_join]
        intro t member
        obtain ⟨b, -, rfl⟩ :=
          List.mem_map.1 (List.map_cons ▸ member : t ∈ (a :: as).map Alternative.text)
        exact b.bar_not_mem_text
      obtain ⟨q, read, same⟩ :=
        @foldlM_readPiece p.alternatives empty (by simpa [empty] using p.nodup)
      rw [pieces, read, ext_alternatives (p := p) (q := q) (by rw [same]; rfl)]

/-- What is read has alternatives. -/
theorem ne_empty_of_read {t : Text} {p : TimePattern} (h : read t = .ok p) : p ≠ empty := by
  change (Text.splitOn (ascii '|') t).foldlM readPiece empty = .ok p at h
  obtain none | ⟨pieces, last, cut⟩ := List.eq_nil_or_concat (Text.splitOn (ascii '|') t)
  · exact absurd none (Text.splitOn_ne_nil _ _)
  · rw [cut, List.concat_eq_append, List.foldlM_append] at h
    cases before : pieces.foldlM readPiece empty with
    | error e =>
        rw [before] at h
        cases h
    | ok q =>
        rw [before] at h
        simp only [List.foldlM_cons, List.foldlM_nil, bind_pure] at h
        change q.readPiece last = .ok p at h
        cases piece : Alternative.read last.trim with
        | error e =>
            rw [readPiece, piece] at h
            cases h
        | ok a =>
            rw [readPiece, piece] at h
            cases h
            intro none
            exact q.add_ne_nil a (congrArg alternatives none)

/-- There are only so many alternatives. -/
theorem length_alternatives_le (p : TimePattern) : p.alternatives.length ≤ 3388 := by
  let digits : Alternative → Option (Fin 3) × Option (Fin 10) × Option (Fin 6) × Option (Fin 10) :=
    fun a => (a.hourTens, a.hourUnits, a.minuteTens, a.minuteUnits)
  have injective : Function.Injective digits := by
    rintro ⟨a, b, c, d, h⟩ ⟨a', b', c', d', h'⟩ same
    cases same
    rfl
  have count := (p.nodup.map injective).length_le_card
  simpa using count

theorem length_join_texts (a : Alternative) (as : List Alternative) :
    (Text.join [ascii '|'] ((a :: as).map Alternative.text)).length + 1 = 6 * (a :: as).length := by
  induction as generalizing a with
  | nil => rfl
  | cons b as ih =>
      have rest := ih b
      simp only [Text.join, List.map_cons] at rest ⊢
      rw [List.intercalate_cons_cons]
      simp only [List.length_append, List.length_cons, Alternative.text, List.length_nil] at rest ⊢
      omega

theorem length_text_lt (p : TimePattern) : p.text.length < 2 ^ 32 := by
  have count := p.length_alternatives_le
  cases alternatives : p.alternatives with
  | nil =>
      rw [text, alternatives]
      decide
  | cons a as =>
      have length := length_join_texts a as
      rw [← alternatives] at length
      unfold text
      omega

end TimePattern

end Lightboard
