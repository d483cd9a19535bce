import Lightboard.Proofs.Code.NextMatch

/-!
# Which texts are patterns

A time is written `D:DD` or `DD:DD`, where a star may stand for any digit. A text reads as a pattern
just if each of its pieces between bars is a time with white space around it, and the pattern then has
these times, each at the place where it comes first. `TimeText` states the rule for one piece without
regard to how it is read.
-/

namespace Lightboard

/-- A star, or a digit up to the largest one that is allowed. -/
inductive Place (largest : Nat) : UInt8 → Prop
  | star : Place largest (ascii '*')
  | digit {d : Nat} (small : d ≤ largest) : Place largest (Text.ofDigit d)

/-- How a time is written: the hour with one digit or two, the minute with two. An hour that two digits
fix is at most 23. -/
inductive TimeText : Text → Prop
  | short {h m n : UInt8} (hour : Place 9 h) (tens : Place 5 m) (units : Place 9 n) :
      TimeText [h, ascii ':', m, n]
  | long {g h m n : UInt8} (hourTens : Place 2 g) (hourUnits : Place 9 h) (tens : Place 5 m)
      (units : Place 9 n)
      (hour_le : ∀ a b, a ≤ 9 → b ≤ 9 → g = Text.ofDigit a → h = Text.ofDigit b → 10 * a + b ≤ 23) :
      TimeText [g, h, ascii ':', m, n]

namespace Alternative

/-- The places of an alternative print as the bytes that are allowed there. -/
theorem place_iff {n : Nat} (b : UInt8) : Place n b ↔ ∃ o : Option (Fin (n + 1)), digitByte o = b := by
  constructor
  · rintro (_ | @⟨d, small⟩)
    · exact ⟨none, rfl⟩
    · exact ⟨some ⟨d, Nat.lt_succ_of_le small⟩, rfl⟩
  · rintro ⟨o, rfl⟩
    cases o with
    | none => exact .star
    | some d => exact .digit (Nat.le_of_lt_succ d.isLt)

/-- A byte reads as the place that prints as it, and as nothing else. -/
theorem readDigit?_eq_some_iff {n : Nat} (small : n ≤ 10) (b : UInt8) (o : Option (Fin n)) :
    readDigit? n b = some o ↔ digitByte o = b := by
  constructor
  · intro read
    unfold readDigit? at read
    split at read
    · next star =>
      obtain rfl := Option.some.inj read
      exact star.symm
    · split at read
      · next figure =>
        obtain rfl := Option.some.inj read
        obtain ⟨low, high⟩ := figure
        rw [UInt8.le_iff_toNat_le] at low
        change 48 ≤ b.toNat at low
        rw [← UInt8.toNat_inj, digitByte_some _ small]
        change 48 + (b.toNat - 48) = b.toNat
        omega
      · cases read
  · rintro rfl
    exact readDigit?_digitByte o small

theorem pad_text (a : Alternative) : pad a.text = a.text := rfl

theorem text_injective {a b : Alternative} (same : a.text = b.text) : a = b := by
  have read := read_text a
  rw [same, read_text b] at read
  exact (Except.ok.inj read).symm

/-- A piece reads as the alternative that prints like the padded piece. -/
theorem read_eq_ok_iff (piece : Text) (a : Alternative) :
    read piece = .ok a ↔ a.text = pad piece := by
  constructor
  · intro h
    unfold read at h
    simp only at h
    split at h
    · next g u c m n padded =>
      split at h
      · cases h
      · next colon =>
        split at h
        · next hourTens hourUnits minuteTens minuteUnits =>
          split at h
          · obtain rfl := Except.ok.inj h
            rw [readDigit?_eq_some_iff (by decide)] at hourTens hourUnits minuteTens minuteUnits
            rw [padded, text, hourTens, hourUnits, minuteTens, minuteUnits, not_not.mp colon]
          · cases h
        all_goals cases h
    · cases h
  · intro same
    have unpadded : read piece = read a.text := by
      unfold read
      rw [pad_text, same]
    rw [unpadded, read_text]

theorem wrongDigits_eq_nil_iff (a b d e : UInt8) : wrongDigits a b d e = [] ↔
    ((readDigit? 3 a).isSome ∧ (readDigit? 10 b).isSome) ∧
      (readDigit? 6 d).isSome ∧ (readDigit? 10 e).isSome := by
  simp [wrongDigits, List.filterMap_eq_nil_iff, and_assoc, Option.isSome_iff_ne_none]

theorem wrongDigits_subset (a b d e : UInt8) : wrongDigits a b d e ⊆ [a, b, d, e] := by
  intro c listed
  obtain ⟨⟨most, c'⟩, among, found⟩ := List.mem_filterMap.mp listed
  obtain rfl : c' = c := by simpa using (Option.ite_none_left_eq_some.mp found).2
  have tested : c' ∈ [(3, a), (10, b), (6, d), (10, e)].map Prod.snd := List.mem_map_of_mem among
  exact tested

/-- A piece that is refused for its digits has a wrong one, so there always is one to name. -/
theorem wrong_ne_nil {piece p : Text} {wrong : List UInt8}
    (refused : read piece = .error (.digits p wrong)) : wrong ≠ [] ∧ wrong ⊆ p := by
  unfold read at refused
  simp only at refused
  split at refused
  · next g u c m n padded =>
    split at refused
    · cases refused
    split at refused
    · split at refused
      · cases refused
      · cases refused
    · next unread =>
      cases refused
      constructor
      · intro none
        obtain ⟨⟨first, second⟩, third, fourth⟩ := (wrongDigits_eq_nil_iff _ _ _ _).mp none
        obtain ⟨hourTens, first⟩ := Option.isSome_iff_exists.mp first
        obtain ⟨hourUnits, second⟩ := Option.isSome_iff_exists.mp second
        obtain ⟨minuteTens, third⟩ := Option.isSome_iff_exists.mp third
        obtain ⟨minuteUnits, fourth⟩ := Option.isSome_iff_exists.mp fourth
        exact unread _ _ _ _ first second third fourth
      · rw [padded]
        -- The piece has the colon besides, which is never wrong.
        have digits : [g, u, m, n] ⊆ [g, u, c, m, n] := by simp
        exact List.Subset.trans (wrongDigits_subset g u m n) digits
  · cases refused

/-- What an alternative prints is a time with two digits for the hour. -/
theorem timeText_text (a : Alternative) : TimeText a.text := by
  have place {n : Nat} (o : Option (Fin (n + 1))) : Place n (digitByte o) :=
    (place_iff _).mpr ⟨o, rfl⟩
  refine .long (place a.hourTens) (place a.hourUnits) (place a.minuteTens) (place a.minuteUnits) ?_
  intro t u tensSmall unitsSmall fixedTens fixedUnits
  -- A place that prints as a figure is fixed at that figure.
  have fixed {n d : Nat} {o : Option (Fin n)} (bound : n ≤ 10) (small : d ≤ 9)
      (same : digitByte o = Text.ofDigit d) : ∃ e ∈ o, e.val = d := by
    have byte := ofDigit_toNat (show d < 10 by omega)
    rw [← same] at byte
    cases o with
    | none =>
        change 42 = _ at byte
        omega
    | some e =>
        rw [digitByte_some e bound] at byte
        exact ⟨e, rfl, by omega⟩
  obtain ⟨d, tens, rfl⟩ := fixed (by decide) tensSmall fixedTens
  obtain ⟨e, units, rfl⟩ := fixed (by decide) unitsSmall fixedUnits
  have := a.hour_lt d tens e units
  omega

/-- The grammar says which pieces are alternatives. -/
theorem timeText_iff (piece : Text) : TimeText piece ↔ ∃ a : Alternative, a.text = pad piece := by
  constructor
  · rintro (⟨hour, tens, units⟩ | ⟨hourTens, hourUnits, tens, units, hour_le⟩)
    · obtain ⟨h, rfl⟩ := (place_iff _).mp hour
      obtain ⟨m, rfl⟩ := (place_iff _).mp tens
      obtain ⟨n, rfl⟩ := (place_iff _).mp units
      refine ⟨⟨some 0, h, m, n, ?_⟩, rfl⟩
      intro t zero u _
      obtain rfl := Option.some.inj zero
      have := u.isLt
      simp only [Fin.val_zero]
      omega
    · obtain ⟨g, rfl⟩ := (place_iff _).mp hourTens
      obtain ⟨h, rfl⟩ := (place_iff _).mp hourUnits
      obtain ⟨m, rfl⟩ := (place_iff _).mp tens
      obtain ⟨n, rfl⟩ := (place_iff _).mp units
      refine ⟨⟨g, h, m, n, ?_⟩, rfl⟩
      intro t fixedTens u fixedUnits
      obtain rfl := Option.mem_def.mp fixedTens
      obtain rfl := Option.mem_def.mp fixedUnits
      have := hour_le t u (by omega) (by omega) rfl rfl
      omega
  · rintro ⟨a, same⟩
    unfold pad at same
    split at same
    · split at same
      · next h c m n colon =>
        obtain ⟨-, rfl, -, rfl, rfl⟩ : _ ∧ digitByte a.hourUnits = h ∧ _ ∧
            digitByte a.minuteTens = m ∧ digitByte a.minuteUnits = n := by
          simpa [text] using same
        rw [colon]
        exact .short ((place_iff _).mpr ⟨_, rfl⟩) ((place_iff _).mpr ⟨_, rfl⟩)
          ((place_iff _).mpr ⟨_, rfl⟩)
      · cases same
    · rw [← same]
      exact a.timeText_text

end Alternative

namespace TimePattern

/-- One more element at the end is new or is left out. -/
theorem eraseDups_concat {α : Type} [BEq α] [LawfulBEq α] (xs : List α) (x : α) :
    (xs ++ [x]).eraseDups = xs.eraseDups ++ if x ∈ xs then [] else [x] := by
  rw [List.eraseDups_append]
  split
  · next old => simp [List.removeAll, old]
  · next new => simp [List.removeAll, new, List.eraseDups_cons]

/-- Adding keeps the alternatives at the places where they came first. -/
theorem add_alternatives {p : TimePattern} {as : List Alternative}
    (first : p.alternatives = as.eraseDups) (a : Alternative) :
    (p.add a).alternatives = (as ++ [a]).eraseDups := by
  have member : a ∈ p.alternatives ↔ a ∈ as := by rw [first, List.mem_eraseDups]
  rw [eraseDups_concat, ← first]
  split
  · next old => rw [add, dif_pos (member.mpr old), List.append_nil]
  · next new => rw [add_of_not_mem (mt member.mp new)]

theorem foldl_add_alternatives {p : TimePattern} {before : List Alternative}
    (first : p.alternatives = before.eraseDups) (as : List Alternative) :
    (as.foldl add p).alternatives = (before ++ as).eraseDups := by
  induction as generalizing p before with
  | nil => simpa using first
  | cons a as ih => simpa using ih (add_alternatives first a)

theorem readPiece_eq_ok_iff (p q : TimePattern) (piece : Text) :
    p.readPiece piece = .ok q ↔ ∃ a : Alternative, a.text = Alternative.pad piece.trim ∧ q = p.add a := by
  unfold readPiece
  constructor
  · intro h
    cases read : Alternative.read piece.trim with
    | error e =>
        rw [read] at h
        cases h
    | ok a =>
        rw [read] at h
        exact ⟨a, (Alternative.read_eq_ok_iff _ _).mp read, (Except.ok.inj h).symm⟩
  · rintro ⟨a, same, rfl⟩
    rw [(Alternative.read_eq_ok_iff _ _).mpr same]
    rfl

/-- Reading pieces adds the alternatives that they are, one after the other. -/
theorem foldlM_readPiece_eq_ok_iff (pieces : List Text) (p q : TimePattern) :
    pieces.foldlM readPiece p = .ok q ↔ ∃ as : List Alternative,
      as.map Alternative.text = pieces.map (fun piece => Alternative.pad piece.trim) ∧
      q = as.foldl add p := by
  induction pieces generalizing p with
  | nil =>
      constructor
      · intro h
        exact ⟨[], rfl, (Except.ok.inj h).symm⟩
      · rintro ⟨as, none, rfl⟩
        obtain rfl := List.map_eq_nil_iff.mp none
        rfl
  | cons piece pieces ih =>
      rw [List.foldlM_cons]
      constructor
      · intro h
        cases read : p.readPiece piece with
        | error e =>
            rw [read] at h
            cases h
        | ok p' =>
            rw [read] at h
            obtain ⟨a, same, rfl⟩ := (readPiece_eq_ok_iff p p' piece).mp read
            obtain ⟨as, rest, rfl⟩ := (ih _).mp h
            exact ⟨a :: as, by rw [List.map_cons, List.map_cons, same, rest], rfl⟩
      · rintro ⟨as, same, rfl⟩
        cases as with
        | nil => cases same
        | cons a as =>
            obtain ⟨head, rest⟩ := List.cons.inj same
            rw [(readPiece_eq_ok_iff p _ piece).mpr ⟨a, head, rfl⟩]
            exact (ih _).mpr ⟨as, rest, rfl⟩

/-- Leaving out repetitions commutes with printing, as alternatives that print alike are the same. -/
theorem map_text_eraseDups (as : List Alternative) :
    as.eraseDups.map Alternative.text = (as.map Alternative.text).eraseDups := by
  induction as using List.reverseRecOn with
  | nil => rfl
  | append_singleton as a ih =>
      have member : a.text ∈ as.map Alternative.text ↔ a ∈ as :=
        List.mem_map_of_injective fun _ _ same => Alternative.text_injective same
      rw [List.map_append, List.map_singleton, eraseDups_concat, eraseDups_concat, List.map_append,
        ih]
      congr 1
      split
      · next old => rw [if_pos (member.mpr old), List.map_nil]
      · next new => rw [if_neg (mt member.mp new), List.map_singleton]

/-- Texts that are all the padded text of some alternative are the texts of a list of alternatives. -/
theorem exists_map_text {pieces : List Text} (times : ∀ piece ∈ pieces, TimeText piece.trim) :
    ∃ as : List Alternative,
      as.map Alternative.text = pieces.map fun piece => Alternative.pad piece.trim := by
  induction pieces with
  | nil => exact ⟨[], rfl⟩
  | cons piece pieces ih =>
      obtain ⟨a, same⟩ := (Alternative.timeText_iff _).mp (times piece (by simp))
      obtain ⟨as, rest⟩ := ih fun u member => times u (List.mem_cons_of_mem piece member)
      exact ⟨a :: as, by rw [List.map_cons, List.map_cons, same, rest]⟩

/-- What is read has the padded pieces for alternatives, and they are times. -/
theorem alternatives_of_read {t : Text} {p : TimePattern} (h : read t = .ok p) :
    p.alternatives.map Alternative.text =
        ((Text.splitOn (ascii '|') t).map fun piece => Alternative.pad piece.trim).eraseDups ∧
      ∀ piece ∈ Text.splitOn (ascii '|') t, TimeText piece.trim := by
  obtain ⟨as, same, rfl⟩ := (foldlM_readPiece_eq_ok_iff _ empty p).mp h
  constructor
  · rw [@foldl_add_alternatives empty [] rfl as, List.nil_append, map_text_eraseDups, same]
  · intro piece member
    obtain ⟨a, -, printed⟩ := List.mem_map.mp (same ▸ List.mem_map_of_mem member)
    exact (Alternative.timeText_iff _).mpr ⟨a, printed⟩

/-- A text is a pattern if and only if each of its pieces between bars is a time with white space around
it. The alternatives of the pattern are these times with two digits for the hour, each where it comes
first. A pattern that is made of such patterns by unions is read back from the text it prints. -/
theorem read_exact :
    (∀ t : Text, (∃ p, read t = .ok p) ↔ ∀ piece ∈ Text.splitOn (ascii '|') t, TimeText piece.trim) ∧
    (∀ t p, read t = .ok p → p.alternatives.map Alternative.text =
      ((Text.splitOn (ascii '|') t).map fun piece => Alternative.pad piece.trim).eraseDups) ∧
    ∀ p : TimePattern, p.Parsed → read p.text = .ok p := by
  refine ⟨?_, fun t p h => (alternatives_of_read h).1, ?_⟩
  · intro t
    constructor
    · rintro ⟨p, h⟩
      exact (alternatives_of_read h).2
    · intro times
      obtain ⟨as, same⟩ := exists_map_text times
      exact ⟨_, (foldlM_readPiece_eq_ok_iff _ empty _).mpr ⟨as, same, rfl⟩⟩
  · intro p parsed
    refine read_text ?_
    rintro rfl
    exact parsed.ne_nil rfl

/-- A time that is written in two ways counts once, and white space around a time does not count. -/
theorem spacedTimes_read :
    (∀ piece ∈ Text.splitOn (ascii '|') " 7:30 |*2:5*|07:30", TimeText piece.trim) ∧
      ∃ p, read " 7:30 |*2:5*|07:30" = .ok p ∧
        p.alternatives.map Alternative.text = (["07:30", "*2:5*"] : List Text) ∧
        read (p.union p).text = .ok (p.union p) := by
  obtain ⟨p, h⟩ : ∃ p, read " 7:30 |*2:5*|07:30" = .ok p := ⟨_, rfl⟩
  refine ⟨(read_exact.1 _).mp ⟨p, h⟩, p, h, ?_, read_exact.2.2 _ (.union (.read h) (.read h))⟩
  exact (read_exact.2.1 _ p h).trans (by decide +kernel)

end TimePattern

end Lightboard
