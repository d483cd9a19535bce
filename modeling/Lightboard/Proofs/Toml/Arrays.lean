import Lightboard.Proofs.Toml.Clean
import Lightboard.Proofs.Toml.Numbers

/-!
# Arrays

An array is read item by item, and each item is read up to the comma or bracket behind it. `Denotes`
says of a text that it is read like this, `Gap` that a text between items is passed over. Arrays of
scalars, and arrays of those, are built from the three steps of `readItems`.
-/

namespace Lightboard.Toml

/-- A byte that ends a gap: no white space and no mark of a comment. -/
def EndsGap (b : UInt8) : Prop := isSpace b = false ∧ isLineEnd b = false ∧ b ≠ ascii '#'

instance (b : UInt8) : Decidable (EndsGap b) := inferInstanceAs (Decidable (_ ∧ _))

/-- What is passed over between items. -/
def Gap (g : Text) : Prop :=
  ∀ b rest, EndsGap b → skipBlank (g ++ b :: rest).length (g ++ b :: rest) = b :: rest

/-- In an array, the text is read as the term by calls of a given depth. -/
structure Denotes (t : Text) (v : Term) (depth : Nat) : Prop where
  begins : ∃ b rest, t = b :: rest ∧ EndsGap b ∧ b ≠ ascii ']'
  clean : IsClean t
  reads : ∀ {fuel : Nat} {tail : Text}, depth ≤ fuel → AfterItem tail → readTerm fuel (t ++ tail) =
    some (v, tail)

theorem denotes_scalar {t : Text} {v : Term} {b : UInt8} {rest : Text} (begins : t = b :: rest)
    (ends : EndsGap b)
    (other : b ≠ ascii ']') (clean : IsClean t)
    (reads : ∀ fuel tail, AfterItem tail → readTerm (fuel + 1) (t ++ tail) = some (v, tail)) :
    Denotes t v 1 := by
  refine ⟨⟨b, rest, begins, ends, other⟩, clean, fun {fuel tail} enough after => ?_⟩
  obtain ⟨fuel, rfl⟩ : ∃ n, fuel = n + 1 := ⟨fuel - 1, by omega⟩
  exact reads fuel tail after

theorem skipBlank_of_endsGap {b : UInt8} (ends : EndsGap b) (fuel : Nat) (rest : Text) :
    skipBlank fuel (b :: rest) = b :: rest := by
  cases fuel with
  | zero => rfl
  | succ fuel =>
      obtain ⟨space, line, comment⟩ := ends
      have stop : (b :: rest).dropWhile (fun b => isSpace b || isLineEnd b) = b :: rest :=
        List.dropWhile_cons_of_neg (by simp [space, line])
      simp only [skipBlank, stop, if_neg comment]

/-- A text of blanks and line ends. -/
def IsWhite (g : Text) : Prop := ∀ b ∈ g, (isSpace b || isLineEnd b) = true

instance (g : Text) : Decidable (IsWhite g) := List.decidableBAll
    (fun b : UInt8 => (isSpace b || isLineEnd b) = true) g

theorem skipBlank_white {g : Text} (white : IsWhite g) {b : UInt8}
    (ends : EndsGap b) (fuel : Nat) (rest : Text) :
    skipBlank (fuel + 1) (g ++ b :: rest) = b :: rest := by
  have stop : (g ++ b :: rest).dropWhile (fun b => isSpace b || isLineEnd b) = b :: rest := by
    refine dropWhile_append white fun c first => ?_
    obtain rfl := Option.some.inj first
    simp [ends.1, ends.2.1]
  simp only [skipBlank, stop, if_neg ends.2.2]

theorem gap_white {g : Text} (white : IsWhite g) : Gap g := by
  intro b rest ends
  rw [List.length_append, List.length_cons, ← Nat.add_assoc]
  exact skipBlank_white white ends _ rest

/-- A comment up to the end of its line, with white space around it. -/
theorem gap_comment {before comment after : Text} (white : IsWhite before)
    (inside : ∀ b ∈ comment, isLineEnd b = false) (white' : IsWhite after)
    (line : after.head?.any isLineEnd = true) : Gap (before ++ ascii '#' :: comment ++ after) := by
  intro b rest ends
  obtain ⟨fuel, same⟩ : ∃ fuel, (before ++ ascii '#' :: comment ++ after ++ b :: rest).length =
    fuel + 2 := by
    refine ⟨before.length + comment.length + after.length + rest.length, ?_⟩
    simp only [List.length_append, List.length_cons]
    omega
  have first : (before ++ ascii '#' :: comment ++ after ++ b :: rest).dropWhile
      (fun b => isSpace b || isLineEnd b) = ascii '#' :: (comment ++ (after ++ b :: rest)) := by
    rw [List.append_assoc, List.append_assoc]
    refine dropWhile_append white fun c first => ?_
    obtain rfl := Option.some.inj first
    rfl
  have second : skipLine (ascii '#' :: (comment ++ (after ++ b :: rest))) = after ++ b :: rest := by
    rw [skipLine, ← List.cons_append]
    refine dropWhile_append ?_ ?_
    · intro c mem
      obtain rfl | mem := List.mem_cons.1 mem
      · rfl
      · simp [inside c mem]
    · intro c mem
      obtain ⟨d, ds, rfl⟩ : ∃ d ds, after = d :: ds := by
        refine List.exists_cons_of_ne_nil ?_
        rintro rfl
        cases line
      obtain rfl := Option.some.inj mem
      rw [show isLineEnd d = true from line]
      rfl
  rw [same, skipBlank]
  simp only [first, second, if_true]
  exact skipBlank_white white' ends fuel rest

section

variable {g t tail rest : Text} {v : Term} {items : List Term} {fuel depth : Nat}

/-- The closing bracket, after the opening one or a comma. -/
theorem readItems_close (gap : Gap g) (fuel : Nat) (tail : Text) :
    readItems (fuel + 1) (g ++ ascii ']' :: tail) = some (.array [], tail) := by
  rw [readItems]
  simp only [gap (ascii ']') tail (by decide), if_true]

/-- An item before a comma. -/
theorem readItems_item (gap : Gap g) (item : Denotes t v depth) (enough : depth ≤ fuel)
    (more : readItems fuel tail = some (.array items, rest)) :
    readItems (fuel + 1) (g ++ (t ++ ascii ',' :: tail)) = some (.array (v :: items), rest) := by
  obtain ⟨b, t', rfl, ends, other⟩ := item.begins
  have after : AfterItem (ascii ',' :: tail) := ⟨_, _, rfl, .inl rfl⟩
  have comma := @skipBlank_of_endsGap (ascii ',') (by decide) (ascii ',' :: tail).length tail
  have read := item.reads enough after
  rw [List.cons_append] at read ⊢
  rw [readItems]
  simp only [gap b _ ends, if_neg other, read, comma, more]
  rfl

/-- The last item, before the closing bracket. -/
theorem readItems_last (gap : Gap g) (item : Denotes t v depth) (enough : depth ≤ fuel)
    (tail : Text) :
    readItems (fuel + 1) (g ++ (t ++ ascii ']' :: tail)) = some (.array [v], tail) := by
  obtain ⟨b, t', rfl, ends, other⟩ := item.begins
  have after : AfterItem (ascii ']' :: tail) := ⟨_, _, rfl, .inr rfl⟩
  have bracket := @skipBlank_of_endsGap (ascii ']') (by decide) (ascii ']' :: tail).length tail
  have read := item.reads enough after
  rw [List.cons_append] at read ⊢
  rw [readItems]
  simp only [gap b _ ends, if_neg other, read, bracket]
  rfl

/-- The items of a row, with a blank after each comma. -/
theorem readItems_row {ts : List Text} {vs : List Term} (first : Denotes t v 1)
    (more : List.Forall₂ (fun t v => Denotes t v 1) ts vs) (gap : Gap g)
    (enough : ts.length + 1 ≤ fuel)
    (tail : Text) :
    readItems (fuel + 1)
    (g ++ (t ++ (ts.flatMap (ascii ',' :: ascii ' ' :: ·) ++ ascii ']' :: tail))) =
      some (.array (v :: vs), tail) := by
  induction more generalizing t v g fuel with
  | nil => exact readItems_last gap first (by simpa using enough) tail
  | @cons u w us ws second _ ih =>
      rw [List.length_cons] at enough
      obtain ⟨fuel, rfl⟩ : ∃ n, fuel = n + 1 := ⟨fuel - 1, by omega⟩
      have blank : Gap [ascii ' '] := gap_white (by decide)
      have rest := ih second blank (by omega : us.length + 1 ≤ fuel)
      rw [List.flatMap_cons, List.cons_append, List.cons_append, List.append_assoc]
      exact readItems_item gap first (by omega) rest

/-- A row of scalars denotes the array of them. -/
theorem denotes_row {ts : List Text} {vs : List Term} (first : Denotes t v 1)
    (more : List.Forall₂ (fun t v => Denotes t v 1) ts vs) :
    Denotes (ascii '[' :: (t ++ (ts.flatMap (ascii ',' :: ascii ' ' :: ·) ++ [ascii ']'])))
    (.array (v :: vs))
      (ts.length + 3) := by
  have clean : IsClean (ts.flatMap (ascii ',' :: ascii ' ' :: ·)) := by
    induction more with
    | nil => exact IsClean.nil
    | cons second _ ih => exact
        (IsClean.append (.bytes (by decide : IsCleanAscii [ascii ',', ascii ' ']))
        second.clean).append ih
  refine ⟨⟨_, _, rfl, by decide, by decide⟩,
    .append (.bytes (by decide : IsCleanAscii [ascii '[']))
      (first.clean.append (clean.append (.bytes (by decide)))),
    fun {fuel tail} enough _ => ?_⟩
  obtain ⟨fuel, rfl⟩ : ∃ n, fuel = n + 2 := ⟨fuel - 2, by omega⟩
  have items := readItems_row first more (gap_white (g := []) (by decide))
    (by omega : ts.length + 1 ≤ fuel) tail
  rw [List.nil_append] at items
  have skip : skipSpace (ascii '[' ::
      (t ++ (ts.flatMap (ascii ',' :: ascii ' ' :: ·) ++ [ascii ']']) ++ tail)) =
      ascii '[' :: (t ++ (ts.flatMap (ascii ',' :: ascii ' ' :: ·) ++ ascii ']' :: tail)) := by
    rw [List.append_assoc, List.append_assoc]
    rfl
  rw [List.cons_append, readTerm]
  simp only [skip, if_true]
  exact items

end

end Lightboard.Toml
