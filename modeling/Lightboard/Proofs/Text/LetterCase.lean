import Lightboard.Proofs.Text.Characters

/-!
# Upper case

A name in ASCII is looked up after putting a text in upper case. Only two characters outside ASCII
have an upper case in it, so `Text.upper`, which leaves all the others as they are, finds the same
names as the whole mapping of characters does (`Text.upper_eq_iff`).
-/

namespace Lightboard

/-- The mapping of characters to upper case, as far as ASCII is concerned: inside it letters become
capital letters, and from outside the dotless i and the long s alone come into it. -/
structure IsUpperCase (up : Char → Char) : Prop where
  ascii : ∀ c, c.toNat < 128 → up c = c.toUpper
  dotless : up (Char.ofNat 0x131) = 'I'
  long : up (Char.ofNat 0x17F) = 'S'
  outside : ∀ c, 128 ≤ c.toNat → c.toNat ≠ 0x131 → c.toNat ≠ 0x17F → 128 ≤ (up c).toNat

/-- Upper case for the letters of ASCII and the two that come into it, and no others. -/
def capital (c : Char) : Char :=
  if c.toNat = 0x131 then 'I' else if c.toNat = 0x17F then 'S' else c.toUpper

theorem toUpper_of_high {c : Char} (large : 128 ≤ c.toNat) : c.toUpper = c := by
  unfold Char.toUpper
  rw [dif_neg]
  rintro ⟨-, most⟩
  have : c.toNat ≤ 122 := most
  omega

theorem isUpperCase_capital : IsUpperCase capital where
  ascii c small := by
    unfold capital
    rw [if_neg (by omega), if_neg (by omega)]
  dotless := rfl
  long := rfl
  outside c large notDotless notLong := by
    unfold capital
    rw [if_neg notDotless, if_neg notLong, toUpper_of_high large]
    exact large

namespace Text

/-- The text of the characters that others are mapped to. -/
def mapChars (f : Char → Char) (t : Text) : Text := ofChars (t.runes.map fun r => f r.shown)

theorem not_ascii_of_beginsHigh {s t : Text} (high : BeginsHigh s) : ¬ IsAscii (s ++ t) := by
  obtain ⟨b, u, rfl, large⟩ := high
  intro small
  have := small b (by simp)
  omega

/-- An ASCII byte is a character by itself, so it is never a stray one. -/
theorem high_of_stray {b : UInt8} {k : Nat} {t : Text} (stray : .stray b ∈ runesFrom k t) :
    128 ≤ b.toNat := by
  induction t generalizing k with
  | nil => cases stray
  | cons a t ih =>
      cases k with
      | succ k => exact ih stray
      | zero =>
          rw [runesFrom] at stray
          split at stray
          · obtain same | later := List.mem_cons.mp stray
            · cases same
            · exact ih later
          · next none =>
            obtain same | later := List.mem_cons.mp stray
            · cases same
              by_contra small
              have single := leading?_one t (n := b.toNat) (by omega)
              have valid : b.toNat.isValidChar := .inl (by omega)
              rw [UInt8.ofNat_toNat, none, scalar?, dif_pos valid] at single
              cases single
            · exact ih later

/-- Two ways of writing runes give the same ASCII texts if they write each rune alike or both of them
begin it outside ASCII. -/
theorem flatMap_eq_of_alike {f g : Rune → Text} {rs : List Rune}
    (alike : ∀ r ∈ rs, f r = g r ∨ (BeginsHigh (f r) ∧ BeginsHigh (g r))) {name : Text}
    (small : name.IsAscii) : rs.flatMap f = name ↔ rs.flatMap g = name := by
  induction rs generalizing name with
  | nil => rfl
  | cons r rs ih =>
      rw [List.flatMap_cons, List.flatMap_cons]
      have ih {rest : Text} (small : rest.IsAscii) :=
        ih (fun r' later => alike r' (by simp [later])) small
      obtain same | ⟨high, high'⟩ := alike r List.mem_cons_self
      · rw [same]
        constructor
        · rintro rfl
          rw [(ih fun b mem => small b (by simp [mem])).mp rfl]
        · rintro rfl
          rw [(ih fun b mem => small b (by simp [mem])).mpr rfl]
      · constructor
        · rintro rfl
          exact absurd small (not_ascii_of_beginsHigh high)
        · rintro rfl
          exact absurd small (not_ascii_of_beginsHigh high')

/-- An ASCII name is found in upper case just if the mapping of all characters gives it. -/
theorem upper_eq_iff {up : Char → Char} (upper : IsUpperCase up) {name : Text}
    (small : name.IsAscii) (t : Text) : t.upper = name ↔ t.mapChars up = name := by
  rw [Text.upper, encode, List.flatMap_map, mapChars, ofChars, List.flatMap_map]
  refine flatMap_eq_of_alike (fun r among => ?_) small
  cases r with
  | stray b =>
      have replaced : 128 ≤ (up (Char.ofNat 0xFFFD)).toNat :=
        upper.outside _ (by decide) (by decide) (by decide)
      exact .inr ⟨⟨b, [], rfl, high_of_stray among⟩, beginsHigh_utf8EncodeChar replaced⟩
  | char c =>
      simp only [upperRune, Rune.shown]
      have named {n : Nat} (point : c.toNat = n) : c = Char.ofNat n :=
        point ▸ (Char.ofNat_toNat c).symm
      split
      · next point =>
        rw [named point, upper.dotless]
        exact .inl rfl
      · next notDotless =>
        split
        · next point =>
          rw [named point, upper.long]
          exact .inl rfl
        · next notLong =>
          by_cases inside : c.toNat < 128
          · rw [upper.ascii c inside]
            exact .inl rfl
          · have large : 128 ≤ c.toNat := by omega
            refine .inr ⟨?_, beginsHigh_utf8EncodeChar (upper.outside c large notDotless notLong)⟩
            rw [Rune.bytes, toUpper_of_high large]
            exact beginsHigh_utf8EncodeChar large

end Text

end Lightboard
