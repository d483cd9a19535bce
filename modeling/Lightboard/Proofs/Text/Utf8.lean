import Lightboard.Text.Utf8
import Mathlib

/-!
# Reading UTF-8 loses nothing

Writing the runes of a text gives the text back, and the runes of written characters are these
characters.
-/

namespace Lightboard.Text

theorem toNat_ofNat_byte {n : Nat} (small : n < 256) : (UInt8.ofNat n).toNat = n :=
  UInt8.toNat_ofNat_of_lt small

theorem scalar?_toNat (c : Char) : scalar? c.toNat = some c := by
  unfold scalar?
  rw [dif_pos (show c.toNat.isValidChar from c.valid)]
  rfl

theorem scalar?_eq_some {n : Nat} {c : Char} (h : scalar? n = some c) : c.toNat = n := by
  unfold scalar? at h
  split at h
  · obtain rfl := Option.some.inj h
    rfl
  · cases h

theorem tail?_eq {n : Nat} (small : n < 64) : tail? (UInt8.ofNat (n + 128)) = some n := by
  have byte : (UInt8.ofNat (n + 128)).toNat = n + 128 := toNat_ofNat_byte (by omega)
  unfold tail?
  rw [if_pos (by simp only [UInt8.le_iff_toNat_le, byte]; change 128 ≤ _ ∧ _ ≤ 191; omega), byte]
  exact congrArg some (Nat.add_sub_cancel n 128)

theorem tail?_eq_some {b : UInt8} {n : Nat} (h : tail? b = some n) :
    n < 64 ∧ b = UInt8.ofNat (n + 128) := by
  unfold tail? at h
  split at h
  · next between =>
    obtain rfl := Option.some.inj h
    simp only [UInt8.le_iff_toNat_le] at between
    change 128 ≤ _ ∧ _ ≤ 191 at between
    refine ⟨by omega, ?_⟩
    rw [Nat.sub_add_cancel between.1, UInt8.ofNat_toNat]
  · cases h

theorem point_lt (c : Char) : c.toNat < 0x110000 := by
  have valid : c.toNat.isValidChar := c.valid
  unfold Nat.isValidChar at valid
  omega

theorem ofNat_lt_iff {n k : Nat} (small : n < 256) (bound : k < 256) :
    UInt8.ofNat n < UInt8.ofNat k ↔ n < k := by
  rw [UInt8.lt_iff_toNat_lt, toNat_ofNat_byte small, toNat_ofNat_byte bound]

theorem tail?_low (n : Nat) : tail? (UInt8.ofNat (n % 64 + 128)) = some (n % 64) :=
  tail?_eq (Nat.mod_lt n (by decide))

section

variable {n : Nat} (rest : Text)

theorem leading?_one (most : n < 0x80) :
    leading? (UInt8.ofNat n) rest = (scalar? n).map (·, 0) := by
  have small : n < 256 := by omega
  have one : UInt8.ofNat n < 0x80 := (ofNat_lt_iff small (by decide)).2 most
  unfold leading?
  rw [if_pos one, toNat_ofNat_byte small]

theorem leading?_two (least : 0x80 ≤ n) (most : n < 0x800) :
    leading? (UInt8.ofNat (n / 64 % 32 + 0xC0)) (UInt8.ofNat (n % 64 + 0x80) :: rest) =
      (scalar? n).map (·, 1) := by
  obtain ⟨b, same⟩ : ∃ b, n / 64 % 32 + 0xC0 = b := ⟨_, rfl⟩
  have small : b < 256 := by omega
  have value : (b - 0xC0) * 64 + n % 64 = n := by omega
  have one : ¬ UInt8.ofNat b < 0x80 := mt (@ofNat_lt_iff b 0x80 small (by decide)).1 (by omega)
  have none : ¬ UInt8.ofNat b < 0xC0 := mt (@ofNat_lt_iff b 0xC0 small (by decide)).1 (by omega)
  have two : UInt8.ofNat b < 0xE0 := (@ofNat_lt_iff b 0xE0 small (by decide)).2 (by omega)
  unfold leading?
  rw [same, if_neg one, if_neg none, if_pos two]
  change (tail? _ >>= fun x =>
    (atLeast? 0x80 (((UInt8.ofNat b).toNat - 0xC0) * 64 + x)).map (·, 1)) = _
  rw [tail?_low, Option.bind_eq_bind, Option.bind_some, toNat_ofNat_byte small, value, atLeast?,
    if_pos least]

theorem leading?_three (least : 0x800 ≤ n) (most : n < 0x10000) :
    leading? (UInt8.ofNat (n / 4096 % 16 + 0xE0))
        (UInt8.ofNat (n / 64 % 64 + 0x80) :: UInt8.ofNat (n % 64 + 0x80) :: rest) =
      (scalar? n).map (·, 2) := by
  obtain ⟨b, same⟩ : ∃ b, n / 4096 % 16 + 0xE0 = b := ⟨_, rfl⟩
  have small : b < 256 := by omega
  have value : (b - 0xE0) * 4096 + n / 64 % 64 * 64 + n % 64 = n := by omega
  have one : ¬ UInt8.ofNat b < 0x80 := mt (@ofNat_lt_iff b 0x80 small (by decide)).1 (by omega)
  have none : ¬ UInt8.ofNat b < 0xC0 := mt (@ofNat_lt_iff b 0xC0 small (by decide)).1 (by omega)
  have two : ¬ UInt8.ofNat b < 0xE0 := mt (@ofNat_lt_iff b 0xE0 small (by decide)).1 (by omega)
  have three : UInt8.ofNat b < 0xF0 := (@ofNat_lt_iff b 0xF0 small (by decide)).2 (by omega)
  unfold leading?
  rw [same, if_neg one, if_neg none, if_neg two, if_pos three]
  change (tail? _ >>= fun x => tail? _ >>= fun y =>
    (atLeast? 0x800 (((UInt8.ofNat b).toNat - 0xE0) * 4096 + x * 64 + y)).map (·, 2)) = _
  rw [tail?_low, tail?_low, Option.bind_eq_bind, Option.bind_some, Option.bind_some,
    toNat_ofNat_byte small, value, atLeast?, if_pos least]

theorem leading?_four (least : 0x10000 ≤ n) (most : n < 0x110000) :
    leading? (UInt8.ofNat (n / 262144 % 8 + 0xF0))
        (UInt8.ofNat (n / 4096 % 64 + 0x80) :: UInt8.ofNat (n / 64 % 64 + 0x80) ::
          UInt8.ofNat (n % 64 + 0x80) :: rest) =
      (scalar? n).map (·, 3) := by
  obtain ⟨b, same⟩ : ∃ b, n / 262144 % 8 + 0xF0 = b := ⟨_, rfl⟩
  have small : b < 256 := by omega
  have value : (b - 0xF0) * 262144 + n / 4096 % 64 * 4096 + n / 64 % 64 * 64 + n % 64 =
    n := by omega
  have one : ¬ UInt8.ofNat b < 0x80 := mt (@ofNat_lt_iff b 0x80 small (by decide)).1 (by omega)
  have none : ¬ UInt8.ofNat b < 0xC0 := mt (@ofNat_lt_iff b 0xC0 small (by decide)).1 (by omega)
  have two : ¬ UInt8.ofNat b < 0xE0 := mt (@ofNat_lt_iff b 0xE0 small (by decide)).1 (by omega)
  have three : ¬ UInt8.ofNat b < 0xF0 := mt (@ofNat_lt_iff b 0xF0 small (by decide)).1 (by omega)
  have four : UInt8.ofNat b < 0xF8 := (@ofNat_lt_iff b 0xF8 small (by decide)).2 (by omega)
  unfold leading?
  rw [same, if_neg one, if_neg none, if_neg two, if_neg three, if_pos four]
  -- Each step is a rewrite: evaluating the bound instead would count it up one by one.
  change (tail? _ >>= fun x => tail? _ >>= fun y => tail? _ >>= fun z =>
    (atLeast? 0x10000
      (((UInt8.ofNat b).toNat - 0xF0) * 262144 + x * 4096 + y * 64 + z)).map (·, 3)) = _
  rw [tail?_low, tail?_low, tail?_low, Option.bind_eq_bind, Option.bind_some, Option.bind_some,
    Option.bind_some, toNat_ofNat_byte small, value, atLeast?, if_pos least]

end

/-- A character is found where it was written, whatever follows. -/
theorem leading?_utf8EncodeChar (c : Char) :
    ∃ b t, String.utf8EncodeChar c = b :: t ∧
      ∀ rest, leading? b (t ++ rest) = some (c, t.length) := by
  obtain ⟨n, point⟩ : ∃ n, c.toNat = n := ⟨_, rfl⟩
  have bound := point_lt c
  have scalar := scalar?_toNat c
  rw [point] at bound scalar
  have found : ∀ k : Nat, (scalar? n).map (·, k) = some (c, k) := by
    intro k
    rw [scalar]
    rfl
  unfold String.utf8EncodeChar
  simp only [show c.val.toNat = n from point]
  split
  · exact ⟨_, _, rfl, fun rest => (leading?_one rest (by omega)).trans (found 0)⟩
  · split
    · exact ⟨_, _, rfl, fun rest => (leading?_two rest (by omega) (by omega)).trans (found 1)⟩
    · split
      · exact ⟨_, _, rfl, fun rest => (leading?_three rest (by omega) (by omega)).trans (found 2)⟩
      · exact ⟨_, _, rfl, fun rest => (leading?_four rest (by omega) bound).trans (found 3)⟩

theorem atLeast?_eq_some {least n : Nat} {c : Char} (h : atLeast? least n = some c) :
    least ≤ n ∧ c.toNat = n := by
  unfold atLeast? at h
  split at h
  · next enough => exact ⟨enough, scalar?_eq_some h⟩
  · cases h

/-- `Leads b rest n k`: byte `b` and the first `k` bytes of `rest` write code point `n`, in the
shortest form that holds it. -/
inductive Leads (b : UInt8) : Text → Nat → Nat → Prop where
  | one {rest : Text} {n : Nat} (lead : b.toNat < 0x80) (value : n = b.toNat) :
      Leads b rest n 0
  | two {rest : Text} {n x : Nat} (lead : 0xC0 ≤ b.toNat ∧ b.toNat < 0xE0) (tail : x < 64)
      (value : n = (b.toNat - 0xC0) * 64 + x) (least : 0x80 ≤ n) :
      Leads b (UInt8.ofNat (x + 128) :: rest) n 1
  | three {rest : Text} {n x y : Nat} (lead : 0xE0 ≤ b.toNat ∧ b.toNat < 0xF0)
      (tails : x < 64 ∧ y < 64) (value : n = (b.toNat - 0xE0) * 4096 + x * 64 + y)
      (least : 0x800 ≤ n) :
      Leads b (UInt8.ofNat (x + 128) :: UInt8.ofNat (y + 128) :: rest) n 2
  | four {rest : Text} {n x y z : Nat} (lead : 0xF0 ≤ b.toNat ∧ b.toNat < 0xF8)
      (tails : x < 64 ∧ y < 64 ∧ z < 64)
      (value : n = (b.toNat - 0xF0) * 262144 + x * 4096 + y * 64 + z) (least : 0x10000 ≤ n) :
      Leads b (UInt8.ofNat (x + 128) :: UInt8.ofNat (y + 128) :: UInt8.ofNat (z + 128) :: rest) n 3

/-- A character is found only where its code point is written in full. -/
theorem leads_of_leading? {b : UInt8} {rest : Text} {c : Char} {k : Nat}
    (h : leading? b rest = some (c, k)) : Leads b rest c.toNat k := by
  unfold leading? at h
  simp only [UInt8.lt_iff_toNat_lt, UInt8.reduceToNat] at h
  split at h
  · next lead =>
    obtain ⟨c', found, pair⟩ := Option.map_eq_some_iff.1 h
    obtain ⟨rfl, rfl⟩ := Prod.mk.inj pair
    exact .one lead (scalar?_eq_some found)
  split at h
  · cases h
  next continues =>
  split at h
  · next below =>
    split at h
    · simp only [Option.bind_eq_bind, Option.bind_eq_some_iff, Option.map_eq_some_iff] at h
      obtain ⟨x, tail, c', found, pair⟩ := h
      obtain ⟨rfl, rfl⟩ := Prod.mk.inj pair
      obtain ⟨least, value⟩ := atLeast?_eq_some found
      obtain ⟨small, rfl⟩ := tail?_eq_some tail
      exact .two ⟨by omega, below⟩ small value (value ▸ least)
    · cases h
  next pastTwo =>
  split at h
  · next below =>
    split at h
    · simp only [Option.bind_eq_bind, Option.bind_eq_some_iff, Option.map_eq_some_iff] at h
      obtain ⟨x, tail₁, y, tail₂, c', found, pair⟩ := h
      obtain ⟨rfl, rfl⟩ := Prod.mk.inj pair
      obtain ⟨least, value⟩ := atLeast?_eq_some found
      obtain ⟨small₁, rfl⟩ := tail?_eq_some tail₁
      obtain ⟨small₂, rfl⟩ := tail?_eq_some tail₂
      exact .three ⟨by omega, below⟩ ⟨small₁, small₂⟩ value (value ▸ least)
    · cases h
  next pastThree =>
  split at h
  · next below =>
    split at h
    · simp only [Option.bind_eq_bind, Option.bind_eq_some_iff, Option.map_eq_some_iff] at h
      obtain ⟨x, tail₁, y, tail₂, z, tail₃, c', found, pair⟩ := h
      obtain ⟨rfl, rfl⟩ := Prod.mk.inj pair
      obtain ⟨least, value⟩ := atLeast?_eq_some found
      obtain ⟨small₁, rfl⟩ := tail?_eq_some tail₁
      obtain ⟨small₂, rfl⟩ := tail?_eq_some tail₂
      obtain ⟨small₃, rfl⟩ := tail?_eq_some tail₃
      exact .four ⟨by omega, below⟩ ⟨small₁, small₂, small₃⟩ value (value ▸ least)
    · cases h
  · cases h

/-- The bytes that write a code point are the encoding of its character. -/
theorem Leads.utf8EncodeChar {b : UInt8} {rest : Text} {c : Char} {k : Nat}
    (h : Leads b rest c.toNat k) : String.utf8EncodeChar c = b :: rest.take k := by
  obtain ⟨n, point⟩ : ∃ n, c.toNat = n := ⟨_, rfl⟩
  have bound := point_lt c
  have byte := b.toNat_lt
  have lead : ∀ {m : Nat}, m = b.toNat → UInt8.ofNat m = b := by
    rintro _ rfl
    exact UInt8.ofNat_toNat
  unfold String.utf8EncodeChar
  simp only [show c.val.toNat = n from point]
  rw [point] at h bound
  cases h with
  | one small value =>
      rw [if_pos (by omega), lead (by omega)]
      rfl
  | @two rest _ x within tail value least =>
      have last : n % 64 = x := by omega
      rw [if_neg (by omega), if_pos (by omega), lead (by omega), last]
      rfl
  | @three rest _ x y within tails value least =>
      have second : n / 64 % 64 = x := by omega
      have last : n % 64 = y := by omega
      rw [if_neg (by omega), if_neg (by omega), if_pos (by omega), lead (by omega), second, last]
      rfl
  | @four rest _ x y z within tails value least =>
      have second : n / 4096 % 64 = x := by omega
      have third : n / 64 % 64 = y := by omega
      have last : n % 64 = z := by omega
      rw [if_neg (by omega), if_neg (by omega), if_neg (by omega), lead (by omega), second, third,
        last]
      rfl

/-- A character that is found is written with the bytes it was found in. -/
theorem leading?_eq_some {b : UInt8} {rest : Text} {c : Char} {k : Nat}
    (h : leading? b rest = some (c, k)) :
    String.utf8EncodeChar c = b :: rest.take k :=
  (leads_of_leading? h).utf8EncodeChar

theorem runesFrom_skip (t rest : Text) : runesFrom t.length (t ++ rest) = runesFrom 0 rest := by
  induction t with
  | nil => rfl
  | cons b t ih => exact ih

/-- A character at the start of a text is the first of its runes. -/
theorem runes_utf8EncodeChar_append (c : Char) (rest : Text) :
    runes (String.utf8EncodeChar c ++ rest) = .char c :: runes rest := by
  obtain ⟨b, t, written, found⟩ := leading?_utf8EncodeChar c
  rw [written]
  simp only [runes, List.cons_append, runesFrom, found]
  rw [runesFrom_skip]

/-- An ASCII byte at the start of a text is the first of its runes. -/
theorem runes_ascii_cons {b : UInt8} (small : b.toNat < 128) (rest : Text) :
    runes (b :: rest) = .char (Char.ofNat b.toNat) :: runes rest := by
  have valid : b.toNat.isValidChar := .inl (by omega)
  simp only [runes, runesFrom, leading?]
  rw [if_pos (UInt8.lt_iff_toNat_lt.2 small)]
  simp only [scalar?, dif_pos valid, Char.ofNat, Option.map_some]

theorem runes_ofChars (cs : List Char) : runes (ofChars cs) = cs.map .char := by
  induction cs with
  | nil => rfl
  | cons c cs ih =>
      simp only [ofChars, List.flatMap_cons, List.map_cons] at ih ⊢
      rw [runes_utf8EncodeChar_append, ih]

/-- The runes of a text, written again, after the bytes that were passed over. -/
theorem encode_runesFrom (k : Nat) (t : Text) : encode (runesFrom k t) = t.drop k := by
  induction t generalizing k with
  | nil => simp [runesFrom, encode]
  | cons b rest ih =>
      cases k with
      | succ k => exact ih k
      | zero =>
          unfold runesFrom
          simp only
          split
          · next c k found =>
            have written := leading?_eq_some found
            simp only [encode, List.flatMap_cons, Rune.bytes] at ih ⊢
            rw [ih, written]
            simp
          · simp only [encode, List.flatMap_cons, Rune.bytes] at ih ⊢
            rw [ih]
            rfl

@[simp] theorem encode_runes (t : Text) : encode (runes t) = t := encode_runesFrom 0 t

theorem runes_ne_nil {t : Text} (some : t ≠ []) : runes t ≠ [] := by
  intro none
  have back := encode_runes t
  rw [none] at back
  exact some back.symm

end Lightboard.Text
