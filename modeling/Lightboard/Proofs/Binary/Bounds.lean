import Lightboard.Proofs.Binary.Records

/-!
# What is read can be written

Whatever bytes a record was read from, well-formed or not, its texts and lists are so short that
their lengths can be written, and its integers are of 64 bits. So a record that was read is also a
record that can be written and read back.
-/

namespace Lightboard.Pack

/-- Every value a reader gives has a property. -/
def Gives {α : Type} (r : Reader α) (P : α → Prop) : Prop :=
  ∀ (i : Input) (a : α) (i' : Input), r i = .ok (a, i') → P a

theorem of_bind_ok {ε α β : Type} {x : Except ε α} {f : α → Except ε β} {b : β}
    (h : x >>= f = .ok b) : ∃ a, x = .ok a ∧ f a = .ok b := by
  cases x with
  | error e => cases h
  | ok a => exact ⟨a, rfl, h⟩

theorem fromBytes_append (bs : Text) (b : UInt8) :
    fromBytes (bs ++ [b]) = fromBytes bs * 256 + b.toNat := by
  simp [fromBytes]

theorem fromBytes_lt (bs : Text) : fromBytes bs < 256 ^ bs.length := by
  induction bs using List.reverseRecOn with
  | nil => exact Nat.one_pos
  | append_singleton bs b ih =>
      have small := b.toNat_lt
      rw [fromBytes_append, List.length_append, List.length_singleton, Nat.pow_succ]
      omega

theorem readBig_gives (n : Nat) : Gives (readBig n) (· < 256 ^ n) := by
  intro i x i' read
  obtain ⟨⟨bs, i₁⟩, taken, last⟩ := of_bind_ok read
  obtain ⟨⟨cs, i₂⟩, -, laid⟩ := of_bind_ok taken
  cases laid
  cases last
  refine lt_of_lt_of_le (fromBytes_lt _) (Nat.pow_le_pow_right (by decide) ?_)
  exact List.length_take_le n _

theorem fits_wrapWord (n : Int) : Number.FitsWord (Number.wrapWord n) := by
  have low := @Int.le_bmod n Number.wordCount (by decide)
  have high := @Int.bmod_lt n Number.wordCount (by decide)
  unfold Number.wordCount at low high
  unfold Number.FitsWord Number.leastWord Number.greatestWord Number.wrapWord Number.wordCount
  omega

theorem readInt_gives : Gives readInt Number.FitsWord := by
  intro i n i' read
  obtain ⟨⟨numeral, i₁⟩, -, last⟩ := of_bind_ok read
  cases numeral with
  | int k =>
      cases last
      exact fits_wrapWord k
  | float x =>
      cases last
      exact Number.fits_truncate x

theorem length_padRight_take (b : UInt8) (n : Nat) (t : Text) :
    (Text.padRight b n (t.take n)).length = n := by
  simp [Text.padRight]

theorem takeText_gives (n : Nat) : Gives (takeText n) (·.length = n) := by
  intro i t i' read
  obtain ⟨⟨bs, i₁⟩, -, last⟩ := of_bind_ok read
  cases last
  exact length_padRight_take 0 n _

theorem takeRaw_gives (n : Nat) : Gives (takeRaw n) (·.length = n) := by
  intro i t i' read
  obtain ⟨⟨bs, i₁⟩, fetched, last⟩ := of_bind_ok read
  cases last
  unfold fetch at fetched
  split at fetched
  · cases fetched
  · cases fetched
    exact length_padRight_take 0 n _

theorem readLength_gives (b : UInt8) : Gives (readLength b) (· < 2 ^ 32) := by
  intro i n i' read
  have byte := b.toNat_lt
  unfold readLength at read
  repeat' split at read
  · obtain ⟨rfl, -⟩ := Prod.mk.inj (Except.ok.inj read)
    exact lt_of_le_of_lt (Nat.sub_le _ _) (byte.trans (by decide))
  · exact (readBig_gives 1 i n i' read).trans_le (by decide)
  · exact (readBig_gives 2 i n i' read).trans_le (by decide)
  · exact (readBig_gives 4 i n i' read).trans_le (by decide)
  · cases read
    decide
  · cases read

theorem readRawLength_gives (b : UInt8) : Gives (readRawLength b) (· < 2 ^ 32) := by
  intro i n i' read
  unfold readRawLength at read
  split at read
  · exact (readBig_gives 1 i n i' read).trans_le (by decide)
  · split at read
    · exact (readBig_gives 2 i n i' read).trans_le (by decide)
    · exact (readBig_gives 4 i n i' read).trans_le (by decide)

theorem readText_gives : Gives readText (·.length < 2 ^ 32) := by
  intro i t i' read
  obtain ⟨⟨b, i₁⟩, -, read⟩ := of_bind_ok read
  simp only at read
  split at read
  · obtain ⟨⟨n, i₂⟩, length, read⟩ := of_bind_ok read
    rw [takeRaw_gives n i₂ t i' read]
    exact readRawLength_gives b i₁ n i₂ length
  · obtain ⟨⟨n, i₂⟩, length, read⟩ := of_bind_ok read
    simp only at read
    split at read
    · cases read
      decide
    · rw [takeText_gives n i₂ t i' read]
      exact readLength_gives b i₁ n i₂ length

theorem readItems_gives {α : Type} {item : Reader α} {P : α → Prop}
    (each : Gives item P) (n : Nat) :
    Gives (readItems item n) fun as => as.length = n ∧ ∀ a ∈ as, P a := by
  induction n with
  | zero =>
      intro i as i' read
      cases read
      exact ⟨rfl, by simp⟩
  | succ n ih =>
      intro i as i' read
      obtain ⟨⟨a, i₁⟩, first, read⟩ := of_bind_ok read
      obtain ⟨⟨rest, i₂⟩, others, read⟩ := of_bind_ok read
      cases read
      obtain ⟨length, all⟩ := ih i₁ rest _ others
      refine ⟨by simp [length], ?_⟩
      intro b member
      rcases List.mem_cons.1 member with rfl | member
      · exact each i b _ first
      · exact all b member

theorem readListSize_gives (b : UInt8) : Gives (readListSize b) (· < 2 ^ 32) := by
  intro i n i' read
  have byte := b.toNat_lt
  unfold readListSize at read
  repeat' split at read
  · obtain ⟨rfl, -⟩ := Prod.mk.inj (Except.ok.inj read)
    exact lt_of_le_of_lt (Nat.sub_le _ _) (byte.trans (by decide))
  · exact (readBig_gives 2 i n i' read).trans_le (by decide)
  · exact (readBig_gives 4 i n i' read).trans_le (by decide)
  · cases read

/-- A list that was read, or one that was there before, as the case may be. -/
theorem readList_gives {α : Type} {item : Reader α} {P : α → Prop} (each : Gives item P)
    {before : List α} (length : before.length < 2 ^ 32) (all : ∀ a ∈ before, P a) :
    Gives (readList item before) fun as => as.length < 2 ^ 32 ∧ ∀ a ∈ as, P a := by
  intro i as i' read
  obtain ⟨⟨b, i₁⟩, -, read⟩ := of_bind_ok read
  simp only at read
  split at read
  · cases read
    exact ⟨length, all⟩
  · split at read
    · obtain ⟨⟨n, i₂⟩, _, read⟩ := of_bind_ok read
      obtain ⟨_, _, read⟩ := of_bind_ok read
      cases read
    · split at read
      · obtain ⟨⟨n, i₂⟩, _, read⟩ := of_bind_ok read
        simp only at read
        split at read
        · obtain ⟨_, _, read⟩ := of_bind_ok read
          cases read
        · cases read
      · obtain ⟨⟨n, i₂⟩, size, read⟩ := of_bind_ok read
        obtain ⟨length', all'⟩ := readItems_gives each n i₂ as i' read
        exact ⟨length' ▸ readListSize_gives b i₁ n i₂ size, all'⟩

theorem readFields_gives {σ : Type} {field : Text → Option (σ → Reader σ)} {P : σ → Prop}
    (keeps : ∀ name read, field name = some read → ∀ s, P s → Gives (read s) P) (n : Nat) {s : σ}
    (start : P s) : Gives (readFields field n s) P := by
  induction n generalizing s with
  | zero =>
      intro i a i' read
      cases read
      exact start
  | succ n ih =>
      intro i a i' read
      obtain ⟨⟨name, i₁⟩, -, read⟩ := of_bind_ok read
      simp only at read
      split at read
      · next one known =>
        obtain ⟨⟨s', i₂⟩, first, read⟩ := of_bind_ok read
        exact ih (keeps name one known s start i₁ s' i₂ first) i₂ a i' read
      · obtain ⟨i₂, -, read⟩ := of_bind_ok read
        exact ih start i₂ a i' read

theorem readRecord_gives {σ : Type} {field : Text → Option (σ → Reader σ)} {P : σ → Prop}
    (keeps : ∀ name read, field name = some read → ∀ s, P s → Gives (read s) P) {s : σ}
    (start : P s) : Gives (readRecord s field) P := by
  intro i a i' read
  obtain ⟨⟨n, i₁⟩, -, read⟩ := of_bind_ok read
  exact readFields_gives keeps n start i₁ a i' read

/-- A field keeps a property if setting it to a value that was read does. -/
theorem fieldOver_gives {σ α : Type} {read : σ → Reader α} {set : σ → α → σ} {one : σ → Reader σ}
    {P : σ → Prop} {Q : α → Prop} (known : fieldOver read set = some one) {s : σ}
    (value : Gives (read s) Q) (keeps : ∀ a, Q a → P (set s a)) : Gives (one s) P := by
  obtain rfl := Option.some.inj known
  intro i a i' got
  obtain ⟨⟨v, i₁⟩, first, last⟩ := of_bind_ok got
  cases last
  exact keeps v (value i v _ first)

end Lightboard.Pack

namespace Lightboard.Wire

open Pack

theorem Operand.readOver_gives {before : Operand} (start : FitsLength before.str.length) :
    Gives before.readOver (FitsLength ·.str.length) := by
  refine readRecord_gives ?_ start
  intro name read known w fits
  split at known
  · exact fieldOver_gives known (fun _ _ _ _ => trivial) fun _ _ => fits
  · split at known
    · exact fieldOver_gives known (fun _ _ _ _ => trivial) fun _ _ => fits
    · split at known
      · exact fieldOver_gives known readText_gives fun _ length => length
      · cases known

theorem Instruction.read_gives :
    Gives Instruction.read fun i => FitsLength i.first.str.length ∧
      FitsLength i.second.str.length := by
  refine readRecord_gives ?_ ⟨by decide, by decide⟩
  intro name read known w fits
  split at known
  · exact fieldOver_gives known (fun _ _ _ _ => trivial) fun _ _ => fits
  · split at known
    · exact fieldOver_gives known (Operand.readOver_gives fits.1) fun _ length => ⟨length, fits.2⟩
    · split at known
      · exact fieldOver_gives known (Operand.readOver_gives fits.2) fun _ length => ⟨fits.1, length⟩
      · cases known

theorem Routine.read_gives :
    Gives Routine.read fun r => FitsLength r.name.length ∧ Number.FitsWord r.entry := by
  refine readRecord_gives ?_ ⟨by decide, by decide⟩
  intro name read known w fits
  split at known
  · exact fieldOver_gives known readText_gives fun _ length => ⟨length, fits.2⟩
  · split at known
    · exact fieldOver_gives known readInt_gives fun _ word => ⟨fits.1, word⟩
    · cases known

/-- A record of a program that was read can be written. -/
theorem Program.read_gives : Gives Program.read Program.Fits := by
  refine readRecord_gives ?_ ⟨by decide, by decide, by decide, by simp, by simp⟩
  intro name read known w fits
  split at known
  · exact fieldOver_gives known readText_gives fun _ length =>
      ⟨length, fits.code, fits.routines, fits.operands, fits.entries⟩
  · split at known
    · refine fieldOver_gives known
        (readList_gives Instruction.read_gives fits.code fits.operands) ?_
      rintro is ⟨length, all⟩
      exact ⟨fits.name, length, fits.routines, all, fits.entries⟩
    · split at known
      · refine fieldOver_gives known
          (readList_gives Routine.read_gives fits.routines fits.entries) ?_
        rintro rs ⟨length, all⟩
        exact ⟨fits.name, fits.code, length, fits.operands, all⟩
      · cases known

end Lightboard.Wire
