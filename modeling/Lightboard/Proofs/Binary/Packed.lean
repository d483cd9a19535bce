import Lightboard.Binary.Pack
import Lightboard.Proofs.Number.Integers

/-!
# Packed values are read back

`Reads r t a` says that reader `r` takes `t` off any input that begins with it and gives `a`. What
the desks hold and where the bytes come from makes no difference, as no request is cut short. Each
writer has a reader that reads what it wrote.
-/

namespace Lightboard.Pack

/-- A reader takes a text off the input and gives a value for it. -/
def Reads {α : Type} (r : Reader α) (t : Text) (a : α) : Prop :=
  ∀ (i : Input) (tail : Text), i.rest = t ++ tail → ∃ i', r i = .ok (a, i') ∧ i'.rest = tail

/-- A value that takes no bytes. -/
theorem Reads.pure {α : Type} (a : α) : Reads (fun i => .ok (a, i)) [] a := by
  intro i tail begins
  exact ⟨i, rfl, begins⟩

theorem fetch_eq {i : Input} {bs tail : Text} (some : bs ≠ []) (begins : i.rest = bs ++ tail) :
    fetch bs.length i = .ok (bs, { i with rest := tail }) := by
  have full : i.rest.isEmpty = false := by
    rw [begins]
    cases bs with
    | nil => exact absurd rfl some
    | cons b bs => rfl
  unfold fetch
  rw [full, begins]
  simp

theorem take_layOver (bs desk : Text) : (layOver bs desk).take bs.length = bs := by
  unfold layOver
  simp

theorem takeFew_reads {bs : Text} (some : bs ≠ []) : Reads (takeFew bs.length) bs bs := by
  intro i tail begins
  unfold takeFew
  rw [fetch_eq some begins]
  refine ⟨{ i with rest := tail, desk := layOver bs i.desk }, ?_, rfl⟩
  change Except.ok ((layOver bs i.desk).take bs.length, _) = _
  rw [take_layOver]

@[simp] theorem lay_rest (i : Input) (bs : Text) : (i.lay bs).rest = i.rest := by
  unfold Input.lay
  split
  · rfl
  · split <;> rfl

theorem takeText_reads {bs : Text} (some : bs ≠ []) : Reads (takeText bs.length) bs bs := by
  intro i tail begins
  unfold takeText
  rw [fetch_eq some begins]
  refine ⟨({ i with rest := tail }).lay bs, ?_, by simp⟩
  change Except.ok (Text.padRight 0 bs.length
    ((layOver bs (i.longDesk.getD i.desk)).take bs.length), _) = _
  rw [take_layOver]
  simp [Text.padRight]

theorem takeHead_reads (b : UInt8) : Reads takeHead [b] b := by
  intro i tail begins
  obtain ⟨i', read, rest⟩ := @takeFew_reads [b] (by simp) i tail begins
  refine ⟨i', ?_, rest⟩
  unfold takeHead
  rw [show takeFew 1 i = _ from read]
  rfl

@[simp] theorem length_big (n x : Nat) : (big n x).length = n := by
  induction n generalizing x with
  | zero => rfl
  | succ n ih => simp [big, ih]

/-- The bytes of a number, read from the left. -/
def fromBytes (bs : Text) : Nat := bs.foldl (fun x b => x * 256 + b.toNat) 0

theorem fromBytes_big {n x : Nat} (small : x < 256 ^ n) : fromBytes (big n x) = x := by
  induction n generalizing x with
  | zero =>
      have : x = 0 := by simpa using small
      rw [this]
      rfl
  | succ n ih =>
      have upper : x / 256 < 256 ^ n := Nat.div_lt_of_lt_mul (by rwa [Nat.pow_succ'] at small)
      have lower : (UInt8.ofNat (x % 256)).toNat = x % 256 :=
        UInt8.toNat_ofNat_of_lt (Nat.mod_lt x (by decide))
      have rest := ih upper
      unfold fromBytes at rest ⊢
      rw [big, List.foldl_append, rest]
      simp only [List.foldl_cons, List.foldl_nil, lower]
      omega

theorem readBig_reads {n x : Nat} (some : 0 < n) (small : x < 256 ^ n) :
    Reads (readBig n) (big n x) x := by
  intro i tail begins
  have nonempty : big n x ≠ [] := by
    rw [← List.length_pos_iff_ne_nil]
    simpa using some
  obtain ⟨i', read, rest⟩ := takeFew_reads nonempty i tail begins
  rw [length_big] at read
  refine ⟨i', ?_, rest⟩
  unfold readBig
  rw [read]
  change Except.ok (fromBytes (big n x), i') = _
  rw [fromBytes_big small]

theorem readSigned_reads {n : Nat} {x : Int} (some : 0 < n) (low : -(256 ^ n : Nat) ≤ 2 * x)
    (high : x < 0) :
    Reads (readSigned n) (big n (x + (256 ^ n : Nat)).toNat) x := by
  intro i tail begins
  obtain ⟨i', read, rest⟩ :=
    @readBig_reads n (x + (256 ^ n : Nat)).toNat some (by omega) i tail begins
  refine ⟨i', ?_, rest⟩
  unfold readSigned
  rw [read]
  change Except.ok (Int.bmod _ (256 ^ n), i') = _
  rw [Int.toNat_of_nonneg (by omega), Int.add_bmod_right]
  rw [Int.bmod_eq_of_le_mul_two (by omega) (by omega)]

theorem toNat_ofInt_byte (n : Int) : ((UInt8.ofInt n).toNat : Int) = n % 256 := by
  have small : (n % 2 ^ 8).toNat < 256 := by omega
  have byte : (UInt8.ofInt n).toNat = (n % 2 ^ 8).toNat := UInt8.toNat_ofNat_of_lt small
  omega

theorem ofInt_toNat_byte (b : UInt8) : UInt8.ofInt (b.toNat : Int) = b := by
  have byte := toNat_ofInt_byte b.toNat
  have small := b.toNat_lt
  apply UInt8.toNat_inj.1
  omega

/-- The bytes that begin a natural number, each with the number of bytes that follow. -/
def naturalHeads : List (UInt8 × Nat) := [(0xcc, 1), (0xcd, 2), (0xce, 4), (0xcf, 8)]

/-- The same for a number in two's complement. -/
def signedHeads : List (UInt8 × Nat) := [(0xd0, 1), (0xd1, 2), (0xd2, 4), (0xd3, 8)]

theorem readNumeral_natural {head : UInt8} {n x : Nat} (kind : (head, n) ∈ naturalHeads)
    (small : x < 256 ^ n) : Reads readNumeral (head :: big n x) (.int x) := by
  intro i tail begins
  have some : 0 < n := by
    simp only [naturalHeads, List.mem_cons, Prod.mk.injEq, List.not_mem_nil, or_false] at kind
    omega
  obtain ⟨i₁, read₁, rest₁⟩ := takeHead_reads head i _ begins
  obtain ⟨i₂, read₂, rest₂⟩ := readBig_reads some small i₁ tail rest₁
  refine ⟨i₂, ?_, rest₂⟩
  unfold readNumeral
  rw [read₁]
  simp only [naturalHeads, List.mem_cons, Prod.mk.injEq, List.not_mem_nil, or_false] at kind
  obtain ⟨rfl, rfl⟩ | ⟨rfl, rfl⟩ | ⟨rfl, rfl⟩ | ⟨rfl, rfl⟩ := kind
  all_goals
    change (readBig _ i₁ >>= fun p => Except.ok (Numeral.int p.1, p.2)) = _
    rw [read₂]
    rfl

theorem readNumeral_signed {head : UInt8} {n : Nat} {x : Int} (kind : (head, n) ∈ signedHeads)
    (low : -(256 ^ n : Nat) ≤ 2 * x) (high : x < 0) :
    Reads readNumeral (head :: big n (x + (256 ^ n : Nat)).toNat) (.int x) := by
  intro i tail begins
  have some : 0 < n := by
    simp only [signedHeads, List.mem_cons, Prod.mk.injEq, List.not_mem_nil, or_false] at kind
    omega
  obtain ⟨i₁, read₁, rest₁⟩ := takeHead_reads head i _ begins
  obtain ⟨i₂, read₂, rest₂⟩ := readSigned_reads some low high i₁ tail rest₁
  refine ⟨i₂, ?_, rest₂⟩
  unfold readNumeral
  rw [read₁]
  simp only [signedHeads, List.mem_cons, Prod.mk.injEq, List.not_mem_nil, or_false] at kind
  obtain ⟨rfl, rfl⟩ | ⟨rfl, rfl⟩ | ⟨rfl, rfl⟩ | ⟨rfl, rfl⟩ := kind
  all_goals
    change (readSigned _ i₁ >>= fun p => Except.ok (Numeral.int p.1, p.2)) = _
    rw [read₂]
    rfl

theorem readNumeral_writeNat {n : Nat} (small : n < 2 ^ 64) :
    Reads readNumeral (writeNat n) (.int n) := by
  unfold writeNat
  split
  · next short =>
    intro i tail begins
    obtain ⟨i', read, rest⟩ := takeHead_reads _ i tail begins
    have byte : (UInt8.ofNat n).toNat = n := UInt8.toNat_ofNat_of_lt (by change n < 256; omega)
    refine ⟨i', ?_, rest⟩
    unfold readNumeral
    rw [read]
    change (if UInt8.ofNat n < 0x80 then _ else _) = _
    rw [if_pos (by rw [UInt8.lt_iff_toNat_lt, byte]; exact short), byte]
  · split
    · exact readNumeral_natural (by decide) (by omega)
    · split
      · exact readNumeral_natural (by decide) (by omega)
      · split
        · exact readNumeral_natural (by decide) (by omega)
        · exact readNumeral_natural (by decide) (by omega)

theorem readNumeral_writeInt {n : Int} (fits : Number.FitsWord n) :
    Reads readNumeral (writeInt n) (.int n) := by
  unfold Number.FitsWord Number.leastWord Number.greatestWord at fits
  unfold writeInt
  split
  · next natural =>
    have read := @readNumeral_writeNat n.toNat (by omega)
    rwa [Int.toNat_of_nonneg natural] at read
  · split
    · next short =>
      intro i tail begins
      obtain ⟨i', read, rest⟩ := takeHead_reads _ i tail begins
      have byte : ((UInt8.ofInt n).toNat : Int) = n + 256 := by
        rw [toNat_ofInt_byte]
        omega
      refine ⟨i', ?_, rest⟩
      unfold readNumeral
      rw [read]
      change (if UInt8.ofInt n < 0x80 then _ else if 0xe0 ≤ UInt8.ofInt n then _ else _) = _
      rw [if_neg (by rw [UInt8.lt_iff_toNat_lt]; change ¬ _ < 128; omega),
        if_pos (by rw [UInt8.le_iff_toNat_le]; change 224 ≤ _; omega), byte]
      simp
    · split
      · exact @readNumeral_signed 0xd0 1 n (by decide) (by omega) (by omega)
      · split
        · exact @readNumeral_signed 0xd1 2 n (by decide) (by omega) (by omega)
        · split
          · exact @readNumeral_signed 0xd2 4 n (by decide) (by omega) (by omega)
          · exact @readNumeral_signed 0xd3 8 n (by decide) (by omega) (by omega)

theorem readByte_writeNat (b : UInt8) : Reads readByte (writeNat b.toNat) b := by
  intro i tail begins
  obtain ⟨i', read, rest⟩ := readNumeral_writeNat (by have := b.toNat_lt; omega) i tail begins
  refine ⟨i', ?_, rest⟩
  unfold readByte
  rw [read]
  change Except.ok (UInt8.ofInt (b.toNat : Int), i') = _
  rw [ofInt_toNat_byte]

theorem readInt_writeInt {n : Int} (fits : Number.FitsWord n) : Reads readInt (writeInt n) n := by
  intro i tail begins
  obtain ⟨i', read, rest⟩ := readNumeral_writeInt fits i tail begins
  refine ⟨i', ?_, rest⟩
  unfold Number.FitsWord Number.leastWord Number.greatestWord at fits
  unfold readInt
  rw [read]
  change Except.ok (Int.bmod n Number.wordCount, i') = _
  rw [Int.bmod_eq_of_le_mul_two (by unfold Number.wordCount; omega)
    (by unfold Number.wordCount; omega)]

theorem readFloat_writeFloat (x : Float) : Reads readFloat (writeFloat x) x := by
  intro i tail begins
  obtain ⟨i₁, read₁, rest₁⟩ := takeHead_reads 0xcb i _ begins
  obtain ⟨i₂, read₂, rest₂⟩ :=
    @readBig_reads 8 x.toBits.toNat (by decide) x.toBits.toNat_lt i₁ tail rest₁
  refine ⟨i₂, ?_, rest₂⟩
  unfold readFloat readNumeral
  rw [read₁]
  change ((readBig 8 i₁ >>= fun p => Except.ok (Numeral.float (Float.ofBits (UInt64.ofNat p.1)), p.2)) >>=
    _) = _
  rw [read₂]
  change Except.ok (Float.ofBits (UInt64.ofNat x.toBits.toNat), i₂) = _
  rw [UInt64.ofNat_toNat, Number.ofBits_toBits]

theorem ofNat_toNat_head {base n : Nat} (small : base + n < 256) :
    (UInt8.ofNat (base + n)).toNat = base + n :=
  UInt8.toNat_ofNat_of_lt small

theorem not_isRawHead {b : UInt8} (small : b.toNat < 0xc4) : isRawHead b = false := by
  simp only [isRawHead, Bool.or_eq_false_iff, beq_eq_false_iff_ne]
  refine ⟨⟨?_, ?_⟩, ?_⟩ <;> rintro rfl <;> revert small <;> decide

/-- What stands before the bytes of a text of a given length. -/
def textHead (n : Nat) : Text :=
  if n < 0x20 then [UInt8.ofNat (0xa0 + n)]
  else if n < 0x100 then 0xd9 :: big 1 n
  else if n < 0x10000 then 0xda :: big 2 n
  else 0xdb :: big 4 n

theorem textHead_reads {n : Nat} (small : n < 2 ^ 32) :
    ∃ b t, textHead n = b :: t ∧ isRawHead b = false ∧ Reads (readLength b) t n := by
  unfold textHead
  split
  · next short =>
    have byte := @ofNat_toNat_head 0xa0 n (by omega)
    generalize UInt8.ofNat (0xa0 + n) = b at *
    refine ⟨b, [], rfl, not_isRawHead (by omega), ?_⟩
    · intro i tail begins
      refine ⟨i, ?_, begins⟩
      unfold readLength
      rw [if_pos ⟨by rw [UInt8.le_iff_toNat_le, byte]; exact Nat.le_add_right _ _,
        by rw [UInt8.lt_iff_toNat_lt, byte]; change _ < 192; omega⟩, byte]
      simp
  · split
    · exact ⟨_, _, rfl, rfl, readBig_reads (by decide) (by omega)⟩
    · split
      · exact ⟨_, _, rfl, rfl, readBig_reads (by decide) (by omega)⟩
      · exact ⟨_, _, rfl, rfl, readBig_reads (by decide) (by omega)⟩

theorem readText_writeText {t : Text} (small : t.length < 2 ^ 32) :
    Reads readText (writeText t) t := by
  obtain ⟨b, u, head, notRaw, length⟩ := textHead_reads small
  have written : writeText t = b :: (u ++ t) := by
    change textHead t.length ++ t = _
    rw [head]
    rfl
  rw [written]
  intro i tail begins
  obtain ⟨i₁, read₁, rest₁⟩ := takeHead_reads b i _ begins
  obtain ⟨i₂, read₂, rest₂⟩ := length i₁ (t ++ tail) (by simpa using rest₁)
  unfold readText
  rw [read₁]
  change ∃ i', (if isRawHead b then _ else readLength b i₁ >>= _) = _ ∧ _
  rw [notRaw, if_neg (by simp), read₂]
  change ∃ i', (if t.length = 0 then Except.ok ([], i₂) else takeText t.length i₂) = _ ∧ _
  cases t with
  | nil => exact ⟨i₂, rfl, rest₂⟩
  | cons c t =>
      rw [if_neg (by simp)]
      exact takeText_reads (by simp) i₂ tail rest₂

theorem readName_writeText {t : Text} (small : t.length < 2 ^ 32) :
    Reads readName (writeText t) t := by
  obtain ⟨b, u, head, -, length⟩ := textHead_reads small
  have written : writeText t = b :: (u ++ t) := by
    change textHead t.length ++ t = _
    rw [head]
    rfl
  rw [written]
  intro i tail begins
  obtain ⟨i₁, read₁, rest₁⟩ := takeHead_reads b i _ begins
  obtain ⟨i₂, read₂, rest₂⟩ := length i₁ (t ++ tail) (by simpa using rest₁)
  unfold readName
  rw [read₁]
  change ∃ i', (readLength b i₁ >>= _) = _ ∧ _
  rw [read₂]
  change ∃ i', (if t.length = 0 then Except.ok ([], i₂) else fetch t.length i₂ >>= _) = _ ∧ _
  cases t with
  | nil => exact ⟨i₂, rfl, rest₂⟩
  | cons c t =>
      rw [if_neg (by simp), fetch_eq (by simp) rest₂]
      refine ⟨({ i₂ with rest := tail }).lay (c :: t), ?_, by simp⟩
      change (if (c :: t).length < (c :: t).length then _ else _) = _
      rw [if_neg (lt_irrefl _)]
      rfl

theorem readItems_reads {α : Type} {item : Reader α} {write : α → Text} {as : List α}
    (each : ∀ a ∈ as, Reads item (write a) a) :
    Reads (readItems item as.length) (as.map write).flatten as := by
  induction as with
  | nil => exact Reads.pure []
  | cons a as ih =>
      intro i tail begins
      have rest := ih fun b member => each b (List.mem_cons_of_mem a member)
      obtain ⟨i₁, read₁, rest₁⟩ :=
        each a (by simp) i ((as.map write).flatten ++ tail) (by simpa using begins)
      obtain ⟨i₂, read₂, rest₂⟩ := rest i₁ tail rest₁
      refine ⟨i₂, ?_, rest₂⟩
      change (item i >>= fun p => readItems item as.length p.2 >>= fun q =>
        Except.ok (p.1 :: q.1, q.2)) = _
      rw [read₁]
      change (readItems item as.length i₁ >>= _) = _
      rw [read₂]
      rfl

/-- What stands before the items of a list of a given length. -/
def listHead (n : Nat) : Text :=
  if n < 0x10 then [UInt8.ofNat (0x90 + n)]
  else if n < 0x10000 then 0xdc :: big 2 n
  else 0xdd :: big 4 n

theorem not_isTextHead {b : UInt8} (small : b.toNat < 0xa0) : isTextHead b = false := by
  simp only [isTextHead, Bool.or_eq_false_iff, beq_eq_false_iff_ne, Bool.and_eq_false_iff,
    decide_eq_false_iff_not, UInt8.le_iff_toNat_le]
  refine ⟨⟨⟨.inl (by change ¬ 160 ≤ _; omega), ?_⟩, ?_⟩,
    ?_⟩ <;> rintro rfl <;> revert small <;> decide

theorem listHead_reads {n : Nat} (small : n < 2 ^ 32) :
    ∃ b t, listHead n = b :: t ∧ b ≠ 0xc0 ∧ isRawHead b = false ∧ isTextHead b = false ∧
      Reads (readListSize b) t n := by
  unfold listHead
  split
  · next short =>
    have byte := @ofNat_toNat_head 0x90 n (by omega)
    generalize UInt8.ofNat (0x90 + n) = b at *
    refine ⟨b, [], rfl, ?_, not_isRawHead (by omega), not_isTextHead (by omega), ?_⟩
    · rintro rfl
      change 192 = _ at byte
      omega
    · intro i tail begins
      refine ⟨i, ?_, begins⟩
      unfold readListSize
      rw [if_pos ⟨by rw [UInt8.le_iff_toNat_le, byte]; exact Nat.le_add_right _ _,
        by rw [UInt8.lt_iff_toNat_lt, byte]; change _ < 160; omega⟩, byte]
      simp
  · split
    · exact ⟨_, _, rfl, by decide, rfl, rfl, readBig_reads (by decide) (by omega)⟩
    · exact ⟨_, _, rfl, by decide, rfl, rfl, readBig_reads (by decide) (by omega)⟩

theorem readList_writeList {α : Type} {item : Reader α} {write : α → Text} {as : List α}
    (before : List α) (small : as.length < 2 ^ 32) (each : ∀ a ∈ as, Reads item (write a) a) :
    Reads (readList item before) (writeList (as.map write)) as := by
  obtain ⟨b, u, head, notNil, notRaw, notText, size⟩ := listHead_reads small
  have written : writeList (as.map write) = b :: (u ++ (as.map write).flatten) := by
    change listHead (as.map write).length ++ _ = _
    rw [List.length_map, head]
    rfl
  rw [written]
  intro i tail begins
  obtain ⟨i₁, read₁, rest₁⟩ := takeHead_reads b i _ begins
  obtain ⟨i₂, read₂, rest₂⟩ := size i₁ ((as.map write).flatten ++ tail) (by simpa using rest₁)
  obtain ⟨i₃, read₃, rest₃⟩ := readItems_reads each i₂ tail rest₂
  refine ⟨i₃, ?_, rest₃⟩
  unfold readList
  rw [read₁]
  change (if b = 0xc0 then _ else if isRawHead b = true then _ else if isTextHead b = true then _
    else readListSize b i₁ >>= fun p => readItems item p.1 p.2) = _
  rw [if_neg notNil, notRaw, if_neg (by simp), notText, if_neg (by simp), read₂]
  exact read₃

/-- A field that is known is read, and the rest after it. -/
theorem readFields_cons {σ α : Type} {field : Text → Option (σ → Reader σ)} {read : σ → Reader α}
    {set : σ → α → σ} {n : Nat} {name value rest : Text} {s last : σ} {a : α}
    (known : field name = fieldOver read set) (small : name.length < 2 ^ 32)
    (first : Reads (read s) value a) (others : Reads (readFields field n (set s a)) rest last) :
    Reads (readFields field (n + 1) s) (writeText name ++ value ++ rest) last := by
  intro i tail begins
  obtain ⟨i₁, read₁, rest₁⟩ :=
    readName_writeText small i (value ++ rest ++ tail) (by simpa using begins)
  obtain ⟨i₂, read₂, rest₂⟩ := first i₁ (rest ++ tail) (by simpa using rest₁)
  obtain ⟨i₃, read₃, rest₃⟩ := others i₂ tail rest₂
  refine ⟨i₃, ?_, rest₃⟩
  unfold readFields
  rw [read₁]
  simp only [bind, Except.bind, known]
  change ((read s i₁ >>= fun p => Except.ok (set s p.1, p.2)) >>= fun p =>
    readFields field n p.1 p.2) = _
  rw [read₂]
  exact read₃

theorem readFields_nil {σ : Type} (field : Text → Option (σ → Reader σ)) (s : σ) :
    Reads (readFields field 0 s) [] s := Reads.pure s

theorem readRecord_writeRecord {σ : Type} {first last : σ} {field : Text → Option (σ → Reader σ)}
    {fields : List (Text × Text)} (few : fields.length < 16)
    (inner : Reads (readFields field fields.length first)
      (fields.flatMap fun (name, value) => writeText name ++ value) last) :
    Reads (readRecord first field) (writeRecord fields) last := by
  intro i tail begins
  have byte := @ofNat_toNat_head 0x80 fields.length (by omega)
  obtain ⟨i₁, read₁, rest₁⟩ := takeHead_reads _ i _ begins
  obtain ⟨i₂, read₂, rest₂⟩ := inner i₁ tail rest₁
  refine ⟨i₂, ?_, rest₂⟩
  unfold readRecord readMapSize
  rw [read₁]
  change ((if 0x80 ≤ UInt8.ofNat (0x80 + fields.length) ∧ UInt8.ofNat (0x80 + fields.length) < 0x90 then
    Except.ok ((UInt8.ofNat (0x80 + fields.length)).toNat - 0x80, i₁) else _) >>= fun p =>
      readFields field p.1 first p.2) = _
  rw [if_pos ⟨by rw [UInt8.le_iff_toNat_le, byte]; exact Nat.le_add_right _ _,
    by rw [UInt8.lt_iff_toNat_lt, byte]; change _ < 144; omega⟩, byte, Nat.add_sub_cancel_left]
  exact read₂

end Lightboard.Pack
