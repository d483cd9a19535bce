import Lightboard.Store.Recent
import Mathlib.Data.List.Nodup
import Mathlib.Data.Set.Function

/-!
# What is remembered

The list of hashes and the table of entries of a view name the same entries, each of them once and no
more than there is room for: `Recent.Sound`. Each request keeps that. What it does otherwise is told by
an equation for the list and one for the table, so that nothing later has to look at how entries come
and go.

`Recent.Faithful` says that what is remembered is what the store has. A view that is faithful answers as
the store does, and it stays faithful as long as the store overwrites nothing.
-/

namespace Lightboard.Store

namespace Memory

@[simp] theorem get?_insert (m : Memory) (t : Text) (h : UInt64) :
    (m.insert t).get? h = if h = Hash64.hash t then some t else m.get? h :=
  Table.get?_insert _ _ _ _

theorem put_of_ok {item : Item} {t : Text} (written : item.bytes = .ok t) (m : Memory) :
    m.put item = (.ok (Hash64.hash t), m.insert t) := by
  simp only [put, written]

/-- An item that cannot be written changes nothing. -/
theorem put_of_error {item : Item} {e : Error} (failed : item.bytes = .error e) (m : Memory) :
    m.put item = (.error e, m) := by
  simp only [put, failed]

/-- Everything the first store has, the second one has under the same hash. -/
def Within (m m' : Memory) : Prop := ∀ h t, m.get? h = some t → m'.get? h = some t

/-- Every entry is under the hash of its bytes. -/
def Keyed (m : Memory) : Prop := ∀ h t, m.get? h = some t → h = Hash64.hash t

theorem keyed_empty : ({} : Memory).Keyed := by
  intro h t there
  cases there

theorem insert_keyed {m : Memory} (keyed : m.Keyed) (t : Text) : (m.insert t).Keyed := by
  intro h t' there
  rw [get?_insert] at there
  split at there
  · next same =>
    cases there
    exact same
  · exact keyed h t' there

/-- All entries are texts of the set. -/
def Holds (m : Memory) (texts : Set Text) : Prop := ∀ h t, m.get? h = some t → t ∈ texts

/-- The second store is the first one, maybe with one of the texts put in. -/
def Grows (texts : Set Text) (m m' : Memory) : Prop := m' = m ∨ ∃ t ∈ texts, m' = m.insert t

theorem put_grows (m : Memory) (item : Item) :
    Grows {t | item.bytes = .ok t} m (m.put item).2 := by
  cases written : item.bytes with
  | error e => exact .inl (congrArg Prod.snd (m.put_of_error written))
  | ok t => exact .inr ⟨t, rfl, congrArg Prod.snd (m.put_of_ok written)⟩

namespace Grows

variable {texts texts' : Set Text} {m m' : Memory}

theorem mono (grows : Grows texts m m') (more : texts ⊆ texts') : Grows texts' m m' := by
  obtain same | ⟨t, member, inserted⟩ := grows
  · exact .inl same
  · exact .inr ⟨t, more member, inserted⟩

theorem keyed (grows : Grows texts m m') (keyed : m.Keyed) : m'.Keyed := by
  obtain rfl | ⟨t, -, rfl⟩ := grows
  · exact keyed
  · exact insert_keyed keyed t

theorem holds (grows : Grows texts m m') (holds : m.Holds texts) : m'.Holds texts := by
  obtain rfl | ⟨t, member, rfl⟩ := grows
  · exact holds
  · intro h t' there
    rw [get?_insert] at there
    split at there
    · cases there
      exact member
    · exact holds h t' there

/-- What is there stays there. -/
theorem has (grows : Grows texts m m') {h : UInt64} (there : m.has h) : m'.has h := by
  obtain rfl | ⟨t, -, rfl⟩ := grows
  · exact there
  · rw [Memory.has, insert, Table.contains_insert]
    exact Bool.or_eq_true_iff.2 (.inr there)

/-- Texts with different hashes do not overwrite each other. -/
theorem within (grows : Grows texts m m') (keyed : m.Keyed) (holds : m.Holds texts)
    (apart : Set.InjOn Hash64.hash texts) : m.Within m' := by
  obtain rfl | ⟨t, member, rfl⟩ := grows
  · exact fun h t there => there
  · intro h t' there
    rw [get?_insert]
    split
    · next same =>
      have equal : t' = t := by
        apply apart (holds h t' there) member
        rw [← keyed h t' there, same]
      rw [equal]
    · exact there

end Grows

end Memory

namespace Recent

variable {c : Recent} {m : Memory} {h k : UInt64} {t : Text} {n : Nat} {e : Remembered}

/-- The list of hashes and the table hold the same entries once each, and there is room for them. -/
structure Sound (c : Recent) : Prop where
  nodup : c.order.Nodup
  contains_iff : ∀ h, c.entries.contains h ↔ h ∈ c.order
  room : c.order.length ≤ c.capacity
  positive : 0 < c.capacity

theorem create_sound (capacity : Int) : (create capacity).Sound where
  nodup := List.nodup_nil
  contains_iff := by
    intro h
    exact (Table.contains_iff _ _).trans Iff.rfl
  room := Nat.zero_le _
  positive := by
    simp only [create]
    split
    · exact Nat.succ_pos _
    · omega

theorem Sound.mem_of_get? (sound : c.Sound) (there : c.entries.get? h = some e) : h ∈ c.order :=
  (sound.contains_iff h).1 (by rw [Table.contains, there]; rfl)

theorem Sound.get?_of_not_mem (sound : c.Sound) (absent : h ∉ c.order) :
    c.entries.get? h = none := by
  cases there : c.entries.get? h with
  | none => rfl
  | some e => exact absurd (sound.mem_of_get? there) absent

theorem Sound.not_mem_of_get? (sound : c.Sound) (absent : c.entries.get? h = none) :
    h ∉ c.order := by
  intro member
  have there := (sound.contains_iff h).2 member
  rw [Table.contains, absent] at there
  cases there

@[simp] theorem evict_capacity (c : Recent) : c.evict.capacity = c.capacity := by
  unfold evict
  split <;> rfl

@[simp] theorem evict_hits (c : Recent) : c.evict.hits = c.hits := by
  unfold evict
  split <;> rfl

@[simp] theorem evict_misses (c : Recent) : c.evict.misses = c.misses := by
  unfold evict
  split <;> rfl

@[simp] theorem add_capacity (c : Recent) (h : UInt64) (t : Text) :
    (c.add h t).capacity = c.capacity := by
  simp only [add]
  split
  · rw [evict_capacity]
  · rfl

@[simp] theorem add_hits (c : Recent) (h : UInt64) (t : Text) : (c.add h t).hits = c.hits := by
  simp only [add]
  split
  · rw [evict_hits]
  · rfl

@[simp] theorem add_misses (c : Recent) (h : UInt64) (t : Text) :
    (c.add h t).misses = c.misses := by
  simp only [add]
  split
  · rw [evict_misses]
  · rfl

/-- The last element is in a list without duplicates only once. -/
theorem mem_dropLast_iff {l : List UInt64} (nodup : l.Nodup) (nonempty : l ≠ []) :
    k ∈ l.dropLast ↔ k ∈ l ∧ k ≠ l.getLast nonempty := by
  have split := List.dropLast_append_getLast nonempty
  rw [← split] at nodup
  have apart := List.disjoint_of_nodup_append nodup
  conv => rhs; lhs; rw [← split]
  rw [List.mem_append, List.mem_singleton]
  constructor
  · intro member
    exact ⟨.inl member, fun same => apart member (List.mem_singleton.2 same)⟩
  · rintro ⟨member | same, other⟩
    · exact member
    · exact absurd same other

/-- A new entry comes first, and the last one goes if there is no room for it. -/
theorem add_spec (sound : c.Sound) (absent : h ∉ c.order) (t : Text) :
    (c.add h t).order = (h :: c.order).take c.capacity ∧
    ∀ k, (c.add h t).entries.get? k =
      if k ∈ (h :: c.order).take c.capacity then
        if k = h then some { bytes := t } else c.entries.get? k
      else none := by
  have nodup : (h :: c.order).Nodup := List.nodup_cons.2 ⟨absent, sound.nodup⟩
  have room := sound.room
  by_cases full : c.capacity < (h :: c.order).length
  · have last : (h :: c.order).getLast? = some ((h :: c.order).getLast (by simp)) :=
      List.getLast?_eq_some_getLast (by simp)
    have shorter : (h :: c.order).take c.capacity = (h :: c.order).dropLast := by
      rw [List.dropLast_eq_take]
      congr 1
      simp only [List.length_cons] at full ⊢
      omega
    simp only [add, if_pos full, evict, last, shorter, true_and]
    intro k
    simp only [Table.get?_erase, Table.get?_insert, mem_dropLast_iff nodup (List.cons_ne_nil _ _)]
    by_cases oldest : k = (h :: c.order).getLast (List.cons_ne_nil _ _)
    · simp [oldest]
    · by_cases member : k ∈ h :: c.order
      · simp [oldest, member]
      · obtain ⟨other, outside⟩ : k ≠ h ∧ k ∉ c.order := by simpa using member
        simp [oldest, other, outside, sound.get?_of_not_mem outside]
  · have whole : (h :: c.order).take c.capacity = h :: c.order :=
      List.take_of_length_le (Nat.le_of_not_lt full)
    simp only [add, if_neg full, whole, true_and]
    intro k
    rw [Table.get?_insert]
    by_cases member : k ∈ h :: c.order
    · simp [member]
    · obtain ⟨other, outside⟩ : k ≠ h ∧ k ∉ c.order := by simpa using member
      simp [other, outside, sound.get?_of_not_mem outside]

/-- What a look-up can do: the entry is remembered, or unknown, or taken from the store. -/
theorem lookup_cases (c : Recent) (m : Memory) (h : UInt64) :
    (∃ e, c.entries.get? h = some e ∧
      c.lookup m h = (some e, { c with hits := c.hits + 1 }.touch h)) ∨
    (c.entries.get? h = none ∧ m.get? h = none ∧
      c.lookup m h = (none, { c with misses := c.misses + 1 })) ∨
    (∃ t, c.entries.get? h = none ∧ m.get? h = some t ∧
      c.lookup m h = (some { bytes := t }, { c with misses := c.misses + 1 }.add h t)) := by
  cases there : c.entries.get? h with
  | some e => exact .inl ⟨e, rfl, by simp only [lookup, there]⟩
  | none =>
    cases stored : m.get? h with
    | none => exact .inr (.inl ⟨rfl, rfl, by simp only [lookup, there, stored]⟩)
    | some t => exact .inr (.inr ⟨t, rfl, rfl, by simp only [lookup, there, stored]⟩)

theorem Sound.miss (sound : c.Sound) : { c with misses := c.misses + 1 }.Sound :=
  ⟨sound.nodup, sound.contains_iff, sound.room, sound.positive⟩

@[simp] theorem lookup_capacity (c : Recent) (m : Memory) (h : UInt64) :
    (c.lookup m h).2.capacity = c.capacity := by
  obtain ⟨e, -, looked⟩ | ⟨-, -, looked⟩ | ⟨t, -, -, looked⟩ := lookup_cases c m h
  · rw [looked]
    rfl
  · rw [looked]
  · rw [looked, add_capacity]

/-- A look-up counts as a hit just if the entry is remembered, and as a miss if not. -/
theorem lookup_counts (c : Recent) (m : Memory) (h : UInt64) :
    (c.lookup m h).2.hits = c.hits + (if c.entries.contains h then 1 else 0) ∧
    (c.lookup m h).2.misses = c.misses + (if c.entries.contains h then 0 else 1) := by
  obtain ⟨e, there, looked⟩ | ⟨absent, -, looked⟩ | ⟨t, absent, -, looked⟩ := lookup_cases c m h
  · simp [looked, Table.contains, there, touch]
  · simp [looked, Table.contains, absent]
  · simp [looked, Table.contains, absent]

/-- An entry that was found comes first, and then the others as before, as long as there is room. -/
theorem lookup_order (sound : c.Sound) (m : Memory) (h : UInt64) :
    (c.lookup m h).2.order =
      if (c.lookup m h).1.isSome then (h :: c.order.erase h).take c.capacity else c.order := by
  obtain ⟨e, there, looked⟩ | ⟨-, -, looked⟩ | ⟨t, absent, -, looked⟩ := lookup_cases c m h
  · have member := sound.mem_of_get? there
    have room := sound.room
    have fits : (h :: c.order.erase h).length ≤ c.capacity := by
      have positive := List.length_pos_of_mem member
      rw [List.length_cons, List.length_erase_of_mem member]
      omega
    simp [looked, touch, List.take_of_length_le fits]
  · simp [looked]
  · have outside := sound.not_mem_of_get? absent
    rw [looked, (add_spec sound.miss outside _).1, List.erase_of_not_mem outside]
    rfl

/-- The entries after a look-up are the one that was found and, of the others, those in the list. -/
theorem lookup_entries (sound : c.Sound) (m : Memory) (h k : UInt64) :
    (c.lookup m h).2.entries.get? k =
      if k = h then (c.lookup m h).1
      else if k ∈ (c.lookup m h).2.order then c.entries.get? k else none := by
  have listed : (if k ∈ c.order then c.entries.get? k else none) = c.entries.get? k := by
    split
    · rfl
    · next outside => exact (sound.get?_of_not_mem outside).symm
  obtain ⟨e, there, looked⟩ | ⟨absent, -, looked⟩ | ⟨t, absent, -, looked⟩ := lookup_cases c m h
  · by_cases same : k = h
    · simp [looked, touch, same, there]
    · simp [looked, touch, same, List.mem_erase_of_ne same, listed]
  · by_cases same : k = h
    · simp [looked, same, absent]
    · simp [looked, same, listed]
  · obtain ⟨order, entries⟩ := add_spec sound.miss (sound.not_mem_of_get? absent) t
    rw [looked, order, entries]
    by_cases same : k = h
    · have first : k ∈ (h :: c.order).take c.capacity := by
        rw [List.take_cons sound.positive, same]
        exact List.mem_cons_self ..
      simp only [if_pos same, if_pos first]
    · simp only [if_neg same]

/-- An entry is found if it is remembered or in the store. -/
theorem lookup_isSome_iff (c : Recent) (m : Memory) (h : UInt64) :
    (c.lookup m h).1.isSome ↔ c.entries.contains h ∨ m.has h := by
  have has : m.has h = (m.get? h).isSome := rfl
  obtain ⟨e, there, looked⟩ | ⟨absent, nowhere, looked⟩ | ⟨t, absent, stored, looked⟩ :=
    lookup_cases c m h
  · simp [looked, Table.contains, there]
  · simp [looked, Table.contains, absent, has, nowhere]
  · simp [looked, has, stored]

theorem mem_lookup_order_self (sound : c.Sound) (m : Memory) (h : UInt64) :
    h ∈ (c.lookup m h).2.order ↔ (c.lookup m h).1.isSome := by
  rw [lookup_order sound]
  split
  · next found =>
    simp only [List.take_cons sound.positive, List.mem_cons, true_or, found]
  · next missing =>
    refine iff_of_false (fun member => missing ?_) missing
    exact (lookup_isSome_iff c m h).2 (.inl ((sound.contains_iff h).2 member))

theorem mem_of_mem_lookup_order (sound : c.Sound) (other : k ≠ h)
    (member : k ∈ (c.lookup m h).2.order) : k ∈ c.order := by
  rw [lookup_order sound] at member
  split at member
  · exact List.mem_of_mem_erase ((List.mem_cons.1 (List.mem_of_mem_take member)).resolve_left other)
  · exact member

theorem lookup_sound (sound : c.Sound) (m : Memory) (h : UInt64) : (c.lookup m h).2.Sound where
  nodup := by
    rw [lookup_order sound]
    split
    · have whole : (h :: c.order.erase h).Nodup :=
        List.nodup_cons.2 ⟨sound.nodup.not_mem_erase, sound.nodup.erase h⟩
      exact whole.sublist (List.take_sublist ..)
    · exact sound.nodup
  contains_iff := by
    intro k
    rw [Table.contains, lookup_entries sound]
    by_cases same : k = h
    · rw [if_pos same, same]
      exact (mem_lookup_order_self sound m h).symm
    · rw [if_neg same]
      split
      · next member =>
        exact iff_of_true ((sound.contains_iff k).2 (mem_of_mem_lookup_order sound same member)) member
      · next outside => exact iff_of_false (by simp) outside
  room := by
    rw [lookup_order sound, lookup_capacity]
    split
    · exact List.length_take_le ..
    · exact sound.room
  positive := by
    rw [lookup_capacity]
    exact sound.positive

@[simp] theorem keep_order (c : Recent) (h : UInt64) (copy : Copy) :
    (c.keep h copy).order = c.order := by
  unfold keep
  split <;> rfl

@[simp] theorem keep_capacity (c : Recent) (h : UInt64) (copy : Copy) :
    (c.keep h copy).capacity = c.capacity := by
  unfold keep
  split <;> rfl

@[simp] theorem keep_hits (c : Recent) (h : UInt64) (copy : Copy) :
    (c.keep h copy).hits = c.hits := by
  unfold keep
  split <;> rfl

@[simp] theorem keep_misses (c : Recent) (h : UInt64) (copy : Copy) :
    (c.keep h copy).misses = c.misses := by
  unfold keep
  split <;> rfl

theorem keep_entries (c : Recent) (h k : UInt64) (copy : Copy) :
    (c.keep h copy).entries.get? k =
      if k = h then (c.entries.get? h).map ({ · with copy := some copy }) else c.entries.get? k := by
  unfold keep
  split
  · next e there => simp only [Table.get?_insert, there, Option.map_some]
  · next absent =>
    split
    · next same => rw [same, absent, Option.map_none]
    · rfl

theorem keep_sound (sound : c.Sound) (h : UInt64) (copy : Copy) : (c.keep h copy).Sound where
  nodup := by
    rw [keep_order]
    exact sound.nodup
  contains_iff := by
    intro k
    have same : (c.keep h copy).entries.contains k = c.entries.contains k := by
      rw [Table.contains, Table.contains, keep_entries]
      split
      · next same => rw [same, Option.isSome_map]
      · rfl
    rw [same, keep_order]
    exact sound.contains_iff k
  room := by
    rw [keep_order, keep_capacity]
    exact sound.room
  positive := by
    rw [keep_capacity]
    exact sound.positive

end Recent

/-- The program of an entry: the copy that is remembered, or else a new one. -/
def Remembered.program (e : Remembered) (h : UInt64) (serial : Nat) : Except Error Copy :=
  match e.copy with
  | some copy => .ok copy
  | none => (decodeEntry h e.bytes).map (⟨·, serial⟩)

namespace Recent

variable {c : Recent} {m : Memory} {h k : UInt64} {n : Nat} {e : Remembered}

theorem program_answer (c : Recent) (m : Memory) (h : UInt64) (n : Nat) :
    (c.program m h n).1 =
      match (c.lookup m h).1 with
      | none => .error (.notFound h)
      | some e => e.program h n := by
  unfold program
  split
  · next looked => rw [looked]
  · next e _ looked =>
    rw [looked]
    split
    · next remembered => simp only [Remembered.program, remembered]
    · next bare =>
      split
      · next failed => simp only [Remembered.program, bare, failed, Except.map]
      · next decoded => simp only [Remembered.program, bare, decoded, Except.map]

/-- Besides the look-up, asking for a program can only keep a copy. -/
theorem program_view (c : Recent) (m : Memory) (h : UInt64) (n : Nat) :
    (c.program m h n).2 = (c.lookup m h).2 ∨
    ∃ copy, (c.program m h n).2 = (c.lookup m h).2.keep h copy := by
  unfold program
  split
  · next looked => exact .inl (by rw [looked])
  · next e _ looked =>
    rw [looked]
    split
    · exact .inl rfl
    · split
      · exact .inl rfl
      · exact .inr ⟨_, rfl⟩

/-- The program is remembered with its entry, and the other entries are those after the look-up. -/
theorem program_entries (sound : c.Sound) (m : Memory) (h k : UInt64) (n : Nat) :
    (c.program m h n).2.entries.get? k =
      if k = h then
        (c.lookup m h).1.map fun e => { e with copy := (e.program h n).toOption }
      else (c.lookup m h).2.entries.get? k := by
  have found := lookup_entries sound m h h
  rw [if_pos rfl] at found
  unfold program
  split
  · next looked =>
    rw [looked] at found ⊢
    split
    · next same =>
      rw [same]
      exact found
    · rfl
  · next e c' looked =>
    rw [looked] at found ⊢
    split
    · next copy remembered =>
      split
      · next same =>
        rw [same, found, Option.map_some]
        simp only [Remembered.program, remembered, Except.toOption]
        rw [← remembered]
      · rfl
    · next bare =>
      split
      · next failed =>
        split
        · next same =>
          rw [same, found, Option.map_some]
          simp only [Remembered.program, bare, failed, Except.map, Except.toOption]
          rw [← bare]
        · rfl
      · next p decoded =>
        rw [keep_entries, found]
        simp only [Remembered.program, bare, decoded, Except.map, Except.toOption, Option.map_some]

theorem program_sound (sound : c.Sound) (m : Memory) (h : UInt64) (n : Nat) :
    (c.program m h n).2.Sound := by
  obtain same | ⟨copy, kept⟩ := program_view c m h n
  · rw [same]
    exact lookup_sound sound m h
  · rw [kept]
    exact keep_sound (lookup_sound sound m h) h copy

@[simp] theorem program_order (c : Recent) (m : Memory) (h : UInt64) (n : Nat) :
    (c.program m h n).2.order = (c.lookup m h).2.order := by
  obtain same | ⟨copy, kept⟩ := program_view c m h n
  · rw [same]
  · rw [kept, keep_order]

@[simp] theorem program_capacity (c : Recent) (m : Memory) (h : UInt64) (n : Nat) :
    (c.program m h n).2.capacity = c.capacity := by
  obtain same | ⟨copy, kept⟩ := program_view c m h n
  · rw [same, lookup_capacity]
  · rw [kept, keep_capacity, lookup_capacity]

@[simp] theorem program_hits (c : Recent) (m : Memory) (h : UInt64) (n : Nat) :
    (c.program m h n).2.hits = (c.lookup m h).2.hits := by
  obtain same | ⟨copy, kept⟩ := program_view c m h n
  · rw [same]
  · rw [kept, keep_hits]

@[simp] theorem program_misses (c : Recent) (m : Memory) (h : UInt64) (n : Nat) :
    (c.program m h n).2.misses = (c.lookup m h).2.misses := by
  obtain same | ⟨copy, kept⟩ := program_view c m h n
  · rw [same]
  · rw [kept, keep_misses]

theorem retrieve_answer (c : Recent) (m : Memory) (h : UInt64) (reader : Reader) :
    (c.retrieve m h reader).1 =
      match (c.lookup m h).1 with
      | none => .error (.notFound h)
      | some e => readEntry h e.bytes reader := by
  unfold retrieve
  split
  · next looked => rw [looked]
  · next looked => rw [looked]

@[simp] theorem retrieve_view (c : Recent) (m : Memory) (h : UInt64) (reader : Reader) :
    (c.retrieve m h reader).2 = (c.lookup m h).2 := by
  unfold retrieve
  split
  · next looked => rw [looked]
  · next looked => rw [looked]

end Recent

/-- The entry is what the store has under the hash, and its copy is what these bytes decode to. -/
structure Remembered.Of (m : Memory) (h : UInt64) (e : Remembered) : Prop where
  stored : m.get? h = some e.bytes
  decoded : ∀ copy, e.copy = some copy → decodeEntry h e.bytes = .ok copy.program

theorem Remembered.Of.program_map {m : Memory} {h : UInt64} {e : Remembered}
    (faithful : e.Of m h) (n : Nat) :
    (e.program h n).map Copy.program = decodeEntry h e.bytes := by
  unfold Remembered.program
  split
  · next copy remembered => exact (faithful.decoded copy remembered).symm
  · cases decodeEntry h e.bytes with
    | error err => rfl
    | ok p => rfl

namespace Recent

variable {c : Recent} {m m' : Memory} {h k : UInt64} {n : Nat} {e : Remembered}

/-- Everything that is remembered is what the store has. -/
def Faithful (c : Recent) (m : Memory) : Prop := ∀ h e, c.entries.get? h = some e → e.Of m h

theorem create_faithful (capacity : Int) (m : Memory) : (create capacity).Faithful m := by
  intro h e there
  cases there

theorem Faithful.mono (faithful : c.Faithful m) (grown : m.Within m') : c.Faithful m' := by
  intro h e there
  obtain ⟨stored, decoded⟩ := faithful h e there
  exact ⟨grown h e.bytes stored, decoded⟩

theorem Faithful.found (faithful : c.Faithful m) (found : (c.lookup m h).1 = some e) :
    e.Of m h := by
  obtain ⟨e', there, looked⟩ | ⟨-, -, looked⟩ | ⟨t, -, stored, looked⟩ := lookup_cases c m h
  · rw [looked] at found
    cases found
    exact faithful h e there
  · rw [looked] at found
    cases found
  · rw [looked] at found
    cases found
    refine ⟨stored, ?_⟩
    intro copy none
    cases none

theorem lookup_faithful (sound : c.Sound) (faithful : c.Faithful m) (h : UInt64) :
    (c.lookup m h).2.Faithful m := by
  intro k e there
  rw [lookup_entries sound] at there
  split at there
  · next same =>
    rw [same]
    exact faithful.found there
  · split at there
    · exact faithful k e there
    · cases there

theorem program_faithful (sound : c.Sound) (faithful : c.Faithful m) (h : UInt64) (n : Nat) :
    (c.program m h n).2.Faithful m := by
  intro k e there
  rw [program_entries sound] at there
  split at there
  · next same =>
    obtain ⟨e', found, rfl⟩ := Option.map_eq_some_iff.1 there
    have before := faithful.found found
    subst same
    refine ⟨before.stored, ?_⟩
    intro copy kept
    have decoded := before.program_map n
    cases given : e'.program k n with
    | error err =>
      rw [given] at kept
      cases kept
    | ok copy' =>
      rw [given] at kept decoded
      cases kept
      exact decoded.symm
  · exact lookup_faithful sound faithful h k e there

theorem Faithful.lookup_bytes (faithful : c.Faithful m) (h : UInt64) :
    (c.lookup m h).1.map Remembered.bytes = m.get? h := by
  obtain ⟨e, there, looked⟩ | ⟨-, nowhere, looked⟩ | ⟨t, -, stored, looked⟩ := lookup_cases c m h
  · rw [looked]
    exact (faithful h e there).stored.symm
  · rw [looked]
    exact nowhere.symm
  · rw [looked]
    exact stored.symm

/-- The program is the one the store gives, though maybe an earlier copy of it. -/
theorem Faithful.program_eq (faithful : c.Faithful m) (h : UInt64) (n n' : Nat) :
    (c.program m h n).1.map Copy.program = (m.program h n').map Copy.program := by
  have bytes := faithful.lookup_bytes h
  rw [program_answer]
  cases found : (c.lookup m h).1 with
  | none =>
    rw [found] at bytes
    simp only [Memory.program, Memory.bytes, ← bytes, Option.map_none, Except.map]
  | some e =>
    rw [found] at bytes
    simp only [Memory.program, Memory.bytes, ← bytes, Option.map_some,
      (faithful.found found).program_map]
    cases decodeEntry h e.bytes with
    | error err => rfl
    | ok p => rfl

theorem Faithful.retrieve_eq (faithful : c.Faithful m) (h : UInt64) (reader : Reader) :
    (c.retrieve m h reader).1 = m.retrieve h reader := by
  have bytes := faithful.lookup_bytes h
  rw [retrieve_answer]
  cases found : (c.lookup m h).1 with
  | none =>
    rw [found] at bytes
    simp only [Memory.retrieve, Memory.bytes, ← bytes, Option.map_none]
  | some e =>
    rw [found] at bytes
    simp only [Memory.retrieve, Memory.bytes, ← bytes, Option.map_some]

end Recent

end Lightboard.Store
