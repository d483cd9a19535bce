import Lightboard.Proofs.Store.Views
import Mathlib.Data.List.Dedup
import Mathlib.Data.List.DropRight

/-!
# Which entries a view remembers

A view remembers the entries that were found last, as many as there is room for, and nothing else of
its past matters. So whether a look-up hits is read off the look-ups before it: the entry must have
been found, and since it was last looked up there must have been room for all others that were found.

A program that is decoded stays with its entry. It is given again, as the same copy, as long as the
entry stays, and a new copy is made when the entry had to go in between.

The history is that of one view. The store behind may be shared with other views and be written to by
anyone, and texts in it may have the same hash.
-/

namespace Lightboard.Store

/-- The different hashes of a list, the one that came last first. -/
def latest (hs : List UInt64) : List UInt64 := hs.dedup.reverse

theorem dedup_concat (hs : List UInt64) (h : UInt64) :
    (hs ++ [h]).dedup = hs.dedup.erase h ++ [h] := by
  induction hs with
  | nil => rfl
  | cons k hs ih =>
    rw [List.cons_append]
    by_cases member : k ∈ hs
    · rw [List.dedup_cons_of_mem (List.mem_append_left _ member), List.dedup_cons_of_mem member, ih]
    · rw [List.dedup_cons_of_notMem member]
      by_cases same : k = h
      · have outside : h ∉ hs.dedup := by
          rw [List.mem_dedup, ← same]
          exact member
        rw [List.dedup_cons_of_mem (by simp [same]), ih, same, List.erase_cons_head,
          List.erase_of_not_mem outside]
      · rw [List.dedup_cons_of_notMem (by simp [member, same]), ih,
          List.erase_cons_tail (by simpa using same), List.cons_append]

theorem latest_concat (hs : List UInt64) (h : UInt64) :
    latest (hs ++ [h]) = h :: (latest hs).erase h := by
  have nodup := List.nodup_dedup hs
  rw [latest, latest, dedup_concat, List.reverse_concat, nodup.erase_eq_filter,
    (List.nodup_reverse.2 nodup).erase_eq_filter, List.filter_reverse]

theorem mem_latest {hs : List UInt64} {h : UInt64} : h ∈ latest hs ↔ h ∈ hs := by
  rw [latest, List.mem_reverse, List.mem_dedup]

/-- To erase from the start of a list it is enough to know one element more. -/
theorem take_erase_take (l : List UInt64) (h : UInt64) (n : Nat) :
    ((l.take (n + 1)).erase h).take n = (l.erase h).take n := by
  induction l generalizing n with
  | nil => simp
  | cons k l ih =>
    rw [List.take_succ_cons]
    by_cases same : k = h
    · rw [same, List.erase_cons_head, List.erase_cons_head, List.take_take, Nat.min_self]
    · rw [List.erase_cons_tail (by simpa using same), List.erase_cons_tail (by simpa using same)]
      cases n with
      | zero => rfl
      | succ n => rw [List.take_succ_cons, List.take_succ_cons, ih]

/-- What comes first in a list of limited length depends on no more than that length. -/
theorem take_cons_erase_take {n : Nat} (positive : 0 < n) (l : List UInt64) (h : UInt64) :
    (h :: (l.take n).erase h).take n = (h :: l.erase h).take n := by
  obtain ⟨n, rfl⟩ := Nat.exists_eq_add_one_of_ne_zero (Nat.ne_of_gt positive)
  rw [List.take_succ_cons, List.take_succ_cons, take_erase_take]

/-- The last place of a hash among the latest is told by the different ones after it. -/
theorem mem_take_latest_iff {before since : List UInt64} {h : UInt64} (outside : h ∉ since)
    (n : Nat) : h ∈ (latest (before ++ h :: since)).take n ↔ since.dedup.length < n := by
  obtain ⟨others, split⟩ : since.dedup.reverse ++ [h] <+: latest (before ++ h :: since) := by
    have suffix := List.suffix_union_right before (h :: since).dedup
    rw [← List.dedup_append, List.dedup_cons_of_notMem outside] at suffix
    have reversed := List.reverse_prefix.2 suffix
    rwa [List.reverse_cons] at reversed
  have absent : h ∉ since.dedup.reverse.take n := by
    intro member
    exact outside (List.mem_dedup.1 (List.mem_reverse.1 (List.mem_of_mem_take member)))
  rw [← split, List.append_assoc, List.take_append, List.mem_append, List.length_reverse]
  constructor
  · rintro (first | rest)
    · exact absurd first absent
    · by_contra full
      rw [Nat.sub_eq_zero_of_le (Nat.le_of_not_lt full)] at rest
      cases rest
  · intro room
    right
    rw [List.singleton_append, List.take_cons (Nat.sub_pos_of_lt room)]
    exact List.mem_cons_self ..

/-- The hash that a request looks up in a view. -/
def Request.hash? : Request → Option UInt64
  | .retrieve h _ => some h
  | .program h => some h
  | .put _ => none
  | .has _ => none

/-- The hash that a call looks up in a view. -/
def Call.asks {ι : Type} [DecidableEq ι] (c : Call ι) (i : ι) : Option UInt64 :=
  if c.via = some i then c.request.hash? else none

/-- A look-up: the hash, and whether the store had it. -/
abbrev Lookup := UInt64 × Bool

/-- The hashes that were found. -/
def foundIn (past : List Lookup) : List UInt64 := (past.filter (·.2)).map (·.1)

/-- The look-ups after the last one of a hash. -/
def sinceLast (h : UInt64) (past : List Lookup) : List Lookup := past.rtakeWhile fun l => l.1 ≠ h

theorem mem_foundIn {past : List Lookup} {h : UInt64} : h ∈ foundIn past ↔ (h, true) ∈ past := by
  simp [foundIn]

theorem foundIn_append (past later : List Lookup) :
    foundIn (past ++ later) = foundIn past ++ foundIn later := by
  simp [foundIn]

/-- A hash that was looked up has a last look-up. -/
theorem exists_append_sinceLast {past : List Lookup} {h : UInt64} {found : Bool}
    (member : (h, found) ∈ past) : ∃ before last, past = before ++ (h, last) :: sinceLast h past := by
  induction past using List.reverseRecOn with
  | nil => cases member
  | append_singleton past l ih =>
    by_cases same : l.1 = h
    · refine ⟨past, l.2, ?_⟩
      rw [sinceLast, List.rtakeWhile_concat_neg _ _ _ (by simpa using same), ← same]
    · have earlier : (h, found) ∈ past := by
        obtain earlier | now := List.mem_append.1 member
        · exact earlier
        · exact absurd (congrArg Prod.fst (List.mem_singleton.1 now)).symm same
      obtain ⟨before, last, split⟩ := ih earlier
      refine ⟨before, last, ?_⟩
      rw [sinceLast, List.rtakeWhile_concat_pos _ _ _ (by simpa using same), ← sinceLast,
        ← List.cons_append, ← List.append_assoc, ← split]

namespace Recent

/-- A request that looks nothing up leaves the view. -/
theorem answer_of_no_hash {r : Request} (asked : r.hash? = none) (c : Recent) (m : Memory)
    (n : Nat) : (c.answer m r n).2.1 = c := by
  cases r with
  | put item => rfl
  | has h => rfl
  | retrieve h reader => cases asked
  | program h => cases asked

/-- A request that looks up a hash orders and counts as the look-up does. -/
theorem answer_of_hash {r : Request} {h : UInt64} (asked : r.hash? = some h) (c : Recent)
    (m : Memory) (n : Nat) :
    (c.answer m r n).2.1.order = (c.lookup m h).2.order ∧
    (c.answer m r n).2.1.hits = (c.lookup m h).2.hits ∧
    (c.answer m r n).2.1.misses = (c.lookup m h).2.misses ∧
    (c.answer m r n).2.1.capacity = c.capacity := by
  cases r with
  | put item => cases asked
  | has k => cases asked
  | retrieve k reader =>
    cases asked
    simp [answer]
  | program k =>
    cases asked
    simp [answer]

end Recent

namespace Shelf

variable {ι : Type} {s : Shelf ι} {i : ι} {c : Call ι} {h : UInt64} {past : List Lookup}

/-- What the look-ups through a view tell about it and the store. -/
structure Recalls (s : Shelf ι) (i : ι) (past : List Lookup) : Prop where
  sound : (s.views i).Sound
  order : (s.views i).order = (latest (foundIn past)).take (s.views i).capacity
  counted : (s.views i).hits + (s.views i).misses = past.length
  stored : ∀ h, (h, true) ∈ past → s.memory.has h
  /-- What was found once is found again. -/
  steady : past.Pairwise fun earlier later => earlier.1 = later.1 → earlier.2 → later.2

theorem start_recalls (capacity : ι → Int) (i : ι) : (start capacity).Recalls i [] where
  sound := Recent.create_sound _
  order := by simp [start, Recent.create, latest, foundIn]
  counted := rfl
  stored h member := by cases member
  steady := .nil

theorem Recalls.has_of_mem (recalls : s.Recalls i past) (member : h ∈ (s.views i).order) :
    s.memory.has h := by
  rw [recalls.order] at member
  exact recalls.stored h (mem_foundIn.1 (mem_latest.1 (List.mem_of_mem_take member)))

theorem Recalls.lookup_isSome (recalls : s.Recalls i past) (h : UInt64) :
    ((s.views i).lookup s.memory h).1.isSome = s.memory.has h := by
  rw [Bool.eq_iff_iff, Recent.lookup_isSome_iff, recalls.sound.contains_iff]
  constructor
  · rintro (remembered | there)
    · exact recalls.has_of_mem remembered
    · exact there
  · exact .inr

/-- A look-up puts what it finds before the latest. -/
theorem Recalls.lookup_order (recalls : s.Recalls i past) (h : UInt64) :
    ((s.views i).lookup s.memory h).2.order =
      (latest (foundIn (past ++ [(h, s.memory.has h)]))).take (s.views i).capacity := by
  rw [Recent.lookup_order recalls.sound, recalls.lookup_isSome, foundIn_append]
  cases s.memory.has h with
  | false => simpa [foundIn] using recalls.order
  | true =>
    rw [if_pos rfl, show foundIn [(h, true)] = [h] from rfl, latest_concat, recalls.order,
      take_cons_erase_take recalls.sound.positive]

/-- An entry is remembered just if it was found, and since its last look-up fewer others were found
than there is room for. -/
theorem Recalls.mem_order_iff (recalls : s.Recalls i past) (h : UInt64) :
    h ∈ (s.views i).order ↔
      (h, true) ∈ past ∧ (foundIn (sinceLast h past)).dedup.length < (s.views i).capacity := by
  rw [recalls.order]
  by_cases found : (h, true) ∈ past
  · obtain ⟨before, last, split⟩ := exists_append_sinceLast found
    have outside : ∀ l ∈ sinceLast h past, l.1 ≠ h := by
      intro l member
      simpa using List.mem_rtakeWhile_imp member
    have again : last = true := by
      have steady := recalls.steady
      rw [split, List.pairwise_append, List.pairwise_cons] at steady
      rw [split, List.mem_append, List.mem_cons] at found
      obtain earlier | now | later := found
      · exact steady.2.2 _ earlier _ (List.mem_cons_self ..) rfl rfl
      · exact (congrArg Prod.snd now).symm
      · exact absurd rfl (outside _ later)
    have unseen : h ∉ foundIn (sinceLast h past) := by
      intro member
      exact outside _ (mem_foundIn.1 member) rfl
    have listed : foundIn past = foundIn before ++ h :: foundIn (sinceLast h past) := by
      conv => lhs; rw [split, again]
      rw [foundIn_append]
      rfl
    rw [listed, mem_take_latest_iff unseen]
    exact (and_iff_right found).symm
  · refine iff_of_false (fun member => found ?_) (fun both => found both.1)
    exact mem_foundIn.1 (mem_latest.1 (List.mem_of_mem_take member))

variable [DecidableEq ι]

/-- The look-ups through a view while calls are made. -/
def lookups (i : ι) : Shelf ι → List (Call ι) → List Lookup
  | _, [] => []
  | s, c :: cs =>
    ((c.asks i).map fun h => (h, s.memory.has h)).toList ++ (s.step c).lookups i cs

theorem lookups_concat (s : Shelf ι) (i : ι) (cs : List (Call ι)) (c : Call ι) :
    s.lookups i (cs ++ [c]) =
      s.lookups i cs ++ ((c.asks i).map fun h => (h, (s.after cs).memory.has h)).toList := by
  induction cs generalizing s with
  | nil => simp [lookups]
  | cons c' cs ih => simp [lookups, ih]

theorem step_view_of_asks_none (asked : c.asks i = none) : (s.step c).views i = s.views i := by
  rw [step_views]
  split
  · next through =>
    rw [Call.asks, if_pos through] at asked
    exact Recent.answer_of_no_hash asked _ _ _
  · rfl

theorem step_view_of_asks (asked : c.asks i = some h) :
    ((s.step c).views i).order = ((s.views i).lookup s.memory h).2.order ∧
    ((s.step c).views i).hits = ((s.views i).lookup s.memory h).2.hits ∧
    ((s.step c).views i).misses = ((s.views i).lookup s.memory h).2.misses ∧
    ((s.step c).views i).capacity = (s.views i).capacity := by
  rw [step_views]
  unfold Call.asks at asked
  split at asked
  · next through =>
    rw [if_pos through]
    exact Recent.answer_of_hash asked _ _ _
  · cases asked

theorem Recalls.step (recalls : s.Recalls i past) (c : Call ι) :
    (s.step c).Recalls i
      (past ++ ((c.asks i).map fun h => (h, s.memory.has h)).toList) := by
  cases asked : c.asks i with
  | none =>
    have same := step_view_of_asks_none (s := s) asked
    simp only [Option.map_none, Option.toList_none, List.append_nil]
    refine ⟨?_, ?_, ?_, fun h member => (s.step_grows c).has (recalls.stored h member), recalls.steady⟩
    · rw [same]
      exact recalls.sound
    · rw [same]
      exact recalls.order
    · rw [same]
      exact recalls.counted
  | some h =>
    obtain ⟨order, hits, misses, capacity⟩ := step_view_of_asks (s := s) asked
    have counted := recalls.counted
    obtain ⟨hit, missed⟩ := Recent.lookup_counts (s.views i) s.memory h
    simp only [Option.map_some, Option.toList_some]
    refine ⟨step_sound recalls.sound c, ?_, ?_, ?_, ?_⟩
    · rw [order, capacity]
      exact recalls.lookup_order h
    · rw [hits, misses, hit, missed, List.length_append, List.length_singleton]
      split
      · omega
      · omega
    · intro k member
      obtain earlier | now := List.mem_append.1 member
      · exact (s.step_grows c).has (recalls.stored k earlier)
      · obtain ⟨rfl, there⟩ := Prod.mk.injEq .. ▸ List.mem_singleton.1 now
        exact (s.step_grows c).has there.symm
    · rw [List.pairwise_append]
      refine ⟨recalls.steady, List.pairwise_singleton .., ?_⟩
      rintro ⟨k, found⟩ member later now same rfl
      rw [List.mem_singleton.1 now] at same ⊢
      cases same
      exact recalls.stored _ member

theorem after_recalls (recalls : s.Recalls i []) (cs : List (Call ι)) :
    (s.after cs).Recalls i (s.lookups i cs) := by
  induction cs using List.reverseRecOn with
  | nil => exact recalls
  | append_singleton cs c ih =>
    rw [after_append, lookups_concat]
    exact ih.step c

end Shelf

namespace Recent

variable {c : Recent} {m : Memory} {h k : UInt64} {n : Nat} {copy : Copy}

/-- The copy that is remembered under a hash. -/
def copyOf (c : Recent) (h : UInt64) : Option Copy := (c.entries.get? h).bind Remembered.copy

theorem Sound.mem_of_copyOf (sound : c.Sound) (copied : c.copyOf h = some copy) : h ∈ c.order := by
  obtain ⟨e, there, -⟩ := Option.bind_eq_some_iff.1 copied
  exact sound.mem_of_get? there

/-- An entry that is found comes with the copy that was remembered. -/
theorem lookup_copy (c : Recent) (m : Memory) (h : UInt64) :
    (c.lookup m h).1.bind Remembered.copy = c.copyOf h := by
  obtain ⟨e, there, looked⟩ | ⟨absent, -, looked⟩ | ⟨t, absent, -, looked⟩ := lookup_cases c m h
  · simp [looked, copyOf, there]
  · simp [looked, copyOf, absent]
  · simp [looked, copyOf, absent]

/-- A look-up leaves the copies of the entries that stay. -/
theorem lookup_copyOf (sound : c.Sound) (m : Memory) (h k : UInt64) :
    (c.lookup m h).2.copyOf k = if k ∈ (c.lookup m h).2.order then c.copyOf k else none := by
  have copied := lookup_copy c m h
  rw [copyOf, lookup_entries sound]
  by_cases same : k = h
  · subst same
    rw [if_pos rfl, copied]
    split
    · rfl
    · next gone =>
      rw [mem_lookup_order_self sound, Bool.not_eq_true, Option.isSome_eq_false_iff,
        Option.isNone_iff_eq_none] at gone
      rw [← copied, gone]
      rfl
  · rw [if_neg same]
    split
    · rfl
    · rfl

/-- The copy of a program that is given is remembered. -/
theorem program_copyOf (sound : c.Sound) (m : Memory) (h k : UInt64) (n : Nat) :
    (c.program m h n).2.copyOf k =
      if k = h then (c.program m h n).1.toOption else (c.lookup m h).2.copyOf k := by
  rw [copyOf, program_entries sound, program_answer]
  split
  · cases (c.lookup m h).1 with
    | none => rfl
    | some e => rfl
  · rfl

theorem program_of_copyOf (copied : c.copyOf h = some copy) (m : Memory) (n : Nat) :
    (c.program m h n).1 = .ok copy := by
  rw [← lookup_copy c m h] at copied
  obtain ⟨e, found, remembered⟩ := Option.bind_eq_some_iff.1 copied
  rw [program_answer, found]
  simp only [Remembered.program, remembered]

/-- Without a copy that is remembered, the entry is decoded. -/
theorem program_of_no_copy (bare : c.copyOf h = none) (given : (c.program m h n).1 = .ok copy) :
    copy.serial = n ∧
    ∃ e, (c.lookup m h).1 = some e ∧ decodeEntry h e.bytes = .ok copy.program := by
  rw [← lookup_copy c m h] at bare
  rw [program_answer] at given
  cases found : (c.lookup m h).1 with
  | none =>
    rw [found] at given
    cases given
  | some e =>
    rw [found, Option.bind_some] at bare
    simp only [found, Remembered.program, bare] at given
    cases decoded : decodeEntry h e.bytes with
    | error err =>
      rw [decoded] at given
      cases given
    | ok p =>
      rw [decoded] at given
      cases given
      exact ⟨rfl, e, rfl, decoded⟩

/-- A copy was there before a request, or it is the answer to it. -/
theorem answer_copyOf (sound : c.Sound) {r : Request}
    (copied : (c.answer m r n).2.1.copyOf h = some copy) :
    c.copyOf h = some copy ∨ (r = .program h ∧ (c.answer m r n).1 = .program (.ok copy)) := by
  have looked : ∀ k, (c.lookup m k).2.copyOf h = some copy → c.copyOf h = some copy := by
    intro k copied
    rw [lookup_copyOf sound] at copied
    split at copied
    · exact copied
    · cases copied
  cases r with
  | put item => exact .inl copied
  | has k => exact .inl copied
  | retrieve k reader =>
    simp only [answer, retrieve_view] at copied
    exact .inl (looked k copied)
  | program k =>
    simp only [answer, program_copyOf sound] at copied
    split at copied
    · next same =>
      subst same
      refine .inr ⟨rfl, ?_⟩
      simp only [answer]
      cases given : (c.program m h n).1 with
      | error e =>
        rw [given] at copied
        cases copied
      | ok copy' =>
        rw [given] at copied
        cases copied
        rfl
    · exact .inl (looked k copied)

/-- A copy is there as long as its entry. -/
theorem answer_keeps (sound : c.Sound) {r : Request} (copied : c.copyOf h = some copy)
    (stays : h ∈ (c.answer m r n).2.1.order) : (c.answer m r n).2.1.copyOf h = some copy := by
  cases r with
  | put item => exact copied
  | has k => exact copied
  | retrieve k reader =>
    simp only [answer, retrieve_view] at stays ⊢
    rw [lookup_copyOf sound, if_pos stays, copied]
  | program k =>
    simp only [answer, program_order] at stays ⊢
    rw [program_copyOf sound]
    split
    · next same =>
      subst same
      rw [program_of_copyOf copied]
      rfl
    · rw [lookup_copyOf sound, if_pos stays, copied]

end Recent

namespace Shelf

variable {ι : Type} {s : Shelf ι} {i : ι} {c : Call ι} {h : UInt64} {copy : Copy} {n : Nat}

/-- The call that asks for a program through a view. -/
def ask (i : ι) (h : UInt64) : Call ι := ⟨some i, .program h⟩

theorem answer_ask (s : Shelf ι) (i : ι) (h : UInt64) :
    s.answer (ask i h) = .program ((s.views i).program s.memory h s.calls).1 := rfl

theorem answer_of_copyOf (copied : (s.views i).copyOf h = some copy) :
    s.answer (ask i h) = .program (.ok copy) := by
  rw [answer_ask, Recent.program_of_copyOf copied]

/-- A copy that is given is the one that is remembered, or made by this call. -/
theorem serial_of_answer (given : s.answer (ask i h) = .program (.ok copy)) :
    (s.views i).copyOf h = some copy ∨
    (copy.serial = s.calls ∧
      ∃ e, ((s.views i).lookup s.memory h).1 = some e ∧
        decodeEntry h e.bytes = .ok copy.program) := by
  cases copied : (s.views i).copyOf h with
  | none =>
    rw [answer_ask] at given
    exact .inr (Recent.program_of_no_copy copied (Answer.program.inj given))
  | some other =>
    rw [answer_of_copyOf copied] at given
    cases given
    exact .inl rfl

variable [DecidableEq ι]

theorem step_copyOf (sound : (s.views i).Sound)
    (copied : ((s.step c).views i).copyOf h = some copy) :
    (s.views i).copyOf h = some copy ∨ (c = ask i h ∧ s.answer c = .program (.ok copy)) := by
  rw [step_views] at copied
  split at copied
  · next through =>
    obtain before | ⟨asked, given⟩ := Recent.answer_copyOf sound copied
    · exact .inl before
    · obtain ⟨via, request⟩ := c
      cases through
      cases asked
      exact .inr ⟨rfl, given⟩
  · exact .inl copied

theorem step_keeps (sound : (s.views i).Sound) (copied : (s.views i).copyOf h = some copy)
    (stays : h ∈ ((s.step c).views i).order) : ((s.step c).views i).copyOf h = some copy := by
  rw [step_views] at stays ⊢
  split at stays
  · next through =>
    rw [if_pos through]
    exact Recent.answer_keeps sound copied stays
  · next elsewhere =>
    rw [if_neg elsewhere]
    exact copied

/-- A program that was given is remembered. -/
theorem copyOf_step_ask (sound : (s.views i).Sound)
    (given : s.answer (ask i h) = .program (.ok copy)) :
    ((s.step (ask i h)).views i).copyOf h = some copy := by
  rw [step_views, if_pos (show (ask i h).via = some i from rfl)]
  simp only [ask, Recent.answer]
  rw [Recent.program_copyOf sound, if_pos rfl, Answer.program.inj given]
  rfl

theorem after_sound (sound : (s.views i).Sound) (cs : List (Call ι)) :
    ((s.after cs).views i).Sound := by
  induction cs generalizing s with
  | nil => exact sound
  | cons c cs ih => exact ih (step_sound sound c)

theorem after_capacity (s : Shelf ι) (i : ι) (cs : List (Call ι)) :
    ((s.after cs).views i).capacity = (s.views i).capacity := by
  induction cs generalizing s with
  | nil => rfl
  | cons c cs ih =>
    rw [after_cons, ih]
    cases asked : c.asks i with
    | none => rw [step_view_of_asks_none asked]
    | some h => exact (step_view_of_asks asked).2.2.2

theorem after_calls (s : Shelf ι) (cs : List (Call ι)) :
    (s.after cs).calls = s.calls + cs.length := by
  induction cs generalizing s with
  | nil => rfl
  | cons c cs ih =>
    rw [after_cons, ih, step_calls, List.length_cons]
    omega

/-- Copies have the numbers of earlier calls. -/
theorem after_serial (sound : (s.views i).Sound)
    (old : ∀ h copy, (s.views i).copyOf h = some copy → copy.serial < s.calls)
    (cs : List (Call ι)) :
    ∀ h copy, ((s.after cs).views i).copyOf h = some copy → copy.serial < (s.after cs).calls := by
  induction cs generalizing s with
  | nil => exact old
  | cons c cs ih =>
    apply ih (step_sound sound c)
    intro h copy copied
    rw [step_calls]
    obtain before | ⟨rfl, given⟩ := step_copyOf sound copied
    · exact Nat.lt_succ_of_lt (old h copy before)
    · obtain before | ⟨now, -⟩ := serial_of_answer given
      · exact Nat.lt_succ_of_lt (old h copy before)
      · exact Nat.lt_succ_of_le (Nat.le_of_eq now)

/-- Once the copies under a hash are newer than a call, they stay so. -/
theorem after_newer (sound : (s.views i).Sound) (past : n ≤ s.calls)
    (newer : ∀ copy, (s.views i).copyOf h = some copy → n ≤ copy.serial) (cs : List (Call ι)) :
    ∀ copy, ((s.after cs).views i).copyOf h = some copy → n ≤ copy.serial := by
  induction cs generalizing s with
  | nil => exact newer
  | cons c cs ih =>
    refine ih (step_sound sound c) (by rw [step_calls]; omega) ?_
    intro copy copied
    obtain before | ⟨rfl, given⟩ := step_copyOf sound copied
    · exact newer copy before
    · obtain before | ⟨now, -⟩ := serial_of_answer given
      · exact newer copy before
      · rw [now]
        exact past

/-- A hash is remembered all the time while calls are made. -/
def Stays (i : ι) (h : UInt64) (s : Shelf ι) (cs : List (Call ι)) : Prop :=
  ∀ done, done <+: cs → h ∈ ((s.after done).views i).order

theorem stays_concat {cs : List (Call ι)} :
    Stays i h s (cs ++ [c]) ↔ Stays i h s cs ∧ h ∈ ((s.after (cs ++ [c])).views i).order := by
  simp only [Stays, List.prefix_concat_iff]
  constructor
  · intro stays
    exact ⟨fun done earlier => stays done (.inr earlier), stays _ (.inl rfl)⟩
  · rintro ⟨stays, now⟩ done (rfl | earlier)
    · exact now
    · exact stays done earlier

theorem copyOf_of_stays (sound : (s.views i).Sound) (copied : (s.views i).copyOf h = some copy)
    {cs : List (Call ι)} (stays : Stays i h s cs) : ((s.after cs).views i).copyOf h = some copy := by
  induction cs using List.reverseRecOn with
  | nil => exact copied
  | append_singleton cs c ih =>
    rw [stays_concat, after_append] at stays
    rw [after_append]
    exact step_keeps (after_sound sound cs) (ih stays.1) stays.2

/-- One of the calls gave this copy, and its entry stayed since. -/
def GaveAndKept (i : ι) (h : UInt64) (s : Shelf ι) (cs : List (Call ι)) (copy : Copy) : Prop :=
  ∃ before between, cs = before ++ ask i h :: between ∧
    (s.after before).answer (ask i h) = .program (.ok copy) ∧
    Stays i h (s.after (before ++ [ask i h])) between

/-- Every copy that is remembered was given by a call and kept since. -/
theorem gaveAndKept_of_copyOf (sound : (s.views i).Sound)
    (bare : ∀ h, (s.views i).copyOf h = none) {cs : List (Call ι)}
    (copied : ((s.after cs).views i).copyOf h = some copy) : GaveAndKept i h s cs copy := by
  induction cs using List.reverseRecOn with
  | nil =>
    rw [after_nil, bare] at copied
    cases copied
  | append_singleton cs c ih =>
    have there := (after_sound sound (cs ++ [c])).mem_of_copyOf copied
    rw [after_append] at copied
    obtain kept | ⟨rfl, given⟩ := step_copyOf (after_sound sound cs) copied
    · obtain ⟨before, between, rfl, given, stays⟩ := ih kept
      refine ⟨before, between ++ [c], by simp, given, stays_concat.2 ⟨stays, ?_⟩⟩
      rw [← after_append]
      simpa using there
    · refine ⟨cs, [], rfl, given, ?_⟩
      intro done earlier
      rw [List.prefix_nil.1 earlier]
      exact there

/-- The same copy is given again just if the entry stayed in between. -/
theorem same_copy_iff (sound : (s.views i).Sound)
    (old : ∀ h copy, (s.views i).copyOf h = some copy → copy.serial < s.calls)
    {before between : List (Call ι)} {earlier : Copy}
    (gave : (s.after before).answer (ask i h) = .program (.ok earlier))
    (gives : (s.after (before ++ ask i h :: between)).answer (ask i h) = .program (.ok copy)) :
    (Stays i h (s.after (before ++ [ask i h])) between → copy = earlier) ∧
    (copy.serial = earlier.serial → Stays i h (s.after (before ++ [ask i h])) between) := by
  have split : before ++ ask i h :: between = before ++ [ask i h] ++ between := by simp
  rw [split, after_append] at gives
  have sound' := after_sound sound (before ++ [ask i h])
  have copied : ((s.after (before ++ [ask i h])).views i).copyOf h = some earlier := by
    rw [after_append]
    exact copyOf_step_ask (after_sound sound before) gave
  have past := after_serial sound old (before ++ [ask i h]) h earlier copied
  generalize s.after (before ++ [ask i h]) = s' at *
  constructor
  · intro stays
    rw [answer_of_copyOf (copyOf_of_stays sound' copied stays)] at gives
    cases gives
    rfl
  · intro same
    by_contra gone
    -- where the entry is gone, its copy is too, and any other is newer
    obtain ⟨done, ⟨rest, rfl⟩, absent⟩ : ∃ done, done <+: between ∧
        h ∉ ((s'.after done).views i).order := by
      simpa [Stays] using gone
    rw [after_append] at gives
    have sound'' := after_sound sound' done
    have later := after_calls s' done
    have end' := after_calls (s'.after done) rest
    have newer := after_newer sound'' (n := (s'.after done).calls) (h := h) (Nat.le_refl _) (by
      intro copy copied
      exact absurd (sound''.mem_of_copyOf copied) absent) rest
    obtain kept | ⟨made, -⟩ := serial_of_answer gives
    · have bound := newer copy kept
      omega
    · omega

/-- A view after any calls, told from the look-ups through it. Its list and its table have the same
hashes, which are the latest that were found, as many as there is room for. Every look-up is a hit or a
miss, and it is a hit just if the hash was found before and, since it was last looked up, fewer others
were found than there is room for. A program comes as the copy that was given earlier just if its entry
stayed since, and if there is no such copy it is decoded now. -/
theorem view_recalls_latest (capacity : ι → Int) (cs : List (Call ι)) (i : ι) :
    let s := (start capacity).after cs
    let past := (start capacity).lookups i cs
    (s.views i).capacity = (if capacity i ≤ 0 then 1000 else (capacity i).toNat) ∧
    ((s.views i).order.Nodup ∧ ∀ h, (s.views i).entries.contains h ↔ h ∈ (s.views i).order) ∧
    ((s.views i).order = (latest (foundIn past)).take (s.views i).capacity ∧
      (s.views i).order.length ≤ (s.views i).capacity) ∧
    (s.views i).hits + (s.views i).misses = past.length ∧
    (∀ c h, c.asks i = some h →
      (((s.step c).views i).hits = (s.views i).hits + 1 ↔
        (h, true) ∈ past ∧ (foundIn (sinceLast h past)).dedup.length < (s.views i).capacity)) ∧
    ∀ h copy, s.answer (ask i h) = .program (.ok copy) →
      (∀ before between earlier, cs = before ++ ask i h :: between →
        ((start capacity).after before).answer (ask i h) = .program (.ok earlier) →
        (Stays i h ((start capacity).after (before ++ [ask i h])) between → copy = earlier) ∧
        (copy.serial = earlier.serial →
          Stays i h ((start capacity).after (before ++ [ask i h])) between)) ∧
      ((∀ earlier, ¬ GaveAndKept i h (start capacity) cs earlier) →
        copy.serial = s.calls ∧
        ∃ e, ((s.views i).lookup s.memory h).1 = some e ∧
          decodeEntry h e.bytes = .ok copy.program) := by
  intro s past
  have recalls : s.Recalls i past := after_recalls (start_recalls capacity i) cs
  have sound : ((start capacity).views i).Sound := (start_recalls capacity i).sound
  have bare : ∀ h, ((start capacity).views i).copyOf h = none := fun h => rfl
  refine ⟨after_capacity _ _ _, ⟨recalls.sound.nodup, recalls.sound.contains_iff⟩,
    ⟨recalls.order, recalls.sound.room⟩, recalls.counted, ?_, ?_⟩
  · intro c h asked
    rw [← recalls.mem_order_iff, (step_view_of_asks asked).2.1, (Recent.lookup_counts _ _ _).1,
      ← recalls.sound.contains_iff]
    split
    · next there => simp [there]
    · next absent => simp [absent]
  · intro h copy gives
    constructor
    · rintro before between earlier rfl gave
      refine same_copy_iff sound ?_ gave gives
      intro h copy copied
      rw [bare] at copied
      cases copied
    · intro unkept
      obtain copied | made := serial_of_answer gives
      · exact absurd (gaveAndKept_of_copyOf sound bare copied) (unkept copy)
      · exact made

/-- Room for one: a program is asked for twice, and then another entry takes its place. -/
def revisits : List (Call Unit) :=
  [⟨none, .put (.program blank)⟩, ⟨none, .put (.raw [1])⟩, ask () (Hash64.hash blank.encode),
    ask () (Hash64.hash blank.encode), ⟨some (), .retrieve (Hash64.hash [1]) .ok⟩]

/-- The copy that an answer gives. -/
def given? : Answer Copy → Option Copy
  | .program (.ok copy) => some copy
  | _ => none

theorem exists_of_given? {a : Answer Copy} (some : (given? a).isSome) :
    ∃ copy, a = .program (.ok copy) := by
  unfold given? at some
  split at some
  · exact ⟨_, rfl⟩
  · cases some

/-- The second time the program comes as the same copy, and once it had to go as another one. -/
theorem revisits_recalled :
    ∃ first again later : Copy,
      ((start fun _ => 1).after (revisits.take 2)).answer (ask () (Hash64.hash blank.encode)) =
        .program (.ok first) ∧
      ((start fun _ => 1).after (revisits.take 3)).answer (ask () (Hash64.hash blank.encode)) =
        .program (.ok again) ∧
      ((start fun _ => 1).after revisits).answer (ask () (Hash64.hash blank.encode)) =
        .program (.ok later) ∧
      again = first ∧ later.serial ≠ first.serial ∧
      (((start fun _ => 1).after revisits).views ()).order = [Hash64.hash [1]] := by
  obtain ⟨first, gave⟩ : ∃ copy, ((start fun _ => 1).after (revisits.take 2)).answer
      (ask () (Hash64.hash blank.encode)) = .program (.ok copy) :=
    exists_of_given? (by decide +kernel)
  obtain ⟨again, repeated⟩ : ∃ copy, ((start fun _ => 1).after (revisits.take 3)).answer
      (ask () (Hash64.hash blank.encode)) = .program (.ok copy) :=
    exists_of_given? (by decide +kernel)
  obtain ⟨later, gives⟩ : ∃ copy, ((start fun _ => 1).after revisits).answer
      (ask () (Hash64.hash blank.encode)) = .program (.ok copy) :=
    exists_of_given? (by decide +kernel)
  refine ⟨first, again, later, gave, repeated, gives, ?_, ?_, by decide +kernel⟩
  · have recalled := (view_recalls_latest (fun _ => 1) (revisits.take 3) ()).2.2.2.2.2
    refine ((recalled _ again repeated).1 (revisits.take 2) [] first rfl gave).1 ?_
    intro done earlier
    rw [List.prefix_nil.1 earlier]
    decide +kernel
  · have recalled := (view_recalls_latest (fun _ => 1) revisits ()).2.2.2.2.2
    intro same
    have stays := ((recalled _ later gives).1 (revisits.take 2) (revisits.drop 3) first rfl gave).2 same
    exact absurd (stays _ (List.prefix_refl _)) (by decide +kernel)

end Shelf

end Lightboard.Store
