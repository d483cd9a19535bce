import Lightboard.Proofs.Binary.StoredForm
import Lightboard.Proofs.Store.Remembered
import Lightboard.Proofs.Text.Order

/-!
# Stored bytes do not depend on the order of routines

A table of routines has no order of its own. Its entries are stored sorted by name, and as no name
comes twice there is just one way to sort them, whatever order they were found in and however they
were sorted (`sorts_unique`). So programs that hold the same are stored as the same bytes, and in a
store they are one entry.
-/

namespace Lightboard

namespace Program

/-- Two programs hold the same: they have one name and one code, and they find the same routines. -/
structure SameAs (p q : Program) : Prop where
  name : p.name = q.name
  code : p.code = q.code
  resolve : ∀ n, p.resolve n = q.resolve n

theorem SameAs.refl (p : Program) : p.SameAs p := ⟨rfl, rfl, fun _ => rfl⟩

theorem SameAs.symm {p q : Program} (same : p.SameAs q) : q.SameAs p where
  name := same.name.symm
  code := same.code.symm
  resolve n := (same.resolve n).symm

/-- The routines of a program in any order, each name once. -/
structure Enumerates (p : Program) (es : List (Text × Int)) : Prop where
  nodup : (es.map Prod.fst).Nodup
  mem_iff : ∀ n entry, (n, entry) ∈ es ↔ p.resolve n = some entry

/-- A result of sorting by name, where all that is asked of the sort is that no name stands in front
of a smaller one. -/
structure SortsByName (es rs : List (Text × Int)) : Prop where
  perm : rs.Perm es
  ascending : rs.Pairwise fun a b => ¬ b.1 < a.1

/-- Entries with different names are sorted in one way, whatever order they come in. -/
theorem sorts_unique {es es' rs rs' : List (Text × Int)} (nodup : (es.map Prod.fst).Nodup)
    (nodup' : (es'.map Prod.fst).Nodup) (members : ∀ e, e ∈ es ↔ e ∈ es')
    (sorts : SortsByName es rs) (sorts' : SortsByName es' rs') : rs = rs' := by
  have perm : es.Perm es' :=
    (List.perm_ext_iff_of_nodup (nodup.of_map _) (nodup'.of_map _)).mpr members
  refine List.Perm.eq_of_pairwise ?_ sorts.ascending sorts'.ascending
    (sorts.perm.trans (perm.trans sorts'.perm.symm))
  intro a b ha hb le ge
  have names : a.1 = b.1 := List.le_antisymm (List.not_lt.mp le) (List.not_lt.mp ge)
  have first : a ∈ es := sorts.perm.mem_iff.mp ha
  have second : b ∈ es := (members b).mpr (sorts'.perm.mem_iff.mp hb)
  exact List.inj_on_of_nodup_map nodup first second names

theorem enumerates_entries (p : Program) : p.Enumerates p.routines.entries where
  nodup := p.routines.nodup
  mem_iff _ _ := Table.get?_eq_some_iff.symm

theorem sortedRoutines_sorts (p : Program) : SortsByName p.routines.entries p.sortedRoutines where
  perm := Wire.sortedRoutines_perm p
  ascending := by
    have sorted : p.sortedRoutines.Pairwise fun a b => Text.atMost a.1 b.1 = true :=
      List.pairwise_mergeSort (fun a b c => Text.atMost_trans a.1 b.1 c.1)
        (fun a b => Text.atMost_total a.1 b.1) p.routines.entries
    exact sorted.imp fun le => List.not_lt.mpr ((Text.atMost_iff _ _).mp le)

/-- Programs that hold the same have the same sorted routines, in whatever order they are found. -/
theorem SameAs.sorted_eq {p q : Program} (same : p.SameAs q) {es rs : List (Text × Int)}
    (enumerates : p.Enumerates es) (sorts : SortsByName es rs) : rs = q.sortedRoutines := by
  refine sorts_unique enumerates.nodup q.routines.nodup ?_ sorts q.sortedRoutines_sorts
  rintro ⟨n, entry⟩
  rw [enumerates.mem_iff, q.enumerates_entries.mem_iff, same.resolve]

/-- The record of a program whose routines are listed as given. -/
def recordWith (p : Program) (rs : List (Text × Int)) : Wire.Program :=
  { name := p.name
    code := p.code.map Wire.ofInstruction
    routines := rs.map fun e => { name := e.1, entry := e.2 } }

theorem SameAs.record_eq {p q : Program} (same : p.SameAs q) {es rs : List (Text × Int)}
    (enumerates : p.Enumerates es) (sorts : SortsByName es rs) :
    p.recordWith rs = Wire.ofProgram q := by
  rw [same.sorted_eq enumerates sorts, recordWith, same.name, same.code]
  rfl

theorem SameAs.encode_eq {p q : Program} (same : p.SameAs q) : p.encode = q.encode := by
  rw [encode, encode, ← same.record_eq p.enumerates_entries p.sortedRoutines_sorts]
  rfl

end Program

theorem Table.put_put {κ ν : Type} [DecidableEq κ] (k : κ) (v : ν) (es : List (κ × ν)) :
    put k v (put k v es) = put k v es := by
  induction es with
  | nil => simp [put]
  | cons e es ih =>
      obtain ⟨k', v'⟩ := e
      by_cases same : k' = k
      · simp [put, same]
      · simp [put, same, ih]

namespace Store.Memory

/-- The store after programs were put in one after the other. -/
def putAll (m : Memory) (ps : List Program) : Memory :=
  ps.foldl (fun m p => (m.put (.program p)).2) m

theorem put_program (m : Memory) (p : Program) :
    m.put (.program p) = (.ok (Hash64.hash p.encode), m.insert p.encode) :=
  put_of_ok rfl m

/-- Bytes that are put in again change nothing. -/
theorem insert_insert (m : Memory) (t : Text) : (m.insert t).insert t = m.insert t := by
  simp only [insert, Table.insert, Table.put_put]

/-- Programs that are stored alike are one entry, however many there are. -/
theorem putAll_alike {t : Text} {ps : List Program} (some : ps ≠ [])
    (alike : ∀ p ∈ ps, p.encode = t) (m : Memory) : m.putAll ps = m.insert t := by
  have again (ps : List Program) (alike : ∀ p ∈ ps, p.encode = t) :
      (m.insert t).putAll ps = m.insert t := by
    induction ps with
    | nil => rfl
    | cons p ps ih =>
        obtain ⟨first, rest⟩ := List.forall_mem_cons.mp alike
        rw [putAll, List.foldl_cons, put_program, first, insert_insert]
        exact ih rest
  cases ps with
  | nil => exact absurd rfl some
  | cons p ps =>
      obtain ⟨first, rest⟩ := List.forall_mem_cons.mp alike
      rw [putAll, List.foldl_cons, put_program, first]
      exact again ps rest

theorem mem_keys_insert (m : Memory) (t : Text) (h : UInt64) :
    h ∈ (m.insert t).entries.keys ↔ h ∈ m.entries.keys ∨ Hash64.hash t = h := by
  rw [← Table.contains_iff, ← Table.contains_iff, insert, Table.contains_insert, Bool.or_eq_true,
    decide_eq_true_eq, or_comm, eq_comm (a := h)]

/-- A store has just the hashes of what was put in besides those it had. -/
theorem mem_keys_putAll (m : Memory) (ps : List Program) (h : UInt64) :
    h ∈ (m.putAll ps).entries.keys ↔
      h ∈ m.entries.keys ∨ h ∈ ps.map fun p => Hash64.hash p.encode := by
  induction ps generalizing m with
  | nil => simp [putAll]
  | cons p ps ih =>
      rw [putAll, List.foldl_cons, put_program]
      refine (ih (m.insert p.encode)).trans ?_
      rw [mem_keys_insert, or_assoc, List.map_cons, List.mem_cons, eq_comm (a := h)]

/-- There are as many entries in a store as different hashes were put in. -/
theorem size_putAll (ps : List Program) :
    (putAll {} ps).size = (ps.map fun p => Hash64.hash p.encode).dedup.length := by
  have perm : (putAll {} ps).entries.keys.Perm (ps.map fun p => Hash64.hash p.encode).dedup := by
    refine (List.perm_ext_iff_of_nodup (putAll {} ps).entries.nodup (List.nodup_dedup _)).mpr ?_
    intro h
    rw [List.mem_dedup]
    exact (mem_keys_putAll {} ps h).trans (or_iff_right List.not_mem_nil)
  rw [← perm.length_eq, Table.keys, List.length_map]
  rfl

end Store.Memory

namespace Program

open Store

/-- For programs that hold the same, sorting their routines by name gives one list, in whatever
order they are found, and with it one record. So their bytes are the same, and a store answers with
the same hash and is the same after either. Any number of them are one entry of a store. Of any
programs, a store has one entry for each of their hashes, in whatever order they are put in and
however often. -/
theorem stored_alike {p q : Program} (same : p.SameAs q) :
    (∀ es rs es' rs', p.Enumerates es → SortsByName es rs →
        q.Enumerates es' → SortsByName es' rs' →
        rs = rs' ∧ p.recordWith rs = Wire.ofProgram p ∧ q.recordWith rs' = Wire.ofProgram p) ∧
      p.encode = q.encode ∧
      (∀ m : Memory, m.put (.program p) = m.put (.program q)) ∧
      (∀ ps : List Program, ps ≠ [] → (∀ r ∈ ps, p.SameAs r) →
        (∀ m : Memory, m.putAll ps = m.insert p.encode) ∧ (Memory.putAll {} ps).size = 1) ∧
      ∀ ps : List Program,
        (Memory.putAll {} ps).size = (ps.map fun r => Hash64.hash r.encode).dedup.length := by
  refine ⟨?_, same.encode_eq, ?_, ?_, Memory.size_putAll⟩
  · intro es rs es' rs' enumerates sorts enumerates' sorts'
    have sorted : rs = p.sortedRoutines := (SameAs.refl p).sorted_eq enumerates sorts
    have sorted' : rs' = p.sortedRoutines := same.symm.sorted_eq enumerates' sorts'
    exact ⟨sorted.trans sorted'.symm, (SameAs.refl p).record_eq enumerates sorts,
      same.symm.record_eq enumerates' sorts'⟩
  · intro m
    rw [Memory.put_program, Memory.put_program, same.encode_eq]
  · intro ps some alike
    have bytes : ∀ r ∈ ps, r.encode = p.encode := fun r member => (alike r member).encode_eq.symm
    refine ⟨Memory.putAll_alike some bytes, ?_⟩
    rw [Memory.putAll_alike some bytes]
    rfl

/-- Two routines, entered in ascending order. -/
def ascendingNames : Program :=
  { name := "p", code := [⟨.nop, none, none⟩, ⟨.nop, none, none⟩]
    routines := Table.ofList [("a", 0), ("b", 1)] }

/-- The same routines, entered in descending order. -/
def descendingNames : Program :=
  { name := "p", code := [⟨.nop, none, none⟩, ⟨.nop, none, none⟩]
    routines := Table.ofList [("b", 1), ("a", 0)] }

theorem names_stored_alike : ascendingNames.SameAs descendingNames ∧
    ascendingNames.routines.entries ≠ descendingNames.routines.entries ∧
    ascendingNames.encode = descendingNames.encode ∧
    (Store.Memory.putAll {} [ascendingNames, descendingNames, ascendingNames]).size = 1 := by
  have same : ascendingNames.SameAs descendingNames := by
    refine ⟨rfl, rfl, fun n => Option.ext fun entry => ?_⟩
    have entries : (Table.ofList ascendingNames.routines.entries).get? n = some entry ↔
        (Table.ofList descendingNames.routines.entries).get? n = some entry := by
      rw [Table.get?_ofList (by decide), Table.get?_ofList (by decide)]
      exact (List.Perm.swap _ _ []).mem_iff
    exact entries
  obtain ⟨-, encode, -, single, -⟩ := stored_alike same
  refine ⟨same, by decide, encode, (single _ (by simp) ?_).2⟩
  simp only [List.forall_mem_cons]
  exact ⟨.refl _, same, .refl _, by simp⟩

end Program

end Lightboard
