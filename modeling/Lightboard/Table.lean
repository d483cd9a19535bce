import Lightboard.Text.Basic

/-!
# Tables

A table maps keys to values. It is a list of entries in the order in which their keys were first
written; writing to a key that is there changes its entry in place, so no key has two entries. What a
table holds is seen through `get?`, and the lemmas say what each operation does to that view.
-/

namespace Lightboard

/-- Entries under keys, in the order the keys were first written, one for each key. -/
structure Table (κ : Type) (ν : Type) where
  entries : List (κ × ν) := []
  nodup : (entries.map Prod.fst).Nodup := by exact List.nodup_nil
  deriving Repr

namespace Table

variable {κ ν : Type} [DecidableEq κ]

/-- The table without entries. -/
def empty : Table κ ν := {}

/-- The value in a list of entries. -/
def lookup (k : κ) : List (κ × ν) → Option ν
  | [] => none
  | (k', v) :: rest => if k' = k then some v else lookup k rest

/-- The list of entries after writing `v` under `k`. -/
def put (k : κ) (v : ν) : List (κ × ν) → List (κ × ν)
  | [] => [(k, v)]
  | (k', v') :: rest => if k' = k then (k', v) :: rest else (k', v') :: put k v rest

/-- A write adds its key at the end, unless it is there already. -/
theorem map_fst_put (k : κ) (v : ν) (es : List (κ × ν)) :
    (put k v es).map Prod.fst =
      if k ∈ es.map Prod.fst then es.map Prod.fst else es.map Prod.fst ++ [k] := by
  induction es with
  | nil => simp [put]
  | cons e rest ih =>
    obtain ⟨j, w⟩ := e
    by_cases h : j = k
    · simp [put, h]
    · have seen : k ∈ j :: rest.map Prod.fst ↔ k ∈ rest.map Prod.fst := by
        simp [Ne.symm h]
      simp only [put, if_neg h, List.map_cons, ih, seen]
      split <;> rfl

theorem nodup_put (k : κ) (v : ν) {es : List (κ × ν)} (h : (es.map Prod.fst).Nodup) :
    ((put k v es).map Prod.fst).Nodup := by
  rw [map_fst_put]
  split
  · exact h
  · next absent =>
    rw [List.nodup_append]
    refine ⟨h, by simp, ?_⟩
    rintro a ha b hb rfl
    exact absent (List.mem_singleton.1 hb ▸ ha)

def get? (t : Table κ ν) (k : κ) : Option ν := lookup k t.entries

def contains (t : Table κ ν) (k : κ) : Bool := (t.get? k).isSome

def insert (t : Table κ ν) (k : κ) (v : ν) : Table κ ν := ⟨put k v t.entries, nodup_put k v t.nodup⟩

def keys (t : Table κ ν) : List κ := t.entries.map Prod.fst

def size (t : Table κ ν) : Nat := t.entries.length

/-- The table without the entry under `k`. -/
def erase (t : Table κ ν) (k : κ) : Table κ ν :=
  ⟨t.entries.filter fun e => decide (e.1 ≠ k), t.nodup.sublist (List.filter_sublist.map _)⟩

/-- The table a list of entries builds, a later entry winning over an earlier one of the same key. -/
def ofList (es : List (κ × ν)) : Table κ ν := es.foldl (fun t e => t.insert e.1 e.2) empty

theorem lookup_put (k k' : κ) (v : ν) (es : List (κ × ν)) :
    lookup k' (put k v es) = if k' = k then some v else lookup k' es := by
  induction es with
  | nil => simp [put, lookup, eq_comm]
  | cons e rest ih =>
    obtain ⟨j, w⟩ := e
    by_cases h : j = k
    · subst h
      by_cases h' : k' = j
      · simp [put, lookup, h']
      · simp [put, lookup, h', Ne.symm h']
    · by_cases h' : j = k'
      · subst h'
        simp [put, lookup, h]
      · simp [put, lookup, h, h', ih]

/-- A write is seen under its own key and nowhere else. -/
@[simp] theorem get?_insert (t : Table κ ν) (k k' : κ) (v : ν) :
    (t.insert k v).get? k' = if k' = k then some v else t.get? k' :=
  lookup_put k k' v t.entries

@[simp] theorem get?_empty (k : κ) : (empty : Table κ ν).get? k = none := rfl

theorem lookup_filter (k k' : κ) (es : List (κ × ν)) :
    lookup k' (es.filter fun e => decide (e.1 ≠ k)) = if k' = k then none else lookup k' es := by
  induction es with
  | nil => simp [lookup]
  | cons e rest ih =>
    obtain ⟨j, w⟩ := e
    by_cases h : j = k
    · rw [List.filter_cons_of_neg (by simp [h]), ih]
      by_cases h' : k' = k
      · simp [h']
      · simp [lookup, h, h', Ne.symm h']
    · rw [List.filter_cons_of_pos (by simp [h])]
      by_cases h' : j = k'
      · subst h'
        simp [lookup, h]
      · simp only [lookup, if_neg h', ih]

/-- An erased key is not seen any more, and all others are. -/
@[simp] theorem get?_erase (t : Table κ ν) (k k' : κ) :
    (t.erase k).get? k' = if k' = k then none else t.get? k' :=
  lookup_filter k k' t.entries

theorem contains_insert (t : Table κ ν) (k k' : κ) (v : ν) :
    (t.insert k v).contains k' = (decide (k' = k) || t.contains k') := by
  by_cases h : k' = k <;> simp [contains, h]

theorem lookup_isSome_iff (k : κ) (es : List (κ × ν)) :
    (lookup k es).isSome ↔ k ∈ es.map Prod.fst := by
  induction es with
  | nil => simp [lookup]
  | cons e rest ih =>
    obtain ⟨j, w⟩ := e
    by_cases h : j = k
    · simp [lookup, h]
    · simp [lookup, h, ih, Ne.symm h]

theorem contains_iff (t : Table κ ν) (k : κ) : t.contains k ↔ k ∈ t.keys :=
  lookup_isSome_iff k t.entries

theorem lookup_eq_some_iff {k : κ} {v : ν} {es : List (κ × ν)} (nodup : (es.map Prod.fst).Nodup) :
    lookup k es = some v ↔ (k, v) ∈ es := by
  induction es with
  | nil => simp [lookup]
  | cons e rest ih =>
    obtain ⟨j, w⟩ := e
    rw [List.map_cons, List.nodup_cons] at nodup
    by_cases h : j = k
    · subst h
      have absent : (j, v) ∉ rest := fun member => nodup.1 (List.mem_map.2 ⟨_, member, rfl⟩)
      simp [lookup, absent, eq_comm]
    · simp [lookup, h, ih nodup.2, Ne.symm h]

/-- What a table holds is what its entries say. -/
theorem get?_eq_some_iff {t : Table κ ν} {k : κ} {v : ν} : t.get? k = some v ↔ (k, v) ∈ t.entries :=
  lookup_eq_some_iff t.nodup

theorem get?_foldl_insert (es : List (κ × ν)) (t : Table κ ν) (k : κ)
    (nodup : (es.map Prod.fst).Nodup) :
    (es.foldl (fun t e => t.insert e.1 e.2) t).get? k = (lookup k es).or (t.get? k) := by
  induction es generalizing t with
  | nil => rfl
  | cons e rest ih =>
    obtain ⟨j, w⟩ := e
    rw [List.map_cons, List.nodup_cons] at nodup
    rw [List.foldl_cons, ih _ nodup.2, get?_insert]
    by_cases h : j = k
    · subst h
      have absent : lookup j rest = none := by
        rw [← Option.not_isSome_iff_eq_none, lookup_isSome_iff]
        exact nodup.1
      simp [lookup, absent]
    · simp [lookup, h, Ne.symm h]

/-- A table built from entries with different keys holds just these. -/
theorem get?_ofList {es : List (κ × ν)} (nodup : (es.map Prod.fst).Nodup) {k : κ} {v : ν} :
    (ofList es).get? k = some v ↔ (k, v) ∈ es := by
  unfold ofList
  rw [get?_foldl_insert es empty k nodup, get?_empty, Option.or_none, lookup_eq_some_iff nodup]

theorem mem_of_get?_foldl_insert {es : List (κ × ν)} {t : Table κ ν} {k : κ} {v : ν}
    (found : (es.foldl (fun t e => t.insert e.1 e.2) t).get? k = some v) :
    (k, v) ∈ es ∨ t.get? k = some v := by
  induction es generalizing t with
  | nil => exact .inr found
  | cons e rest ih =>
    obtain later | now := ih found
    · exact .inl (List.mem_cons_of_mem e later)
    · rw [get?_insert] at now
      split at now
      · next same =>
        obtain ⟨j, w⟩ := e
        cases same
        cases now
        exact .inl (List.mem_cons_self ..)
      · exact .inr now

/-- A table holds nothing but entries of the list it was built from. -/
theorem mem_of_get?_ofList {es : List (κ × ν)} {k : κ} {v : ν} (found : (ofList es).get? k = some v) :
    (k, v) ∈ es :=
  (mem_of_get?_foldl_insert found).resolve_right (by simp)

theorem size_insert_le (t : Table κ ν) (k : κ) (v : ν) : (t.insert k v).size ≤ t.size + 1 := by
  have keys := congrArg List.length (map_fst_put k v t.entries)
  simp only [List.length_map] at keys
  simp only [insert, size, keys]
  split <;> simp

theorem size_foldl_insert_le (es : List (κ × ν)) (t : Table κ ν) :
    (es.foldl (fun t e => t.insert e.1 e.2) t).size ≤ t.size + es.length := by
  induction es generalizing t with
  | nil => simp
  | cons e rest ih =>
    have one := t.size_insert_le e.1 e.2
    have more := ih (t.insert e.1 e.2)
    simp only [List.foldl_cons, List.length_cons]
    omega

theorem size_ofList_le (es : List (κ × ν)) : (ofList es).size ≤ es.length := by
  have bound := size_foldl_insert_le es (empty : Table κ ν)
  rwa [show (empty : Table κ ν).size = 0 from rfl, Nat.zero_add] at bound

end Table

end Lightboard
