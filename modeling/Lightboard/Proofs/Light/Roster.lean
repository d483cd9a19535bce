import Lightboard.Code.Tag
import Lightboard.Light.Basic
import Lightboard.Proofs.Text.Order

/-!
# Which lights there are

A set of lights comes about by adding lights one after the other, each under a group and a location.
`IsNamed` says which names of a kind there are then, and `LightSet.listed` lists them in ascending
order; `mem_listed_iff` shows that the two agree.

Commands change the colors and the power of lights, but neither their names nor the number of their
zones. Two sets that differ in no more than that are `SameBuild`, and they list the same names.
-/

namespace Lightboard

/-- A light that is added to a set, with the group and the location that it is filed under. No light
has more zones than there can be. -/
structure Filing where
  light : Light
  group : Text
  location : Text
  fits : (light.zoneCount : Int) ≤ Light.mostZones

/-- The light that was added last under a name. -/
def lastAdded (fs : List Filing) (name : Text) : Option Light :=
  (fs.reverse.find? (·.light.name == name)).map Filing.light

/-- The names of a kind among lights that were added: all lights, those whose latest light has zones,
and the groups and locations, of which the empty one is none. -/
def IsNamed (fs : List Filing) : Operand → Text → Prop
  | .all, n => ∃ f ∈ fs, f.light.name = n
  | .light, n => ∃ f ∈ fs, f.light.name = n
  | .mzLight, n => ∃ l, lastAdded fs n = some l ∧ l.isMultizone = true
  | .group, n => n ≠ [] ∧ ∃ f ∈ fs, f.group = n
  | .location, n => n ≠ [] ∧ ∃ f ∈ fs, f.location = n
  | .unnamed _, _ => False

theorem lastAdded_cons (f : Filing) (fs : List Filing) (n : Text) :
    lastAdded (f :: fs) n =
      (lastAdded fs n).or (if n = f.light.name then some f.light else none) := by
  unfold lastAdded
  rw [List.reverse_cons, List.find?_append, Option.map_or]
  by_cases same : n = f.light.name
  · simp [same]
  · simp [same, Ne.symm same]

theorem lastAdded_name {fs : List Filing} {n : Text} {l : Light} (h : lastAdded fs n = some l) :
    l.name = n := by
  obtain ⟨f, found, rfl⟩ := Option.map_eq_some_iff.mp h
  simpa using List.find?_some found

theorem mem_of_lastAdded {fs : List Filing} {n : Text} {l : Light} (h : lastAdded fs n = some l) :
    ∃ f ∈ fs, f.light = l := by
  obtain ⟨f, found, same⟩ := Option.map_eq_some_iff.mp h
  exact ⟨f, List.mem_reverse.mp (List.mem_of_find?_eq_some found), same⟩

theorem lastAdded_isSome_iff (fs : List Filing) (n : Text) :
    (lastAdded fs n).isSome ↔ ∃ f ∈ fs, f.light.name = n := by
  simp [lastAdded]

namespace LightSet

/-- The set after lights were added one after the other. -/
def ofFilings (fs : List Filing) : LightSet :=
  fs.foldl (fun s f => s.add f.light f.group f.location) {}

theorem get?_foldl_add (fs : List Filing) (s : LightSet) (n : Text) :
    (fs.foldl (fun s f => s.add f.light f.group f.location) s).get? n =
      (lastAdded fs n).or (s.get? n) := by
  induction fs generalizing s with
  | nil => rfl
  | cons f fs ih =>
      have added : (s.add f.light f.group f.location).get? n =
          if n = f.light.name then some f.light else s.get? n := Table.get?_insert _ _ _ _
      rw [List.foldl_cons, ih, added, lastAdded_cons, Option.or_assoc]
      split <;> simp

/-- Under each name is the light that was added last. -/
theorem get?_ofFilings (fs : List Filing) (n : Text) : (ofFilings fs).get? n = lastAdded fs n := by
  rw [ofFilings, get?_foldl_add]
  exact Option.or_none

theorem contains_enlist (t : Table Text (List Text)) (key name g : Text) :
    (enlist t key name).contains g = true ↔ t.contains g = true ∨ (g ≠ [] ∧ key = g) := by
  simp only [enlist]
  split
  · next skipped =>
    constructor
    · exact .inl
    · rintro (there | ⟨named, rfl⟩)
      · exact there
      · obtain empty | member := skipped
        · exact absurd (List.isEmpty_iff.mp empty) named
        · -- A group that has a member is there.
          cases held : t.get? key with
          | none => simp [held] at member
          | some members => simp [Table.contains, held]
  · next filed =>
    have named : key ≠ [] := fun empty => filed (.inl (List.isEmpty_iff.mpr empty))
    rw [Table.contains_insert, Bool.or_eq_true, decide_eq_true_iff]
    constructor
    · rintro (rfl | there)
      · exact .inr ⟨named, rfl⟩
      · exact .inl there
    · rintro (there | ⟨-, rfl⟩)
      · exact .inr there
      · exact .inl rfl

/-- Groups and locations are filed in the same way, under the key that `part` takes from a filing. -/
theorem contains_foldl_enlist (part : Filing → Text) (fs : List Filing)
    (t : Table Text (List Text)) (g : Text) :
    (fs.foldl (fun t f => enlist t (part f) f.light.name) t).contains g = true ↔
      t.contains g = true ∨ (g ≠ [] ∧ ∃ f ∈ fs, part f = g) := by
  induction fs generalizing t with
  | nil => simp
  | cons f fs ih =>
      rw [List.foldl_cons, ih, contains_enlist, or_assoc, ← and_or_left]
      simp only [List.mem_cons, exists_eq_or_imp]

theorem tables_ofFilings (fs : List Filing) :
    (ofFilings fs).groups = fs.foldl (fun t f => enlist t f.group f.light.name) {} ∧
      (ofFilings fs).locations = fs.foldl (fun t f => enlist t f.location f.light.name) {} := by
  have fold : ∀ s : LightSet,
      (fs.foldl (fun s f => s.add f.light f.group f.location) s).groups =
          fs.foldl (fun t f => enlist t f.group f.light.name) s.groups ∧
        (fs.foldl (fun s f => s.add f.light f.group f.location) s).locations =
          fs.foldl (fun t f => enlist t f.location f.light.name) s.locations := by
    induction fs with
    | nil => exact fun s => ⟨rfl, rfl⟩
    | cons f fs ih => exact fun s => ih (s.add f.light f.group f.location)
  exact fold {}

/-- The names of a kind, in ascending order. -/
def listed (s : LightSet) : Operand → List Text
  | .all => s.names
  | .light => s.names
  | .mzLight => s.names.filter fun n => (s.get? n).any Light.isMultizone
  | .group => s.groupNames
  | .location => s.locationNames
  | .unnamed _ => []

theorem names_strict (s : LightSet) : s.names.Pairwise (· < ·) := Text.sorted_strict s.lights.nodup

theorem listed_strict (s : LightSet) (kind : Operand) : (s.listed kind).Pairwise (· < ·) := by
  cases kind with
  | all => exact s.names_strict
  | light => exact s.names_strict
  | group => exact Text.sorted_strict s.groups.nodup
  | location => exact Text.sorted_strict s.locations.nodup
  | mzLight => exact s.names_strict.sublist List.filter_sublist
  | unnamed => exact .nil

theorem mem_sorted_keys {ν : Type} (t : Table Text ν) (n : Text) :
    n ∈ Text.sorted t.keys ↔ t.contains n = true := by
  rw [(Text.perm_sorted _).mem_iff, ← Table.contains_iff]

theorem mem_names_iff (fs : List Filing) (n : Text) :
    n ∈ (ofFilings fs).names ↔ ∃ f ∈ fs, f.light.name = n := by
  rw [names, mem_sorted_keys, ← lastAdded_isSome_iff, ← get?_ofFilings]
  rfl

/-- The names of a kind are listed, and nothing else is. -/
theorem mem_listed_iff (fs : List Filing) (kind : Operand) (n : Text) :
    n ∈ (ofFilings fs).listed kind ↔ IsNamed fs kind n := by
  cases kind with
  | all => exact mem_names_iff fs n
  | light => exact mem_names_iff fs n
  | group =>
      rw [listed, groupNames, mem_sorted_keys, (tables_ofFilings fs).1,
        contains_foldl_enlist Filing.group]
      simp [IsNamed, Table.contains, Table.get?, Table.lookup]
  | location =>
      rw [listed, locationNames, mem_sorted_keys, (tables_ofFilings fs).2,
        contains_foldl_enlist Filing.location]
      simp [IsNamed, Table.contains, Table.get?, Table.lookup]
  | mzLight =>
      rw [listed, List.mem_filter, mem_names_iff, ← lastAdded_isSome_iff, get?_ofFilings]
      simp only [IsNamed]
      cases lastAdded fs n with
      | none => simp
      | some l => simp
  | unnamed => simp [listed, IsNamed]

end LightSet

/-- What no command changes of a light: its name and the number of its zones. -/
def Light.build (l : Light) : Text × Nat := (l.name, l.zoneCount)

theorem Light.build_setColor (l : Light) (c : Color) : (l.setColor c).build = l.build := by
  simp [build, setColor, zoneCount]

theorem Light.build_setZones {l l' : Light} {first last : Int} {c : Color}
    (h : l.setZones first last c = .ok l') : l'.build = l.build := by
  unfold setZones at h
  split at h
  · cases h
  · obtain rfl := Except.ok.inj h
    simp [build, zoneCount]

theorem Light.isMultizone_iff (l : Light) : l.isMultizone = true ↔ l.zoneCount ≠ 0 := by
  simp [isMultizone, zoneCount]

namespace LightSet

variable {s t u : LightSet}

/-- The sets have the same lights in the same groups and locations, up to what commands change. -/
structure SameBuild (s t : LightSet) : Prop where
  keys : t.lights.keys = s.lights.keys
  groups : t.groups = s.groups
  locations : t.locations = s.locations
  builds : ∀ n, (t.get? n).map Light.build = (s.get? n).map Light.build

theorem SameBuild.refl (s : LightSet) : s.SameBuild s := ⟨rfl, rfl, rfl, fun _ => rfl⟩

theorem SameBuild.trans (h : s.SameBuild t) (h' : t.SameBuild u) : s.SameBuild u :=
  ⟨h'.keys.trans h.keys, h'.groups.trans h.groups, h'.locations.trans h.locations,
    fun n => (h'.builds n).trans (h.builds n)⟩

theorem sameBuild_modify {n : Text} {f : Light → Light}
    (same : ∀ l, s.get? n = some l → (f l).build = l.build) : s.SameBuild (s.modify n f) := by
  unfold modify
  split
  · next l held =>
    have there : n ∈ s.lights.entries.map Prod.fst :=
      (s.lights.contains_iff n).mp (by rw [Table.contains]; exact Option.isSome_of_mem held)
    refine ⟨?_, rfl, rfl, ?_⟩
    · exact (Table.map_fst_put n _ _).trans (if_pos there)
    · intro n'
      change ((s.lights.insert n (f l)).get? n').map _ = _
      rw [Table.get?_insert]
      split
      · next h =>
        subst h
        rw [held, Option.map_some, Option.map_some, same l held]
      · rfl
  · exact .refl s

theorem any_isMultizone_eq (o : Option Light) :
    o.any Light.isMultizone = (o.map Light.build).any (·.2 != 0) := by
  cases o with
  | none => rfl
  | some l =>
      rw [Option.any_some, Option.map_some, Option.any_some, Bool.eq_iff_iff, l.isMultizone_iff,
        bne_iff_ne]
      rfl

/-- Sets of the same build list the same names. -/
theorem SameBuild.listed_eq (h : s.SameBuild t) (kind : Operand) : t.listed kind = s.listed kind := by
  have names : t.names = s.names := by rw [LightSet.names, h.keys, LightSet.names]
  cases kind with
  | all => exact names
  | light => exact names
  | group => rw [listed, groupNames, h.groups, listed, groupNames]
  | location => rw [listed, locationNames, h.locations, listed, locationNames]
  | mzLight => simp only [listed, names, any_isMultizone_eq, h.builds]
  | unnamed => rfl

/-- Every light stands under its own name. -/
def IsFiled (s : LightSet) : Prop := ∀ n l, s.get? n = some l → l.name = n

theorem isFiled_ofFilings (fs : List Filing) : (ofFilings fs).IsFiled := by
  intro n l held
  rw [get?_ofFilings] at held
  exact lastAdded_name held

theorem SameBuild.isFiled (h : s.SameBuild t) (filed : s.IsFiled) : t.IsFiled := by
  intro n l held
  have build := h.builds n
  rw [held, Option.map_some, eq_comm, Option.map_eq_some_iff] at build
  obtain ⟨l', held', same⟩ := build
  exact (congrArg Prod.fst same).symm.trans (filed n l' held')

end LightSet

end Lightboard
