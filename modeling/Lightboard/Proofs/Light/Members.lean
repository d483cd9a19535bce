import Lightboard.Proofs.Light.Roster

/-!
# Which lights belong together, and what a color changes of them

A group has the names of the lights that were ever filed under it, each once, and a light of each of
these names is there. `IsAddressed` says which lights a command is for. A color that is given to lights
changes these and no others (`LightSet.get?_foldl_modify`), and of each the color and the zones
(`Light.Painted`), or the zones of a range only (`Light.ZonesPainted`).
-/

namespace Lightboard

/-- The lights that a command with a target is for: all of them, those of a name, or those that were
filed under a group or a location. -/
def IsAddressed (fs : List Filing) (target : Text) : Operand → Text → Prop
  | .all, n => ∃ f ∈ fs, f.light.name = n
  | .light, n => n = target
  | .mzLight, n => n = target
  | .group, n => target ≠ [] ∧ ∃ f ∈ fs, f.group = target ∧ f.light.name = n
  | .location, n => target ≠ [] ∧ ∃ f ∈ fs, f.location = target ∧ f.light.name = n
  | .unnamed _, _ => False

namespace LightSet

/-- The names under a group or a location, of which there are none if it is not there. -/
def members (t : Table Text (List Text)) (g : Text) : List Text := (t.get? g).getD []

theorem mem_enlist {t : Table Text (List Text)} {key name g n : Text} :
    n ∈ members (enlist t key name) g ↔ n ∈ members t g ∨ (g ≠ [] ∧ key = g ∧ name = n) := by
  simp only [enlist]
  split
  · next skipped =>
    refine ⟨.inl, ?_⟩
    rintro (there | ⟨named, rfl, rfl⟩)
    · exact there
    · obtain empty | member := skipped
      · exact absurd (List.isEmpty_iff.mp empty) named
      · exact List.contains_iff_mem.mp member
  · next filed =>
    have named : key ≠ [] := fun empty => filed (.inl (List.isEmpty_iff.mpr empty))
    rw [members, Table.get?_insert]
    by_cases same : g = key
    · subst same
      rw [if_pos rfl, Option.getD_some, List.mem_append, List.mem_singleton]
      simp [members, named, eq_comm]
    · rw [if_neg same]
      simp [members, Ne.symm same]

theorem mem_foldl_enlist (part : Filing → Text) (fs : List Filing) (t : Table Text (List Text))
    (g n : Text) :
    n ∈ members (fs.foldl (fun t f => enlist t (part f) f.light.name) t) g ↔
      n ∈ members t g ∨ (g ≠ [] ∧ ∃ f ∈ fs, part f = g ∧ f.light.name = n) := by
  induction fs generalizing t with
  | nil => simp
  | cons f fs ih =>
      rw [List.foldl_cons, ih, mem_enlist, or_assoc, ← and_or_left]
      simp only [List.mem_cons, exists_eq_or_imp]

/-- What was filed under a group or a location stays under it, also if a light of the same name is added
again elsewhere. -/
theorem mem_members_ofFilings (fs : List Filing) (g n : Text) :
    (n ∈ members (ofFilings fs).groups g ↔ IsAddressed fs g .group n) ∧
      (n ∈ members (ofFilings fs).locations g ↔ IsAddressed fs g .location n) := by
  have none : n ∉ members {} g := List.not_mem_nil
  rw [(tables_ofFilings fs).1, (tables_ofFilings fs).2, mem_foldl_enlist Filing.group,
    mem_foldl_enlist Filing.location]
  exact ⟨or_iff_right none, or_iff_right none⟩

theorem SameBuild.isSome_iff {s t : LightSet} (h : s.SameBuild t) (n : Text) :
    (t.get? n).isSome = (s.get? n).isSome := by
  rw [← Option.isSome_map, h.builds, Option.isSome_map]

/-- A light that belongs to the set in some way is there. -/
theorem SameBuild.isSome_of_filed {fs : List Filing} {s : LightSet} (h : (ofFilings fs).SameBuild s)
    {n : Text} (filed : ∃ f ∈ fs, f.light.name = n) : (s.get? n).isSome := by
  rw [h.isSome_iff, get?_ofFilings, lastAdded_isSome_iff]
  exact filed

theorem get?_modify (s : LightSet) (n m : Text) (f : Light → Light) :
    (s.modify n f).get? m = if m = n then (s.get? m).map f else s.get? m := by
  unfold modify
  split
  · next l held =>
    change (s.lights.insert n (f l)).get? m = _
    rw [Table.get?_insert]
    by_cases same : m = n
    · rw [if_pos same, if_pos same, same, held, Option.map_some]
    · rw [if_neg same, if_neg same]
      rfl
  · next missing =>
    by_cases same : m = n
    · rw [if_pos same, same, missing, Option.map_none]
    · rw [if_neg same]

/-- A light that is changed twice is as if it was changed once, so the names need not be different. -/
theorem get?_foldl_modify {f : Light → Light} (once : ∀ l, f (f l) = f l) (names : List Text)
    (s : LightSet) (m : Text) : (names.foldl (fun s n => s.modify n f) s).get? m =
      if m ∈ names then (s.get? m).map f else s.get? m := by
  induction names generalizing s with
  | nil => simp
  | cons n names ih =>
      rw [List.foldl_cons, ih, get?_modify]
      by_cases same : m = n
      · simp only [same, if_true, List.mem_cons_self, Option.map_map]
        rw [show f ∘ f = f from funext once, ite_self]
      · simp only [same, if_false, List.mem_cons, false_or]

end LightSet

namespace Light

/-- The light after it took a color, and its zones with it. -/
structure Painted (c : Color) (l l' : Light) : Prop where
  name : l'.name = l.name
  power : l'.power = l.power
  color : l'.color = c
  zones : l'.zones = List.replicate l.zoneCount c

/-- The light after the zones of a range took a color. -/
structure ZonesPainted (c : Color) (first last : Int) (l l' : Light) : Prop where
  name : l'.name = l.name
  power : l'.power = l.power
  color : l'.color = l.color
  zoneCount : l'.zoneCount = l.zoneCount
  within : ∀ i < l.zoneCount, first ≤ i → i ≤ last → l'.zones[i]? = some c
  outside : ∀ i : Nat, ¬ (first ≤ i ∧ i ≤ last) → l'.zones[i]? = l.zones[i]?

/-- The range lies within the light, which then is multi-zone. -/
def HasZones (l : Light) (first last : Int) : Prop := 0 ≤ first ∧ first ≤ last ∧ last < l.zoneCount

instance (l : Light) (first last : Int) : Decidable (l.HasZones first last) :=
  inferInstanceAs (Decidable (_ ∧ _ ∧ _))

theorem painted_setColor (l : Light) (c : Color) : l.Painted c (l.setColor c) where
  name := rfl
  power := rfl
  color := rfl
  zones := List.map_const' ..

theorem setColor_setColor (l : Light) (c : Color) : (l.setColor c).setColor c = l.setColor c := by
  simp [setColor]

theorem checkZones_eq_ok_iff (l : Light) (first last : Int) :
    l.checkZones first last = .ok () ↔ l.HasZones first last := by
  have multizone := l.isMultizone_iff
  unfold checkZones HasZones
  cases zoned : l.isMultizone with
  | false =>
      have none : l.zoneCount = 0 := by simpa [zoned] using multizone
      refine iff_of_false nofun ?_
      omega
  | true =>
      simp only [Bool.not_true, Bool.false_eq_true, if_false]
      split
      · next bad => exact iff_of_false nofun (by omega)
      · next good => exact iff_of_true rfl (by omega)

/-- A range of zones takes a color if it lies within the light. -/
theorem setZones_of_hasZones {l : Light} {first last : Int} (range : l.HasZones first last)
    (c : Color) : ∃ l', l.setZones first last c = .ok l' ∧ l.ZonesPainted c first last l' := by
  simp only [setZones, (checkZones_eq_ok_iff l first last).mpr range]
  refine ⟨_, rfl, rfl, rfl, rfl, List.length_mapIdx, ?_, ?_⟩
  · intro i below low high
    have there : i < l.zones.length := below
    simp [there, low, high]
  · intro i out
    rw [List.getElem?_mapIdx]
    simp only [if_neg out, Option.map_id']

theorem setZones_of_not_hasZones {l : Light} {first last : Int} (range : ¬ l.HasZones first last)
    (c : Color) : ∃ e, l.setZones first last c = .error e := by
  unfold setZones
  cases checked : l.checkZones first last with
  | error e => exact ⟨e, rfl⟩
  | ok u => exact absurd ((checkZones_eq_ok_iff l first last).mp checked) range

end Light

end Lightboard
