import Lightboard.Config
import Lightboard.Proofs.Light.Roster
import Lightboard.Proofs.Text.LetterCase

/-!
# The lights that a configuration describes

A configuration is accepted just if its unit mode is one that there is and its lights have different
names. Adding lights of different names one after the other files every one of them where its
description says: `LightSet.get?_foldl_enlist` follows a group while it grows, and
`Config.builds_described` says that the set of an accepted configuration has the lights of the
configuration, and no others, in the groups and locations of the configuration. There has to be room for
all zones: a number of zones past `Light.mostZones` is accepted, but no light is made of it.
-/

namespace Lightboard

namespace LightSet

variable {α : Type}

/-- The names of the entries with this group or location, in the order of the entries. -/
def filed (part name : α → Text) (entries : List α) (g : Text) : List Text :=
  (entries.filter fun a => part a = g).map name

theorem filed_concat (part name : α → Text) (entries : List α) (a : α) (g : Text) :
    filed part name (entries ++ [a]) g =
      filed part name entries g ++ if part a = g then [name a] else [] := by
  unfold filed
  rw [List.filter_append, List.map_append]
  by_cases same : part a = g <;> simp [same]

theorem filed_eq_nil {part name : α → Text} {entries : List α} {g : Text}
    (none : ¬ ∃ a ∈ entries, part a = g) : filed part name entries g = [] := by
  unfold filed
  rw [List.map_eq_nil_iff, List.filter_eq_nil_iff]
  intro a listed
  simpa using fun same => none ⟨a, listed, same⟩

/-- If all names differ, a group has just the names of the entries that were filed under it, in
their order. An entry without a group is filed nowhere. -/
theorem get?_foldl_enlist (part name : α → Text) {entries : List α}
    (distinct : (entries.map name).Nodup) (g : Text) :
    (entries.foldl (fun t a => enlist t (part a) (name a)) {}).get? g =
      if g ≠ [] ∧ ∃ a ∈ entries, part a = g then some (filed part name entries g) else none := by
  induction entries using List.reverseRecOn generalizing g with
  | nil => simp [Table.get?, Table.lookup]
  | append_singleton entries a ih =>
      rw [List.map_append, List.map_singleton, List.nodup_append] at distinct
      obtain ⟨before, -, apart⟩ := distinct
      have fresh : name a ∉ entries.map name := fun seen =>
        apart _ seen _ (List.mem_singleton_self _) rfl
      rw [List.foldl_append, List.foldl_cons, List.foldl_nil]
      generalize entries.foldl (fun t a => enlist t (part a) (name a)) {} = t at ih
      have entered : (∃ b ∈ entries ++ [a], part b = g) ↔
          (∃ b ∈ entries, part b = g) ∨ part a = g := by simp [or_and_right, exists_or]
      simp only [entered, filed_concat]
      by_cases ungrouped : part a = []
      · -- Nothing is filed, and nothing is asked for under the empty name.
        have skipped : enlist t (part a) (name a) = t := by simp [enlist, ungrouped]
        rw [skipped, ih before]
        by_cases empty : g = []
        · simp [empty]
        · have other : part a ≠ g := ungrouped ▸ Ne.symm empty
          simp [other]
      · have members : (t.get? (part a)).getD [] = filed part name entries (part a) := by
          rw [ih before]
          split
          · rfl
          · next none => exact (filed_eq_nil fun some => none ⟨ungrouped, some⟩).symm
        have absent : name a ∉ filed part name entries (part a) := by
          intro listed
          obtain ⟨b, among, same⟩ := List.mem_map.mp listed
          exact fresh (List.mem_map.mpr ⟨b, (List.mem_filter.mp among).1, same⟩)
        have added : enlist t (part a) (name a) =
            t.insert (part a) (filed part name entries (part a) ++ [name a]) := by
          simp [enlist, members, ungrouped, absent]
        rw [added, Table.get?_insert, ih before]
        by_cases same : part a = g
        · subst same
          simp [ungrouped]
        · simp [same, Ne.symm same]

end LightSet

namespace Config

variable {c : Config}

theorem checkLights_eq_ok_iff (seen : List Text) (index : Nat) (ls : List LightSpec) :
    checkLights seen index ls = .ok () ↔
      (∀ l ∈ ls, l.name ≠ [] ∧ 0 ≤ l.zones ∧ l.name ∉ seen) ∧
        ls.Pairwise fun l l' => l.name ≠ l'.name := by
  induction ls generalizing seen index with
  | nil => simp [checkLights]
  | cons l ls ih =>
      rw [checkLights, List.forall_mem_cons, List.pairwise_cons]
      by_cases unnamed : l.name = []
      · simp [unnamed]
      by_cases known : l.name ∈ seen
      · simp [known, unnamed]
      by_cases negative : l.zones < 0
      · simp [known, unnamed, negative]
      have zones : 0 ≤ l.zones := by omega
      simp only [List.isEmpty_iff, unnamed, List.contains_iff_mem, known, negative, if_false, ih,
        List.mem_cons, not_or, zones, ne_eq, not_false_eq_true, true_and]
      constructor
      · rintro ⟨rest, distinct⟩
        exact ⟨fun l' later => ⟨(rest l' later).1, (rest l' later).2.1, (rest l' later).2.2.2⟩,
          fun l' later => Ne.symm (rest l' later).2.2.1, distinct⟩
      · rintro ⟨rest, first, distinct⟩
        exact ⟨fun l' later => ⟨(rest l' later).1, (rest l' later).2.1, Ne.symm (first l' later),
          (rest l' later).2.2⟩, distinct⟩

theorem ofName?_isSome_iff {up : Char → Char} (upper : IsUpperCase up) (t : Text) :
    (UnitMode.ofName? t).isSome ↔ t.mapChars up ∈ (["LOGICAL", "RAW", "RGB"] : List Text) := by
  have small : ∀ name ∈ (["LOGICAL", "RAW", "RGB"] : List Text), name.IsAscii := by decide
  have found (name : Text) (there : name ∈ (["LOGICAL", "RAW", "RGB"] : List Text)) :
      t.upper = name ↔ t.mapChars up = name := Text.upper_eq_iff upper (small name there) t
  rw [UnitMode.ofName?, List.find?_isSome]
  simp only [UnitMode.named, List.mem_cons, List.not_mem_nil, or_false, exists_eq_or_imp,
    exists_eq_left, beq_iff_eq, UnitMode.label, @eq_comm _ _ t.upper]
  rw [found _ (by simp), found _ (by simp), found _ (by simp)]

theorem validate_eq_ok_iff {up : Char → Char} (upper : IsUpperCase up) (c : Config) :
    c.validate = .ok () ↔
      (c.unitMode = [] ∨ c.unitMode.mapChars up ∈ (["LOGICAL", "RAW", "RGB"] : List Text)) ∧
        (∀ l ∈ c.lights, l.name ≠ [] ∧ 0 ≤ l.zones) ∧
        c.lights.Pairwise fun l l' => l.name ≠ l'.name := by
  have checked := checkLights_eq_ok_iff [] 0 c.lights
  simp only [List.not_mem_nil, not_false_eq_true, and_true] at checked
  rw [← checked, ← ofName?_isSome_iff upper, validate]
  by_cases none : c.unitMode = []
  · simp [none]
  · cases UnitMode.ofName? c.unitMode <;> simp [none]

/-- The lights that are described, whether or not there is room for them. -/
def described (c : Config) : LightSet :=
  c.lights.foldl (fun s l => s.add (Light.create l.name l.zones) l.group l.location) {}

/-- The described lights are made, unless one of them has more zones than there can be. -/
theorem buildLights_eq (c : Config) :
    c.buildLights =
      if ∃ l ∈ c.lights, Light.mostZones < l.zones then .error .tooManyZones
      else .ok c.described := by
  unfold buildLights described
  generalize ({} : LightSet) = s
  induction c.lights generalizing s with
  | nil => simp [pure, Except.pure]
  | cons l ls ih =>
      rw [List.foldlM_cons, List.foldl_cons, Light.make]
      by_cases many : Light.mostZones < l.zones
      · rw [if_pos many, if_pos ⟨l, List.mem_cons_self, many⟩]
        rfl
      · have rest : (∃ l' ∈ l :: ls, Light.mostZones < l'.zones) ↔
            ∃ l' ∈ ls, Light.mostZones < l'.zones := by simp [many]
        rw [if_neg many]
        simp only [rest]
        exact ih _

/-- Lights, groups and locations are filed apart from each other. -/
theorem tables_described (c : Config) :
    c.described.lights =
        Table.ofList (c.lights.map fun l => (l.name, Light.create l.name l.zones)) ∧
      c.described.groups =
        c.lights.foldl (fun t l => LightSet.enlist t l.group l.name) {} ∧
      c.described.locations =
        c.lights.foldl (fun t l => LightSet.enlist t l.location l.name) {} := by
  have fold (ls : List LightSpec) (s : LightSet) :
      let s' := ls.foldl (fun s l => s.add (Light.create l.name l.zones) l.group l.location) s
      s'.lights = ls.foldl (fun t l => t.insert l.name (Light.create l.name l.zones)) s.lights ∧
        s'.groups = ls.foldl (fun t l => LightSet.enlist t l.group l.name) s.groups ∧
        s'.locations = ls.foldl (fun t l => LightSet.enlist t l.location l.name) s.locations := by
    induction ls generalizing s with
    | nil => exact ⟨rfl, rfl, rfl⟩
    | cons l ls ih => exact ih (s.add (Light.create l.name l.zones) l.group l.location)
  rw [Table.ofList, List.foldl_map]
  exact fold c.lights {}

theorem get?_described (distinct : (c.lights.map LightSpec.name).Nodup) {n : Text}
    {light : Light} : c.described.get? n = some light ↔
      ∃ l ∈ c.lights, l.name = n ∧ Light.create l.name l.zones = light := by
  rw [LightSet.get?, (tables_described c).1, Table.get?_ofList]
  · simp
  · rw [List.map_map]
    exact distinct

/-- Every light is listed by its name, once. -/
theorem names_described (distinct : (c.lights.map LightSpec.name).Nodup) :
    c.described.names.Perm (c.lights.map LightSpec.name) := by
  refine (Text.perm_sorted _).trans
    ((List.perm_ext_iff_of_nodup c.described.lights.nodup distinct).mpr fun n => ?_)
  change n ∈ c.described.lights.keys ↔ _
  rw [← Table.contains_iff, Table.contains, Option.isSome_iff_exists]
  change (∃ light, c.described.get? n = some light) ↔ _
  simp only [get?_described distinct, List.mem_map]
  constructor
  · rintro ⟨-, l, listed, same, -⟩
    exact ⟨l, listed, same⟩
  · rintro ⟨l, listed, same⟩
    exact ⟨_, l, listed, same, rfl⟩

/-- The table has just the groups (or locations) that lights have, and under each of them the names of
the lights that have it, in the order of the configuration. -/
structure Lists (c : Config) (part : LightSpec → Text) (t : Table Text (List Text)) : Prop where
  found : ∀ g, (∃ names, t.get? g = some names) ↔ g ≠ [] ∧ ∃ l ∈ c.lights, part l = g
  members : ∀ g names, t.get? g = some names →
    names = (c.lights.filter fun l => part l = g).map LightSpec.name ∧ names.Nodup

theorem lists_foldl_enlist (distinct : (c.lights.map LightSpec.name).Nodup)
    (part : LightSpec → Text) :
    c.Lists part (c.lights.foldl (fun t l => LightSet.enlist t (part l) l.name) {}) where
  found g := by
    rw [LightSet.get?_foldl_enlist part LightSpec.name distinct]
    split
    · next some => exact iff_of_true ⟨_, rfl⟩ some
    · next none =>
      refine iff_of_false ?_ none
      rintro ⟨names, ⟨⟩⟩
  members g names held := by
    rw [LightSet.get?_foldl_enlist part LightSpec.name distinct] at held
    split at held
    · obtain rfl := Option.some.inj held
      exact ⟨rfl, distinct.sublist (List.filter_sublist.map _)⟩
    · cases held

/-- A configuration is accepted just if its unit mode is empty or one of the three names in upper
case, and each light has a name that no earlier one has and no negative number of zones. If there is
room for the zones of an accepted one, its lights are made, and they are those it describes: their
names are listed in ascending order, each light has as many zones as described and is multi-zone if
that is any, and each group and location that some light has lists the names of the lights that have
it, once each, in the order of the configuration. No lights are made just if one of them has more zones
than there can be. -/
theorem builds_described {up : Char → Char} (upper : IsUpperCase up) (c : Config) :
    (c.validate = .ok () ↔
      (c.unitMode = [] ∨ c.unitMode.mapChars up ∈ (["LOGICAL", "RAW", "RGB"] : List Text)) ∧
        (∀ l ∈ c.lights, l.name ≠ [] ∧ 0 ≤ l.zones) ∧
        c.lights.Pairwise fun l l' => l.name ≠ l'.name) ∧
    (c.validate = .ok () → (∀ l ∈ c.lights, l.zones ≤ Light.mostZones) →
      ∃ s, c.buildLights = .ok s ∧
        s.names.Pairwise (· < ·) ∧
        s.names.Perm (c.lights.map LightSpec.name) ∧
        (∀ l ∈ c.lights, ∃ light, s.get? l.name = some light ∧ light.name = l.name ∧
          light.zoneCount = l.zones ∧ (light.isMultizone = true ↔ 0 < l.zones)) ∧
        c.Lists LightSpec.group s.groups ∧
        c.Lists LightSpec.location s.locations) ∧
    (c.buildLights = .error .tooManyZones ↔ ∃ l ∈ c.lights, Light.mostZones < l.zones) := by
  have made := buildLights_eq c
  refine ⟨validate_eq_ok_iff upper c, fun accepted room => ⟨c.described, ?_⟩, ?_⟩
  · obtain ⟨-, sound, different⟩ := (validate_eq_ok_iff upper c).mp accepted
    have distinct : (c.lights.map LightSpec.name).Nodup := List.pairwise_map.mpr different
    obtain ⟨-, groups, locations⟩ := tables_described c
    have none : ¬ ∃ l ∈ c.lights, Light.mostZones < l.zones := by
      rintro ⟨l, listed, many⟩
      exact absurd (room l listed) (not_le.mpr many)
    rw [if_neg none] at made
    refine ⟨made, LightSet.names_strict _, names_described distinct, fun l listed => ?_, ?_, ?_⟩
    · have zones := (sound l listed).2
      have count : (Light.create l.name l.zones).zoneCount = l.zones.toNat := List.length_replicate
      refine ⟨_, (get?_described distinct).mpr ⟨l, listed, rfl, rfl⟩, rfl, ?_, ?_⟩
      · omega
      · rw [Light.isMultizone_iff, count]
        omega
    · rw [groups]
      exact lists_foldl_enlist distinct LightSpec.group
    · rw [locations]
      exact lists_foldl_enlist distinct LightSpec.location
  · rw [made]
    split
    · next many => exact iff_of_true rfl many
    · next none => exact iff_of_false (by rintro ⟨⟩) none

/-- Three lights with a group or a location in common, in a unit mode with a dotless i. -/
def studio : Config where
  unitMode := "logıcal"
  lights :=
    [{ name := "Strip", group := "desk", zones := 8 },
     { name := "Lamp", group := "desk", location := "north" },
     { name := "Bulb", location := "north" }]

theorem studio_built :
    studio.validate = .ok () ∧
      (∃ s, studio.buildLights = .ok s ∧ s.names.Pairwise (· < ·) ∧
        s.groups.get? "desk" = some (["Strip", "Lamp"] : List Text) ∧
        s.locations.get? "north" = some (["Lamp", "Bulb"] : List Text)) ∧
      { studio with lights := studio.lights ++ studio.lights.take 1 }.validate ≠ .ok () := by
  obtain ⟨accepts, builds, -⟩ := builds_described isUpperCase_capital studio
  have accepted : studio.validate = .ok () :=
    accepts.mpr ⟨.inr (by decide +kernel), by decide +kernel, by decide +kernel⟩
  obtain ⟨s, built, ascending, -, -, groups, locations⟩ := builds accepted (by decide +kernel)
  obtain ⟨desk, held⟩ := (groups.found "desk").mpr ⟨by decide, _, List.mem_cons_self, rfl⟩
  obtain ⟨north, held'⟩ :=
    (locations.found "north").mpr ⟨by decide, _, List.mem_cons_of_mem _ List.mem_cons_self, rfl⟩
  refine ⟨accepted, ⟨s, built, ascending, ?_, ?_⟩, fun doubled => ?_⟩
  · rw [held, (groups.members _ _ held).1]
    decide +kernel
  · rw [held', (locations.members _ _ held').1]
    decide +kernel
  · obtain ⟨-, -, different⟩ := (builds_described isUpperCase_capital _).1.mp doubled
    exact absurd different (by decide +kernel)

/-- A strip with one zone more than there can be. -/
def longStrip : Config where
  lights := [{ name := "Strip", zones := 35184372088833 }]

/-- The number of zones is not checked from above, so a configuration is accepted whose lights cannot be
made. -/
theorem longStrip_accepted_not_built :
    longStrip.validate = .ok () ∧ ∀ s, longStrip.buildLights ≠ .ok s := by
  have broken : longStrip.buildLights = .error .tooManyZones := rfl
  refine ⟨rfl, fun s built => ?_⟩
  rw [broken] at built
  cases built

end Config

end Lightboard
