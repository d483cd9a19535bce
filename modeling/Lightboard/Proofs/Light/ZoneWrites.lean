import Lightboard.Proofs.Light.Members

/-!
# The colors of zones after any calls

A light is called one call after the other, and what each call answered is kept beside it in the
history. One call changes a zone just if it gives a color to the light, or to a range with the zone
in it and is not refused (`perform_zone`). So after any calls a zone has the color that the history
wrote last (`zones_follow_writes`), whatever the ranges in it are.
-/

namespace Lightboard.Light

/-- The calls to a light. -/
inductive Call where
  | setColor (c : Color)
  | setZones (first last : Int) (c : Color)
  | setPower (level : UInt16)
  | getColor
  | getZones (first last : Int)

/-- What a light answers to a call. -/
inductive Answer where
  | done
  | color (c : Color)
  | zones (cs : List Color)
  | refused (e : ZoneError)

/-- Makes a call. -/
def perform (l : Light) : Call → Light × Answer
  | .setColor c => (l.setColor c, .done)
  | .setZones first last c =>
    match l.setZones first last c with
    | .ok l' => (l', .done)
    | .error e => (l, .refused e)
  | .setPower level => (l.setPower level, .done)
  | .getColor => (l, .color l.color)
  | .getZones first last =>
    match l.getZones first last with
    | .ok cs => (l, .zones cs)
    | .error e => (l, .refused e)

/-- A light, and the calls that were made with their answers. -/
abbrev History := Light × List (Call × Answer)

/-- Makes one more call. -/
def History.call (h : History) (call : Call) : History :=
  ((h.1.perform call).1, h.2 ++ [(call, (h.1.perform call).2)])

/-- Makes calls one after the other. -/
def history (l : Light) (calls : List Call) : History := calls.foldl History.call (l, [])

/-- The color that a call gave to a zone, if it did. -/
def zoneWrite? (i : Nat) : Call × Answer → Option Color
  | (.setColor c, _) => some c
  | (.setZones first last c, .done) => if first ≤ i ∧ i ≤ last then some c else none
  | _ => none

/-- The color that a call gave to the whole light, if it did. -/
def colorWrite? : Call × Answer → Option Color
  | (.setColor c, _) => some c
  | _ => none

/-- The color that was written last; the zero color if none was. -/
def latest (write? : Call × Answer → Option Color) (events : List (Call × Answer)) : Color :=
  (events.filterMap write?).getLast?.getD {}

theorem latest_concat (write? : Call × Answer → Option Color) (events : List (Call × Answer))
    (e : Call × Answer) :
    latest write? (events ++ [e]) = (write? e).getD (latest write? events) := by
  unfold latest
  rw [List.filterMap_append]
  cases written : write? e with
  | none => simp [written]
  | some c => simp [written]

theorem perform_setZones (l : Light) (first last : Int) (c : Color) :
    (l.HasZones first last ∧ (l.perform (.setZones first last c)).2 = .done ∧
      l.ZonesPainted c first last (l.perform (.setZones first last c)).1) ∨
    (¬ l.HasZones first last ∧ (l.perform (.setZones first last c)).1 = l ∧
      ∃ e, (l.perform (.setZones first last c)).2 = .refused e) := by
  by_cases range : l.HasZones first last
  · obtain ⟨l', set, painted⟩ := setZones_of_hasZones range c
    have done : l.perform (.setZones first last c) = (l', .done) := by simp only [perform, set]
    rw [done]
    exact .inl ⟨range, rfl, painted⟩
  · obtain ⟨e, refused⟩ := setZones_of_not_hasZones range c
    have kept : l.perform (.setZones first last c) = (l, .refused e) := by
      simp only [perform, refused]
    rw [kept]
    exact .inr ⟨range, rfl, e, rfl⟩

theorem perform_getZones_light (l : Light) (first last : Int) :
    (l.perform (.getZones first last)).1 = l := by
  simp only [perform]
  cases l.getZones first last <;> rfl

/-- A call leaves the number of zones. -/
theorem perform_zoneCount (l : Light) (call : Call) :
    (l.perform call).1.zoneCount = l.zoneCount := by
  cases call with
  | setColor c => exact List.length_map _
  | setZones first last c =>
      obtain ⟨-, -, painted⟩ | ⟨-, same, -⟩ := l.perform_setZones first last c
      · exact painted.zoneCount
      · rw [same]
  | setPower level => rfl
  | getColor => rfl
  | getZones first last => rw [perform_getZones_light]

/-- A zone has the color that a call gave it, or it stays. -/
theorem perform_zone (l : Light) (call : Call) {i : Nat} (there : i < l.zoneCount) :
    (l.perform call).1.zones[i]? = (zoneWrite? i (call, (l.perform call).2)).or l.zones[i]? := by
  cases call with
  | setColor c =>
      have zone : i < l.zones.length := there
      change (l.zones.map fun _ => c)[i]? = some c
      simp [zone]
  | setZones first last c =>
      obtain ⟨-, done, painted⟩ | ⟨-, same, e, refused⟩ := l.perform_setZones first last c
      · rw [done, zoneWrite?]
        split
        · next within => exact painted.within i there within.1 within.2
        · next outside => exact painted.outside i outside
      · rw [refused, same]
        rfl
  | setPower level => rfl
  | getColor => rfl
  | getZones first last =>
      rw [perform_getZones_light]
      rfl

theorem perform_color (l : Light) (call : Call) :
    (l.perform call).1.color = (colorWrite? (call, (l.perform call).2)).getD l.color := by
  cases call with
  | setColor c => rfl
  | setZones first last c =>
      obtain ⟨-, -, painted⟩ | ⟨-, same, -⟩ := l.perform_setZones first last c
      · exact painted.color
      · rw [same]
        rfl
  | setPower level => rfl
  | getColor => rfl
  | getZones first last =>
      rw [perform_getZones_light]
      rfl

/-- A refused call changes nothing. -/
theorem perform_refused {l : Light} {call : Call} {e : ZoneError}
    (refused : (l.perform call).2 = .refused e) : (l.perform call).1 = l := by
  cases call with
  | setZones first last c =>
      obtain ⟨-, done, -⟩ | ⟨-, same, -⟩ := l.perform_setZones first last c
      · rw [done] at refused
        cases refused
      · exact same
  | getZones first last => exact perform_getZones_light l first last
  | _ => cases refused

/-- What the zones of a range are answered with: just the ranges within the light are accepted. -/
theorem perform_getZones (l : Light) (first last : Int) :
    (l.HasZones first last ∧ ∃ cs, (l.perform (.getZones first last)).2 = .zones cs ∧
      (cs.length : Int) = last - first + 1 ∧
        ∀ j : Nat, j < cs.length → cs[j]? = l.zones[first.toNat + j]?) ∨
    (¬ l.HasZones first last ∧ ∃ e, (l.perform (.getZones first last)).2 = .refused e) := by
  by_cases range : l.HasZones first last
  · refine .inl ⟨range, (l.zones.drop first.toNat).take (last - first + 1).toNat, ?_, ?_, ?_⟩
    · simp only [perform, getZones, (checkZones_eq_ok_iff l first last).mpr range]
    · obtain ⟨low, order, high⟩ := range
      unfold zoneCount at high
      rw [List.length_take, List.length_drop]
      omega
    · intro j below
      rw [List.length_take] at below
      rw [List.getElem?_take_of_lt (by omega), List.getElem?_drop]
  · refine .inr ⟨range, ?_⟩
    simp only [perform, getZones]
    cases checked : l.checkZones first last with
    | error e => exact ⟨e, rfl⟩
    | ok u => exact absurd ((checkZones_eq_ok_iff l first last).mp checked) range

/-- A light of `count` zones has the colors that its history wrote last. -/
structure History.Follows (count : Nat) (h : History) : Prop where
  zoneCount : h.1.zoneCount = count
  zones : ∀ i < count, h.1.zones[i]? = some (latest (zoneWrite? i) h.2)
  color : h.1.color = latest colorWrite? h.2

theorem follows_create (name : Text) (count : Int) :
    History.Follows count.toNat (create name count, []) where
  zoneCount := List.length_replicate
  zones i below := by
    have zone : (List.replicate count.toNat ({} : Color))[i]? = some {} := by simp [below]
    exact zone
  color := rfl

/-- One more call keeps a light with its history. -/
theorem History.Follows.call {count : Nat} {h : History} (follows : h.Follows count)
    (call : Call) : (h.call call).Follows count where
  zoneCount := (perform_zoneCount h.1 call).trans follows.zoneCount
  zones i below := by
    refine (perform_zone h.1 call (follows.zoneCount ▸ below)).trans ?_
    rw [follows.zones i below, History.call, latest_concat]
    cases zoneWrite? i (call, (h.1.perform call).2) <;> rfl
  color := by
    refine (perform_color h.1 call).trans ?_
    rw [follows.color, History.call, latest_concat]

theorem follows_history {count : Nat} {l : Light} (start : History.Follows count (l, []))
    (calls : List Call) : (l.history calls).Follows count := by
  have run (h : History) (follows : h.Follows count) :
      (calls.foldl History.call h).Follows count := by
    induction calls generalizing h with
    | nil => exact follows
    | cons call calls ih => exact ih _ (follows.call call)
  exact run _ start

/-- After any calls to a new light, it has as many zones as before, and each has the color of the
last call that gave one to the light or, without being refused, to a range with the zone in it. Its
own color is the last one given to the light. Just the ranges within the light are accepted, and the
colors of such a range are those of its zones. A refused call changes nothing. -/
theorem zones_follow_writes (name : Text) (count : Int) (calls : List Call) {l : Light}
    {events : List (Call × Answer)} (after : (create name count).history calls = (l, events)) :
    l.zoneCount = count.toNat ∧
      (∀ i < count.toNat, l.zones[i]? = some (latest (zoneWrite? i) events)) ∧
      l.perform .getColor = (l, .color (latest colorWrite? events)) ∧
      (∀ first last c, (l.perform (.setZones first last c)).2 = .done ↔
        0 ≤ first ∧ first ≤ last ∧ last < count.toNat) ∧
      (∀ first last, (∃ cs, (l.perform (.getZones first last)).2 = .zones cs) ↔
        0 ≤ first ∧ first ≤ last ∧ last < count.toNat) ∧
      (∀ first last cs, (l.perform (.getZones first last)).2 = .zones cs →
        (cs.length : Int) = last - first + 1 ∧
          ∀ j : Nat, j < cs.length →
            cs[j]? = some (latest (zoneWrite? (first.toNat + j)) events)) ∧
      ∀ call e, (l.perform call).2 = .refused e → (l.perform call).1 = l := by
  have follows : History.Follows count.toNat (l, events) :=
    after ▸ follows_history (follows_create name count) calls
  have zoneCount : l.zoneCount = count.toNat := follows.zoneCount
  refine ⟨zoneCount, follows.zones, ?_, ?_, ?_, ?_, fun call e => perform_refused⟩
  · rw [← show l.color = latest colorWrite? events from follows.color]
    rfl
  · intro first last c
    rw [← zoneCount]
    obtain ⟨range, done, -⟩ | ⟨range, -, e, refused⟩ := l.perform_setZones first last c
    · exact iff_of_true done range
    · rw [refused]
      exact iff_of_false nofun range
  · intro first last
    rw [← zoneCount]
    obtain ⟨range, cs, answer, -⟩ | ⟨range, e, refused⟩ := l.perform_getZones first last
    · exact iff_of_true ⟨cs, answer⟩ range
    · rw [refused]
      exact iff_of_false nofun range
  · intro first last cs answer
    obtain ⟨⟨low, order, high⟩, cs', found, length, zones⟩ | ⟨-, e, refused⟩ :=
      l.perform_getZones first last
    · rw [answer] at found
      obtain rfl := Answer.zones.inj found
      refine ⟨length, fun j below => (zones j below).trans (follows.zones _ ?_)⟩
      omega
    · rw [refused] at answer
      cases answer

/-- Writes to eight zones: a range, the whole light, both ends, and ranges that are refused. -/
def overlapping : List Call :=
  [.setZones 2 4 ⟨1, 2, 3, 4⟩, .setColor ⟨5, 6, 7, 8⟩, .setZones 0 0 ⟨1, 2, 3, 4⟩,
   .setZones 6 9 ⟨9, 9, 9, 9⟩, .setZones 4 3 ⟨9, 9, 9, 9⟩, .setZones 6 7 ⟨1, 2, 3, 4⟩]

theorem overlapping_writes :
    ((create "Strip" 8).history overlapping).1.zones =
        [⟨1, 2, 3, 4⟩, ⟨5, 6, 7, 8⟩, ⟨5, 6, 7, 8⟩, ⟨5, 6, 7, 8⟩, ⟨5, 6, 7, 8⟩, ⟨5, 6, 7, 8⟩,
          ⟨1, 2, 3, 4⟩, ⟨1, 2, 3, 4⟩] ∧
      ∀ i < 8, ((create "Strip" 8).history overlapping).1.zones[i]? =
        some (latest (zoneWrite? i) ((create "Strip" 8).history overlapping).2) :=
  ⟨by decide, (zones_follow_writes "Strip" 8 overlapping rfl).2.1⟩

end Lightboard.Light
