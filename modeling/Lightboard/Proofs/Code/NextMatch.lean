import Lightboard.Clock
import Lightboard.Proofs.Code.Patterns
import Lightboard.Proofs.Text.Digits

/-!
# The next minute that matches

The search for the next match looks at the minutes of one day after an instant. As every alternative
matches some minute of the day, and as the minutes of one day show all times there are wherever they
begin, a pattern that has alternatives is always found, and what is found first is what comes first.
-/

namespace Lightboard

namespace Alternative

theorem two_eq {n : Nat} (small : n < 100) :
    clockFace.two n = [Text.ofDigit (n / 10), Text.ofDigit (n % 10)] := by
  have notNegative : ¬ (n : Int) < 0 := by omega
  rw [clockFace.two, if_neg notNegative, Int.toNat_natCast, Text.ofNat_eq]
  split
  · next single =>
    rw [Nat.div_eq_of_lt single]
    rfl
  · next large =>
    have tens : n / 10 < 10 := by omega
    rw [Text.ofNat_eq, if_pos tens, Nat.mod_eq_of_lt tens]
    rfl

theorem ofDigit_toNat {d : Nat} (small : d < 10) : (Text.ofDigit d).toNat = 48 + d :=
  UInt8.toNat_ofNat_of_lt (show 48 + d < 256 by omega)

/-- A place of a pattern fits a digit if it is open or the same. -/
theorem digitByte_fits {n d : Nat} (o : Option (Fin n)) (small : n ≤ 10) (digit : d < 10) :
    (digitByte o == ascii '*' || digitByte o == Text.ofDigit d) = true ↔ ∀ e ∈ o, e.val = d := by
  cases o with
  | none => simp [digitByte]
  | some e =>
      have byte := digitByte_some e small
      have shown := ofDigit_toNat digit
      have notStar : digitByte (some e) ≠ ascii '*' := by
        intro same
        rw [same] at byte
        change 42 = _ at byte
        omega
      rw [beq_eq_false_iff_ne.mpr notStar, Bool.false_or, beq_iff_eq, ← UInt8.toNat_inj, byte, shown]
      simp

/-- An alternative matches a time of day if each digit that it fixes is the one the clock shows. -/
theorem fits_iff (a : Alternative) {hour minute : Nat} (h : hour < 24) (m : minute < 60) :
    a.fits hour minute = true ↔
      (∀ d ∈ a.hourTens, d.val = hour / 10) ∧ (∀ d ∈ a.hourUnits, d.val = hour % 10) ∧
      (∀ d ∈ a.minuteTens, d.val = minute / 10) ∧ ∀ d ∈ a.minuteUnits, d.val = minute % 10 := by
  have hourTens := digitByte_fits a.hourTens (by decide) (show hour / 10 < 10 by omega)
  have hourUnits := digitByte_fits a.hourUnits (by decide) (show hour % 10 < 10 by omega)
  have minuteTens := digitByte_fits a.minuteTens (by decide) (show minute / 10 < 10 by omega)
  have minuteUnits := digitByte_fits a.minuteUnits (by decide) (show minute % 10 < 10 by omega)
  have colon : (ascii ':' == ascii '*' || ascii ':' == ascii ':') = true := by decide
  rw [fits, text, clockFace, two_eq (by omega), two_eq (by omega)]
  simp only [List.cons_append, List.nil_append, List.zip_cons_cons, List.zip_nil_right,
    List.all_cons, List.all_nil, Bool.and_true]
  rw [Bool.and_eq_true, Bool.and_eq_true, Bool.and_eq_true, Bool.and_eq_true, hourTens, hourUnits,
    minuteTens, minuteUnits, colon]
  simp only [true_and]

/-- Every alternative matches some minute of the day: with zeros in its open places it is a time. -/
theorem exists_fits (a : Alternative) :
    ∃ hour < 24, ∃ minute < 60, a.fits (hour : Nat) (minute : Nat) = true := by
  have hours : (a.hourTens.getD 0).val * 10 + (a.hourUnits.getD 0).val < 24 := by
    cases tens : a.hourTens with
    | none =>
        simp only [Option.getD_none, Fin.val_zero]
        omega
    | some t =>
        cases units : a.hourUnits with
        | none =>
            simp only [Option.getD_none, Option.getD_some, Fin.val_zero]
            omega
        | some u => exact a.hour_lt t tens u units
  have minutes : (a.minuteTens.getD 0).val * 10 + (a.minuteUnits.getD 0).val < 60 := by omega
  refine ⟨_, hours, _, minutes, (fits_iff a hours minutes).mpr ⟨?_, ?_, ?_, ?_⟩⟩
  all_goals
    intro d member
    simp only [Option.mem_def.mp member, Option.getD_some]
    omega

end Alternative

namespace Instant

/-- The whole minutes that have passed at an instant. -/
def minutes (t : Instant) : Int := t.nanoseconds / minute

theorem minute_pos : 0 < minute := by decide

theorem minuteOfDay_eq (t : Instant) : t.minuteOfDay = (t.minutes + t.offset) % 1440 := by
  rw [minuteOfDay, here, Int.add_mul_ediv_right _ _ minute_pos.ne', minutes]

theorem minutes_startOfMinute (t : Instant) (n : Int) :
    (t.startOfMinute.addMinutes n).minutes = t.minutes + n := by
  simp only [minutes, addMinutes, startOfMinute]
  rw [← Int.add_mul, Int.mul_ediv_cancel _ minute_pos.ne']

/-- The hour and the minute are those of the minute of the day. -/
theorem clock_of_minuteOfDay {t : Instant} {hour m : Nat} (h : m < 60)
    (same : t.minuteOfDay = (hour * 60 + m : Nat)) : t.hourHere = hour ∧ t.minuteHere = m := by
  unfold hourHere minuteHere
  omega

end Instant

namespace TimePattern

/-- Instant `t` is the start of a minute that matches, and it comes after `start` on the same clock. -/
structure Upcoming (p : TimePattern) (start t : Instant) : Prop where
  clock : t.offset = start.offset
  later : start.nanoseconds < t.nanoseconds
  whole : Instant.minute ∣ t.nanoseconds
  fits : p.fits t.hourHere t.minuteHere = true

/-- The instant so many minutes after the start of the minute of `start`, the next one for zero. -/
def minuteAfter (start : Instant) (i : Nat) : Instant :=
  start.startOfMinute.addMinutes ((i : Int) + 1)

/-- The search finds the first of the minutes that matches. -/
theorem next?_eq (p : TimePattern) (start : Instant) :
    p.next? start = ((List.range 1440).find? fun i =>
      p.fits (minuteAfter start i).hourHere (minuteAfter start i).minuteHere).map
        (minuteAfter start) := by
  rw [next?, upcoming, List.find?_map]
  rfl

theorem upcoming_minuteAfter {p : TimePattern} {start : Instant} {i : Nat}
    (fits : p.fits (minuteAfter start i).hourHere (minuteAfter start i).minuteHere = true) :
    p.Upcoming start (minuteAfter start i) := by
  refine ⟨rfl, ?_, ?_, fits⟩
  · have split := Int.mul_ediv_add_emod start.nanoseconds Instant.minute
    have rest := Int.emod_lt_of_pos start.nanoseconds Instant.minute_pos
    have step : Instant.minute ≤ ((i : Int) + 1) * Instant.minute :=
      le_mul_of_one_le_left Instant.minute_pos.le (by omega)
    simp only [minuteAfter, Instant.addMinutes, Instant.startOfMinute]
    rw [mul_comm] at split
    omega
  · refine ⟨start.minutes + ((i : Int) + 1), ?_⟩
    simp only [minuteAfter, Instant.addMinutes, Instant.startOfMinute, Instant.minutes]
    ring

/-- What is upcoming is one of the minutes after. -/
theorem Upcoming.eq_minuteAfter {p : TimePattern} {start t : Instant} (h : p.Upcoming start t) :
    ∃ i, t = minuteAfter start i := by
  obtain ⟨k, whole⟩ := h.whole
  have split := Int.mul_ediv_add_emod start.nanoseconds Instant.minute
  have rest := Int.emod_nonneg start.nanoseconds Instant.minute_pos.ne'
  have after : start.minutes < k := by
    have later := h.later
    rw [whole] at later
    refine lt_of_mul_lt_mul_left (a := Instant.minute) ?_ Instant.minute_pos.le
    simp only [Instant.minutes]
    omega
  refine ⟨(k - start.minutes - 1).toNat, ?_⟩
  have count : (((k - start.minutes - 1).toNat : Int) + 1) = k - start.minutes := by omega
  obtain ⟨nanoseconds, offset⟩ := t
  simp only [minuteAfter, Instant.addMinutes, Instant.startOfMinute, count, Instant.mk.injEq]
  refine ⟨?_, h.clock⟩
  simp only at whole
  rw [whole, Instant.minutes]
  ring

theorem minuteAfter_le {start : Instant} {i j : Nat} (h : i ≤ j) :
    (minuteAfter start i).nanoseconds ≤ (minuteAfter start j).nanoseconds := by
  simp only [minuteAfter, Instant.addMinutes]
  have more := Int.mul_le_mul_of_nonneg_right
    (show ((i : Int) + 1) ≤ (j : Int) + 1 by omega) Instant.minute_pos.le
  omega

/-- The minutes of one day show every time of day, wherever the day begins. -/
theorem exists_minuteAfter (start : Instant) {hour m : Nat} (h : hour < 24) (hm : m < 60) :
    ∃ i < 1440, (minuteAfter start i).hourHere = hour ∧ (minuteAfter start i).minuteHere = m := by
  refine ⟨(((hour * 60 + m : Nat) - (start.minutes + 1 + start.offset)) % 1440).toNat, by omega, ?_⟩
  apply Instant.clock_of_minuteOfDay hm
  rw [Instant.minuteOfDay_eq, minuteAfter, Instant.minutes_startOfMinute]
  change (_ + start.offset) % 1440 = _
  omega

/-- What the search finds is upcoming, and nothing upcoming comes before it. -/
theorem next?_earliest {p : TimePattern} {start t : Instant} (found : p.next? start = some t) :
    p.Upcoming start t ∧ ∀ t', p.Upcoming start t' → t.nanoseconds ≤ t'.nanoseconds := by
  rw [next?_eq, Option.map_eq_some_iff] at found
  obtain ⟨i, first, rfl⟩ := found
  obtain ⟨fits, inside, before⟩ := List.find?_range_eq_some.mp first
  refine ⟨upcoming_minuteAfter fits, ?_⟩
  intro t' upcoming
  obtain ⟨j, rfl⟩ := upcoming.eq_minuteAfter
  apply minuteAfter_le
  by_contra earlier
  have unfit := before j (by omega)
  simp [upcoming.fits] at unfit

/-- A pattern that has alternatives is found on any day. -/
theorem exists_next? {p : TimePattern} (some : p.alternatives ≠ []) (start : Instant) :
    ∃ t, p.next? start = .some t := by
  obtain ⟨a, member⟩ := List.exists_mem_of_ne_nil _ some
  obtain ⟨hour, h, m, hm, fits⟩ := a.exists_fits
  obtain ⟨i, inside, hourHere, minuteHere⟩ := exists_minuteAfter start h hm
  have matching : p.fits (minuteAfter start i).hourHere (minuteAfter start i).minuteHere = true := by
    rw [hourHere, minuteHere]
    exact List.any_eq_true.mpr ⟨a, member, fits⟩
  rw [← Option.isSome_iff_exists, next?_eq, Option.isSome_map, List.find?_isSome]
  exact ⟨i, List.mem_range.mpr inside, matching⟩

theorem next?_empty (start : Instant) : empty.next? start = none := by
  rw [next?_eq, Option.map_eq_none_iff, List.find?_eq_none]
  intro i _
  simp [fits, empty]

/-- The patterns that are read from texts, and the unions of such. -/
inductive Parsed : TimePattern → Prop
  | read {t : Text} {p : TimePattern} (h : TimePattern.read t = .ok p) : Parsed p
  | union {p q : TimePattern} (left : Parsed p) (right : Parsed q) : Parsed (p.union q)

theorem add_prefix (p : TimePattern) (a : Alternative) :
    p.alternatives <+: (p.add a).alternatives := by
  unfold add
  split
  · exact List.prefix_rfl
  · exact List.prefix_append _ _

/-- A union begins with the alternatives of its first pattern. -/
theorem union_prefix (p q : TimePattern) : p.alternatives <+: (p.union q).alternatives := by
  unfold union
  induction q.alternatives generalizing p with
  | nil => exact List.prefix_rfl
  | cons a as ih => exact (p.add_prefix a).trans (ih (p.add a))

theorem Parsed.ne_nil {p : TimePattern} (parsed : p.Parsed) : p.alternatives ≠ [] := by
  induction parsed with
  | read h =>
      intro none
      exact ne_empty_of_read h (ext_alternatives none)
  | @union p q _ _ left _ =>
      intro none
      exact left (List.prefix_nil.mp (none ▸ p.union_prefix q))

/-- A wait for a pattern that is found is a pause. -/
theorem waitUntil_ne_neverMatches {p : TimePattern} {now t : Instant} (found : p.next? now = some t)
    (cancelled : Bool) (q : TimePattern) :
    Clock.waitUntil cancelled now p ≠ .error (.neverMatches q) := by
  unfold Clock.waitUntil Clock.pauseFor
  generalize p.next? now = o at found
  subst found
  simp only
  split <;> simp

/-- For a pattern that comes from texts the search succeeds from every instant, with the earliest
whole minute after it that matches, and so the wait for the pattern never ends for want of a match.
The pattern without alternatives is never found. Every alternative that can be read matches some
minute of the day. -/
theorem next?_exact :
    (∀ p : TimePattern, p.Parsed → ∀ start : Instant,
      (∃ t, p.next? start = some t ∧ p.Upcoming start t ∧
        ∀ t', p.Upcoming start t' → t.nanoseconds ≤ t'.nanoseconds) ∧
      ∀ cancelled q, Clock.waitUntil cancelled start p ≠ .error (.neverMatches q)) ∧
    (∀ start, empty.next? start = none) ∧
    ∀ piece a, Alternative.read piece = .ok a →
      ∃ hour < 24, ∃ minute < 60, a.fits (hour : Nat) (minute : Nat) = true := by
  refine ⟨?_, next?_empty, fun piece a _ => a.exists_fits⟩
  intro p parsed start
  obtain ⟨t, found⟩ := exists_next? parsed.ne_nil start
  refine ⟨⟨t, found, next?_earliest found⟩, ?_⟩
  exact fun cancelled q => waitUntil_ne_neverMatches found cancelled q

/-- The union of two patterns that are read from texts is found after half a minute to midnight, on a
clock that is an hour and a half ahead. -/
theorem joinedPatterns_found :
    let start : Instant := ⟨80970 * Instant.second, 90⟩
    (start.hourHere, start.minuteHere) = (23, 59) ∧
      ∃ p q, read "2*:*5|7:30" = .ok p ∧ read "*9:59" = .ok q ∧
        ∃ t, (p.union q).next? start = some t ∧ (p.union q).Upcoming start t ∧
          ∀ t', (p.union q).Upcoming start t' → t.nanoseconds ≤ t'.nanoseconds := by
  obtain ⟨p, left⟩ : ∃ p, read "2*:*5|7:30" = .ok p := ⟨_, rfl⟩
  obtain ⟨q, right⟩ : ∃ q, read "*9:59" = .ok q := ⟨_, rfl⟩
  exact ⟨by decide, p, q, left, right,
    (next?_exact.1 _ (.union (.read left) (.read right)) ⟨80970 * Instant.second, 90⟩).1⟩

end TimePattern

end Lightboard
