import Lightboard.Proofs.Machine.LightChanges
import Lightboard.Proofs.Number.Integers

/-!
# Discovery loops

A program goes through the names of a kind, or through the zones of a light, by asking for the first
one and then again and again for the one after the last result. `Rig.discovery_enumerates` shows that
such a loop finds each of them once, in ascending order, and then nothing, whatever the program does
between its turns: lights may get other colors then, but their names and the number of their zones stay.

The name after a current one does not depend on whether the current one is there, so a loop can begin
anywhere.
-/

namespace Lightboard

/-- The least text with a property that comes after a current one, or none if there is none. -/
def IsNext (P : Text → Prop) (current : Text) : Option Text → Prop
  | some n => P n ∧ current < n ∧ ∀ m, P m → current < m → n ≤ m
  | none => ∀ m, P m → ¬ current < m

/-- How many zones there are to find on a light; where no light is, there are none. -/
def zoneTotal (light : Option Light) : Nat := (light.map Light.zoneCount).getD 0

theorem zoneTotal_congr {o o' : Option Light} (same : o'.map Light.build = o.map Light.build) :
    zoneTotal o' = zoneTotal o := by
  have counts (o : Option Light) : o.map Light.zoneCount = (o.map Light.build).map Prod.snd := by
    rw [Option.map_map]
    rfl
  rw [zoneTotal, counts, same, ← counts, zoneTotal]

theorem zoneTotal_le (fs : List Filing) (name : Text) :
    (zoneTotal (lastAdded fs name) : Int) ≤ Light.mostZones := by
  cases last : lastAdded fs name with
  | none => decide
  | some l =>
      obtain ⟨f, -, rfl⟩ := mem_of_lastAdded last
      exact f.fits

namespace Rig

section

variable {names : List Text} {c : Text}

theorem find?_after (above : ∀ n ∈ names, c < n) :
    names.find? (fun n => decide (c < n)) = names.head? := by
  cases names with
  | nil => rfl
  | cons n rest => simp [above n List.mem_cons_self]

/-- The name after a current one is the first that is greater. -/
theorem nameAfter_eq (ordered : names.Pairwise (· < ·)) (c : Text) :
    nameAfter c names = names.find? fun n => decide (c < n) := by
  induction names with
  | nil => rfl
  | cons n rest ih =>
      obtain ⟨above, ordered⟩ := List.pairwise_cons.mp ordered
      by_cases before : n < c
      · have skipped : nameAfter c (n :: rest) = nameAfter c rest := by
          unfold nameAfter
          rw [List.dropWhile_cons_of_pos (p := (Text.before · c)) ((Text.before_iff n c).mpr before)]
        rw [skipped, ih ordered, List.find?_cons_of_neg (by simpa using List.lt_asymm before)]
      · have stops : ¬ Text.before n c = true := fun h => before ((Text.before_iff n c).mp h)
        unfold nameAfter
        rw [List.dropWhile_cons_of_neg (p := (Text.before · c)) stops]
        by_cases same : n = c
        · subst same
          rw [List.find?_cons_of_neg (by simp [List.lt_irrefl]), find?_after above]
          exact if_pos rfl
        · have after : c < n := Text.lt_of_not_lt_of_ne before (Ne.symm same)
          rw [List.find?_cons_of_pos (by simpa using after)]
          exact if_neg same

/-- The name after a listed one is the one that is listed next. -/
theorem nameAfter_getElem? (ordered : names.Pairwise (· < ·)) {k : Nat} (at_k : names[k]? = some c) :
    nameAfter c names = names[k + 1]? := by
  rw [nameAfter_eq ordered]
  induction names generalizing k with
  | nil => cases at_k
  | cons n rest ih =>
      obtain ⟨above, ordered⟩ := List.pairwise_cons.mp ordered
      rw [List.getElem?_cons_succ]
      cases k with
      | zero =>
          obtain rfl := Option.some.inj at_k
          rw [List.find?_cons_of_neg (by simp [List.lt_irrefl]), find?_after above,
            List.head?_eq_getElem?]
      | succ k =>
          have before : n < c := above c (List.mem_of_getElem? at_k)
          rw [List.find?_cons_of_neg (by simpa using List.lt_asymm before)]
          exact ih ordered at_k

theorem isNext_nameAfter (ordered : names.Pairwise (· < ·)) {P : Text → Prop}
    (listed : ∀ n, n ∈ names ↔ P n) (c : Text) : IsNext P c (nameAfter c names) := by
  rw [nameAfter_eq ordered]
  cases found : names.find? (fun n => decide (c < n)) with
  | none =>
      intro m hm
      simpa using List.find?_eq_none.mp found m ((listed m).mpr hm)
  | some n =>
      obtain ⟨after, passed, rest, rfl, notAfter⟩ := List.find?_eq_some_iff_append.mp found
      refine ⟨(listed n).mp (by simp), by simpa using after, ?_⟩
      intro m hm later
      obtain earlier | same | further : m ∈ passed ∨ m = n ∨ m ∈ rest := by
        simpa using (listed m).mpr hm
      · simpa [later] using notAfter m earlier
      · exact same ▸ List.le_refl n
      · obtain ⟨-, tail, -⟩ := List.pairwise_append.mp ordered
        exact List.le_of_lt ((List.pairwise_cons.mp tail).1 m further)

end

/-- What a program can ask for: the names of a kind, or the zones of a light. -/
inductive Query where
  | names (kind : Operand)
  | zones (light : Text)

/-- The instruction that asks for the first answer. -/
def Query.firstOp : Query → OpCode
  | .names _ => .disc
  | .zones _ => .discZone

/-- The instruction that asks for the answer after a current one. -/
def Query.nextOp : Query → OpCode
  | .names _ => .discNext
  | .zones _ => .discNextZone

/-- The next step executes an instruction. -/
structure Executes (r : Rig) (i : Instruction) : Prop where
  fetched : r.machine.instruction? = some i
  polled : r.stage.poll.2 = .ok ()

/-- What an instruction asks for. A kind stands in the instruction itself, while the name of a light is
looked up. -/
def Asks (r : Rig) (i : Instruction) : Query → Prop
  | .names kind => i.first = some (.operand kind)
  | .zones light => r.resolve i.first = .ok (some (.str light))

/-- The next step asks for the first answer. -/
def Begins (r : Rig) (q : Query) : Prop := ∃ i, r.Executes i ∧ i.op = q.firstOp ∧ r.Asks i q

/-- The next step asks for the answer after a current one. -/
def Continues (r : Rig) (q : Query) (current : Slot) : Prop :=
  ∃ i, r.Executes i ∧ i.op = q.nextOp ∧ r.Asks i q ∧ r.resolve i.second = .ok current

/-- The next step succeeds, and the machine goes on with this result. -/
def Finds (r : Rig) (v : Slot) : Prop :=
  r.step.2 = .goOn ∧ r.step.1.machine.registers.result = v

/-- The steps of a loop: turn zero asks for the first answer, and each turn after it for the one after
the result that the turn before has left. There may be any number of other steps between two turns. -/
structure Loops (start : Rig) (q : Query) (turn : Nat → Nat) (last : Nat) : Prop where
  begins : (start.afterSteps (turn 0)).Begins q
  later : ∀ k < last, turn k < turn (k + 1)
  continues : ∀ k < last, (start.afterSteps (turn (k + 1))).Continues q
    (start.afterSteps (turn k + 1)).machine.registers.result

/-- The result of a turn: an answer as long as there is one, and then nothing. -/
def answerAt (answers : List Value) (k : Nat) : Slot := some (answers[k]?.getD .nothing)

/-- Loops find the answers one after the other and then nothing. Nothing is no answer, so a loop that
goes on until it has found nothing ends right after the last answer. -/
structure Enumerates (start : Rig) (q : Query) (answers : List Value) : Prop where
  ends : Value.nothing ∉ answers
  finds : ∀ {turn : Nat → Nat} {last : Nat}, start.Loops q turn last →
    ∀ k ≤ last, (start.afterSteps (turn k)).Finds (answerAt answers k)

theorem running_of_instruction? {m : Machine} {i : Instruction} (fetched : m.instruction? = some i) :
    m.stopped = false ∧ ∃ p, m.program = some p := by
  unfold Machine.instruction? at fetched
  split at fetched
  · cases fetched
  · next running =>
    obtain ⟨going, -⟩ : m.stopped = false ∧ 0 ≤ m.registers.pc := by simpa using running
    obtain ⟨p, loaded, -⟩ := Option.bind_eq_some_iff.mp fetched
    exact ⟨going, p, loaded⟩

/-- The instruction finds the machine as it was before the step. -/
theorem Executes.step_eq {r : Rig} {i : Instruction} (executes : r.Executes i) :
    ∃ p, r.machine.stopped = false ∧
      r.step = ({ r with stage := r.stage.poll.1 } : Rig).stepAt p r.machine.registers.pc i := by
  obtain ⟨going, p, loaded⟩ := running_of_instruction? executes.fetched
  exact ⟨p, going, step_eq_stepAt loaded executes.fetched (Prod.ext rfl executes.polled)⟩

/-- An instruction that succeeds lets the machine go on, unless it stops it. -/
theorem stepAt_done {r r' : Rig} {p : Program} {i : Instruction} (executed : r.execute p i = r'.done)
    (going : r'.machine.stopped = false) (pc : Int) : (r.stepAt p pc i).2 = .goOn ∧
      (r.stepAt p pc i).1.machine = r'.machine.movedPast i.op := by
  simp [stepAt, executed, done, going]

/-- An instruction that does nothing to the machine but set the result. -/
theorem Executes.finds {r : Rig} {i : Instruction} {v : Slot} (executes : r.Executes i)
    (sets : ∀ p, ∃ r' : Rig, r'.machine = r.machine ∧
      ({ r with stage := r.stage.poll.1 } : Rig).execute p i = (r'.setResult v).done) :
    r.Finds v := by
  obtain ⟨p, going, stepped⟩ := executes.step_eq
  obtain ⟨r', same, executed⟩ := sets p
  have going' : (r'.setResult v).machine.stopped = false := (congrArg Machine.stopped same).trans going
  obtain ⟨goesOn, moved⟩ := stepAt_done executed going' r.machine.registers.pc
  rw [Finds, stepped, moved, Machine.movedPast]
  refine ⟨goesOn, ?_⟩
  split <;> rfl

/-- What one turn does is enough to know what a loop does. -/
theorem Loops.finds {start : Rig} {q : Query} {turn : Nat → Nat} {last : Nat}
    (loops : start.Loops q turn last) {answer : Nat → Slot}
    (first : ∀ t, (start.afterSteps t).Begins q → (start.afterSteps t).Finds (answer 0))
    (next : ∀ t k, (start.afterSteps t).Continues q (answer k) →
      (start.afterSteps t).Finds (answer (k + 1))) :
    ∀ k ≤ last, (start.afterSteps (turn k)).Finds (answer k) := by
  intro k le
  induction k with
  | zero => exact first _ loops.begins
  | succ k ih =>
      obtain ⟨-, found⟩ := ih (Nat.le_of_succ_le le)
      exact next _ k (found ▸ loops.continues k le)

section

variable {r : Rig} {kind : Operand}

theorem discoveryNames_eq (ghosts : r.stage.ghosts = []) (named : kind ∈ Operand.named) :
    r.discoveryNames (some (.operand kind)) = .ok (r.stage.lights.listed kind) := by
  have names := Stage.lightNames_eq ghosts
  cases kind with
  | all => exact congrArg _ names
  | light => exact congrArg _ names
  | group => rfl
  | location => rfl
  | mzLight =>
      simp only [discoveryNames, names]
      rfl
  | unnamed => simp [Operand.named] at named

theorem Begins.finds_name (ghosts : r.stage.ghosts = []) (named : kind ∈ Operand.named)
    (begins : r.Begins (.names kind)) :
    r.Finds (nameValue (r.stage.lights.listed kind).head?) := by
  obtain ⟨i, executes, op, asks⟩ := begins
  have polled := r.stage.keeps_poll
  refine executes.finds fun p => ⟨{ r with stage := r.stage.poll.1 }, rfl, ?_⟩
  simp only [execute, op, Query.firstOp, discover, show i.first = _ from asks]
  rw [discoveryNames_eq (polled.ghosts.trans ghosts) named, polled.lights.listed_eq]

theorem Continues.finds_name (ghosts : r.stage.ghosts = []) (named : kind ∈ Operand.named)
    {current : Option Text} (continues : r.Continues (.names kind) (nameValue current)) :
    r.Finds (nameValue (current.bind (nameAfter · (r.stage.lights.listed kind)))) := by
  obtain ⟨i, executes, op, asks, resolved⟩ := continues
  have polled := r.stage.keeps_poll
  refine executes.finds fun p => ⟨{ r with stage := r.stage.poll.1 }, rfl, ?_⟩
  have resolved : ({ r with stage := r.stage.poll.1 } : Rig).resolve i.second = _ := resolved
  simp only [execute, op, Query.nextOp, discoverNext, show i.first = _ from asks]
  rw [discoveryNames_eq (polled.ghosts.trans ghosts) named, polled.lights.listed_eq, resolved]
  cases current with
  | none => rfl
  | some c => rfl

theorem answerAt_names (names : List Text) (k : Nat) :
    answerAt (names.map .str) k = nameValue names[k]? := by
  rw [answerAt, List.getElem?_map]
  cases names[k]? <;> rfl

end

section

variable {r : Rig} {name : Text}

theorem zoneLight_eq {v : Slot} (resolved : r.resolve v = .ok (some (.str name))) :
    ∃ r' : Rig, r'.machine = r.machine ∧ r.zoneLight v = .ok (r', r.stage.light? name) := by
  simp only [zoneLight, resolved]
  split
  · next found => exact ⟨r, rfl, by rw [found]⟩
  · next missing =>
    refine ⟨r.warn "Zone discovery: unknown light" [("light", .text name)], rfl, ?_⟩
    rw [missing]

theorem firstZone_eq (light : Option Light) :
    (if light.any Light.isMultizone then some 0 else none : Option Int) =
      if 0 < zoneTotal light then some 0 else none := by
  refine if_congr ?_ rfl rfl
  cases light with
  | none => simp [zoneTotal]
  | some l => simp [zoneTotal, l.isMultizone_iff, Nat.pos_iff_ne_zero]

/-- The numbers of zones are small enough to be counted exactly. -/
theorem zoneAfter_eq (light : Option Light) {k : Nat} (small : k ≤ 2 ^ 53) :
    zoneAfter light (zoneValue (some k)) =
      if k + 1 < zoneTotal light then some ((k + 1 : Nat) : Int) else none := by
  have kept : Number.rounded k = k := Number.rounded_of_le (by simpa using small)
  have fits : Number.FitsWord (Number.rounded k) := by
    rw [kept]
    unfold Number.FitsWord Number.leastWord Number.greatestWord
    omega
  have counted : Number.truncate (Number.ofInt k) = k := by rw [Number.truncate_ofInt fits, kept]
  cases light with
  | none => rfl
  | some l =>
      have zones : l.isMultizone = true ↔ 0 < l.zoneCount := by
        rw [l.isMultizone_iff, Nat.pos_iff_ne_zero]
      simp only [zoneAfter, zoneValue, Slot.number?, Option.elim_some, Option.bind_some,
        Value.number?, counted, Bool.and_eq_true, decide_eq_true_eq, zones, zoneTotal,
        Option.map_some, Option.getD_some]
      refine if_congr ?_ (by simp) rfl
      omega

theorem Begins.finds_zone (begins : r.Begins (.zones name)) :
    r.Finds (zoneValue (if 0 < zoneTotal (r.stage.light? name) then some 0 else none)) := by
  obtain ⟨i, executes, op, asks⟩ := begins
  refine executes.finds fun p => ?_
  obtain ⟨r', same, lit⟩ := zoneLight_eq (r := { r with stage := r.stage.poll.1 }) asks
  refine ⟨r', same, ?_⟩
  have total : zoneTotal (r.stage.poll.1.light? name) = zoneTotal (r.stage.light? name) :=
    zoneTotal_congr (r.stage.keeps_poll.lights.builds name)
  simp only [execute, op, Query.firstOp, discoverZones, lit, firstZone_eq, total]

theorem Continues.finds_zone {current : Slot} (continues : r.Continues (.zones name) current) :
    ∃ light, zoneTotal light = zoneTotal (r.stage.light? name) ∧
      r.Finds (zoneValue (zoneAfter light current)) := by
  obtain ⟨i, executes, op, asks, resolved⟩ := continues
  refine ⟨_, zoneTotal_congr (r.stage.keeps_poll.lights.builds name), executes.finds fun p => ?_⟩
  obtain ⟨r', same, lit⟩ := zoneLight_eq (r := { r with stage := r.stage.poll.1 }) asks
  refine ⟨r', same, ?_⟩
  have resolved' : r'.resolve i.second = .ok current := by
    rw [← resolved]
    unfold resolve
    rw [same]
  simp only [execute, op, Query.nextOp, discoverNextZone, lit, resolved']
  rfl

theorem answerAt_zones (total k : Nat) :
    answerAt ((List.range total).map fun z : Nat => .number (Number.ofInt z)) k =
      zoneValue (if k < total then some (k : Int) else none) := by
  rw [answerAt, List.getElem?_map]
  split
  · next below =>
    rw [List.getElem?_range below]
    rfl
  · next past =>
    rw [List.getElem?_eq_none (by simpa using past)]
    rfl

end

section

variable {start : Rig} {fs : List Filing}

/-- Names are found in ascending order. -/
theorem enumerates_names (filed : start.stage.lights.IsFiled) (ghosts : start.stage.ghosts = [])
    {kind : Operand} (named : kind ∈ Operand.named) :
    start.Enumerates (.names kind) ((start.stage.lights.listed kind).map .str) := by
  have kept (t : Nat) := afterSteps_keeps filed t
  refine ⟨by simp, fun loops => ?_⟩
  simp only [answerAt_names]
  refine loops.finds ?_ ?_
  · intro t begins
    have found := begins.finds_name ((kept t).ghosts.trans ghosts) named
    rwa [(kept t).lights.listed_eq, List.head?_eq_getElem?] at found
  · intro t k continues
    have found := continues.finds_name ((kept t).ghosts.trans ghosts) named
    rw [(kept t).lights.listed_eq] at found
    -- After the last name there is nothing, and after nothing there is nothing either.
    cases listed : (start.stage.lights.listed kind)[k]? with
    | none =>
        rw [listed, Option.bind_none] at found
        rwa [List.getElem?_eq_none (Nat.le_succ_of_le (List.getElem?_eq_none_iff.mp listed))]
    | some c =>
        rw [listed, Option.bind_some] at found
        rwa [nameAfter_getElem? (LightSet.listed_strict _ kind) listed] at found

/-- Zones are found in the order of their numbers. -/
theorem enumerates_zones (filed : start.stage.lights.IsFiled) {name : Text}
    (fits : (zoneTotal (start.stage.light? name) : Int) ≤ Light.mostZones) :
    start.Enumerates (.zones name)
      ((List.range (zoneTotal (start.stage.light? name))).map fun z : Nat =>
        .number (Number.ofInt z)) := by
  have total (t : Nat) : zoneTotal ((start.afterSteps t).stage.light? name) =
      zoneTotal (start.stage.light? name) :=
    zoneTotal_congr ((afterSteps_keeps filed t).lights.builds name)
  refine ⟨by simp, fun loops => ?_⟩
  simp only [answerAt_zones]
  refine loops.finds ?_ ?_
  · intro t begins
    have found := begins.finds_zone
    rwa [total t] at found
  · intro t k continues
    obtain ⟨light, same, found⟩ := continues.finds_zone
    rw [total t] at same
    by_cases below : k < zoneTotal (start.stage.light? name)
    · have small : k ≤ 2 ^ 53 := by
        unfold Light.mostZones at fits
        omega
      rwa [if_pos below, zoneAfter_eq light small, same] at found
    · rw [if_neg below] at found
      rw [if_neg (by omega)]
      cases light <;> exact found

end

/-- Discovery loops enumerate exactly. On lights that were added one after the other, a loop over a kind
finds the names of that kind, each once and in ascending order, and then nothing; the name after any
text, whether a name or not, is the least that is greater. A loop over a light finds its zones from zero
on, and nothing at once if it has none or is not there. -/
theorem discovery_enumerates {start : Rig} {fs : List Filing}
    (lights : start.stage.lights = .ofFilings fs) (ghosts : start.stage.ghosts = []) :
    (∀ kind ∈ Operand.named,
      (∃ names : List Text, names.Pairwise (· < ·) ∧ (∀ n, n ∈ names ↔ IsNamed fs kind n) ∧
        start.Enumerates (.names kind) (names.map .str)) ∧
      ∀ t current, (start.afterSteps t).Continues (.names kind) (some (.str current)) →
        ∃ next, IsNext (IsNamed fs kind) current next ∧
          (start.afterSteps t).Finds (nameValue next)) ∧
    ∀ name, start.Enumerates (.zones name)
      ((List.range (zoneTotal (lastAdded fs name))).map fun z : Nat =>
        .number (Number.ofInt z)) := by
  have filed : start.stage.lights.IsFiled := lights ▸ LightSet.isFiled_ofFilings fs
  have mem (kind : Operand) (n : Text) : n ∈ start.stage.lights.listed kind ↔ IsNamed fs kind n := by
    rw [lights, LightSet.mem_listed_iff]
  refine ⟨fun kind named => ⟨?_, ?_⟩, ?_⟩
  · exact ⟨_, LightSet.listed_strict _ kind, mem kind, enumerates_names filed ghosts named⟩
  · intro t current continues
    have kept := afterSteps_keeps filed t
    have continues : (start.afterSteps t).Continues (.names kind) (nameValue (some current)) :=
      continues
    have found := continues.finds_name (kept.ghosts.trans ghosts) named
    rw [kept.lights.listed_eq] at found
    exact ⟨_, isNext_nameAfter (LightSet.listed_strict _ kind) (mem kind) current, found⟩
  · intro name
    have held : start.stage.light? name = lastAdded fs name := by
      rw [Stage.light?, lights, LightSet.get?_ofFilings]
    have enumerates := enumerates_zones filed (held ▸ zoneTotal_le fs name)
    rwa [held] at enumerates

/-- A lamp, and a strip with two zones in the same group. -/
def lampAndStrip : List Filing :=
  [⟨.create [98] 0, [103], [], by decide⟩, ⟨.create [97] 2, [103], [104], by decide⟩]

/-- A machine at the start of a program, with the lamp and the strip on its stage. -/
def amongLights (code : List Instruction) : Rig :=
  ({ stage := { lights := .ofFilings lampAndStrip } } : Rig).load
    { name := [112], code := code, routines := {} }

/-- A program goes through the zones of the strip and asks for the light after a text that names none;
another one goes through the groups. -/
theorem amongLights_enumerates :
    let strip := amongLights
      [{ op := .discZone, first := some (.str [97]) },
       ⟨.discNextZone, some (.str [97]), some (.register .result)⟩,
       ⟨.discNextZone, some (.str [97]), some (.register .result)⟩,
       ⟨.discNext, some (.operand .light), some (.str [97, 97])⟩]
    let grouped := amongLights
      [{ op := .disc, first := some (.operand .group) },
       ⟨.discNext, some (.operand .group), some (.register .result)⟩]
    (strip.afterSteps 0).Finds (some (.number (Number.ofInt 0))) ∧
      (strip.afterSteps 1).Finds (some (.number (Number.ofInt 1))) ∧
      (strip.afterSteps 2).Finds (some .nothing) ∧
      (∃ next, IsNext (IsNamed lampAndStrip .light) [97, 97] next ∧
        (strip.afterSteps 3).Finds (nameValue next)) ∧
      ∃ groups : List Text, groups.Pairwise (· < ·) ∧
        (∀ n, n ∈ groups ↔ IsNamed lampAndStrip .group n) ∧
        (grouped.afterSteps 0).Finds (answerAt (groups.map .str) 0) ∧
        (grouped.afterSteps 1).Finds (answerAt (groups.map .str) 1) := by
  intro strip grouped
  have lit (code : List Instruction) :
      (amongLights code).stage.lights = .ofFilings lampAndStrip := rfl
  obtain ⟨kinds, zones⟩ := discovery_enumerates (lit _ : strip.stage.lights = _) rfl
  have zoneLoop : strip.Loops (.zones [97]) id 2 := by
    refine ⟨⟨_, ⟨rfl, rfl⟩, rfl, rfl⟩, fun k _ => Nat.lt_succ_self k, fun k below => ?_⟩
    obtain rfl | rfl : k = 0 ∨ k = 1 := by omega
    · exact ⟨_, ⟨rfl, rfl⟩, rfl, rfl, rfl⟩
    · exact ⟨_, ⟨rfl, rfl⟩, rfl, rfl, rfl⟩
  have asked : (strip.afterSteps 3).Continues (.names .light) (some (.str [97, 97])) :=
    ⟨_, ⟨rfl, rfl⟩, rfl, rfl, rfl⟩
  have groupLoop : grouped.Loops (.names .group) id 1 := by
    refine ⟨⟨_, ⟨rfl, rfl⟩, rfl, rfl⟩, fun k _ => Nat.lt_succ_self k, fun k below => ?_⟩
    obtain rfl : k = 0 := by omega
    exact ⟨_, ⟨rfl, rfl⟩, rfl, rfl, rfl⟩
  have numbers := (zones [97]).finds zoneLoop
  obtain ⟨⟨groups, ordered, listed, enumerates⟩, -⟩ :=
    (discovery_enumerates (lit _ : grouped.stage.lights = _) rfl).1 .group (by decide)
  have found := enumerates.finds groupLoop
  exact ⟨numbers 0 (by decide), numbers 1 (by decide), numbers 2 (by decide),
    (kinds .light (by decide)).2 3 _ asked, groups, ordered, listed, found 0 (by decide),
    found 1 (by decide)⟩

end Rig

end Lightboard
