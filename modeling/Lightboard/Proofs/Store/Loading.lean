import Lightboard.Proofs.Store.Remembered
import Lightboard.Proofs.Store.Survival
import Mathlib.Data.List.Induction
import Mathlib.Data.Set.Function

/-!
# Caching loaders of one store

A caching loader gives what the loader behind it gives, except that a program keeps the name under which
its source was first loaded. Several of them may share a store, and anyone may put other things into
it.

What is assumed of the loader behind, and of hashes, is `Library.Conditions`: names do not matter to
what a source means, programs come back from their stored form, and no two of the byte strings in
question have the same hash.

The proof follows one loader through the calls. `Library.Serves` says that its table leads from each
source to the program that it gave first, and that this program is in the store.
-/

namespace Lightboard

namespace Store

variable {ε : Type}

/-- What happens to a store and its caching loaders. -/
inductive LoadCall (ι : Type) where
  | load (i : ι) (name : Text) (source : Stream)
  | put (item : Item)

/-- A store that caching loaders share. -/
structure Library (ι ε : Type) where
  memory : Memory := {}
  loaders : ι → CachingLoader ε
  /-- How many calls there were. It is the serial number of a copy that the next call makes. -/
  calls : Nat := 0

namespace LoadCall

variable {ι : Type}

/-- The name under which a call gives bytes to a loader, if it does. -/
def nameFor [DecidableEq ι] (i : ι) (t : Text) : LoadCall ι → Option Text
  | .load j name source =>
    if j = i ∧ source.failure = none ∧ source.bytes = t then some name else none
  | .put _ => none

/-- The bytes that a call may put into the store. -/
def Writes (next : ι → SourceLoader ε) (t : Text) : LoadCall ι → Prop
  | .load i name source =>
    ∃ p, source.failure = none ∧ (next i name { bytes := source.bytes }).1 = .ok p ∧ t = p.encode
  | .put item => item.bytes = .ok t

end LoadCall

namespace Library

variable {ι : Type}

def start (next : ι → SourceLoader ε) (capacity : ι → Int) : Library ι ε :=
  { loaders := fun i => CachingLoader.wrapping (next i) (capacity i) }

def load (l : Library ι ε) (i : ι) (name : Text) (source : Stream) : CachedLoad ε :=
  (l.loaders i).load l.memory name source l.calls

variable [DecidableEq ι]

def step (l : Library ι ε) : LoadCall ι → Library ι ε
  | .load i name source =>
    { memory := (l.load i name source).memory
      loaders := Function.update l.loaders i (l.load i name source).loader
      calls := l.calls + 1 }
  | .put item => { l with memory := (l.memory.put item).2, calls := l.calls + 1 }

def after (l : Library ι ε) (cs : List (LoadCall ι)) : Library ι ε := cs.foldl step l

/-- What the loader behind answered to a call for these bytes, if it was asked. -/
def asked (i : ι) (t : Text) (l : Library ι ε) : LoadCall ι → Option (Except ε Program)
  | .load j name source =>
    if j = i ∧ source.bytes = t then (l.load j name source).asked else none
  | .put _ => none

/-- What the loader behind answered for these bytes while calls were made. -/
def answers (i : ι) (t : Text) : Library ι ε → List (LoadCall ι) → List (Except ε Program)
  | _, [] => []
  | l, c :: cs => (l.asked i t c).toList ++ (l.step c).answers i t cs

/-- The program of the first call that loads these bytes with success. -/
def firstProgram (next : SourceLoader ε) (i : ι) (t : Text) (cs : List (LoadCall ι)) :
    Option Program :=
  cs.findSome? fun c => (c.nameFor i t).bind fun name => (next name { bytes := t }).1.toOption

/-- What is assumed of the loader behind and of the hashes of the bytes in question. -/
structure Conditions (next : ι → SourceLoader ε) (i : ι) (cs : List (LoadCall ι)) : Prop where
  ignoresName : (next i).IgnoresName
  survives : ∀ c ∈ cs, ∀ t name p, c.nameFor i t = some name →
    (next i name { bytes := t }).1 = .ok p → p.Survives
  sources : Set.InjOn Hash64.hash {t | ∃ c ∈ cs, (c.nameFor i t).isSome}
  stored : Set.InjOn Hash64.hash {t | ∃ c ∈ cs, c.Writes next t}

end Library

/-- A program that is in the store is given. -/
theorem Recent.Faithful.program_of_stored {c : Recent} {m : Memory} (faithful : c.Faithful m)
    {h : UInt64} {t : Text} {q : Program} (stored : m.get? h = some t)
    (decoded : decodeEntry h t = .ok q) (n : Nat) :
    ∃ copy, (c.program m h n).1 = .ok copy ∧ copy.program = q := by
  have same := faithful.program_eq h n n
  simp only [Memory.program, Memory.bytes, stored, decoded, Except.map] at same
  cases given : (c.program m h n).1 with
  | error e =>
    rw [given] at same
    cases same
  | ok copy =>
    rw [given] at same
    exact ⟨copy, rfl, Except.ok.inj same⟩

namespace CachingLoader

variable {l : CachingLoader ε} {m : Memory} {name t : Text} {s : Stream} {n : Nat}

theorem loadNew_of_error {e : ε} (failed : (l.next name { bytes := t }).1 = .error e) (m : Memory)
    (n : Nat) (earlier : List Entry) :
    (l.loadNew m name t n earlier).result = .error (.load e) ∧
    (l.loadNew m name t n earlier).loader = l ∧
    (l.loadNew m name t n earlier).memory = m ∧
    (l.loadNew m name t n earlier).asked = some (.error e) := by
  unfold loadNew
  split
  · next given =>
    rw [given] at failed
    cases failed
    exact ⟨rfl, rfl, rfl, rfl⟩
  · next given =>
    rw [given] at failed
    cases failed

theorem loadNew_of_ok {p : Program} (loaded : (l.next name { bytes := t }).1 = .ok p) (m : Memory)
    (n : Nat) (earlier : List Entry) :
    (l.loadNew m name t n earlier).result = .ok ⟨p, n⟩ ∧
    (l.loadNew m name t n earlier).loader =
      { l with sources := l.sources.insert (Hash64.hash t) (Hash64.hash p.encode) } ∧
    (l.loadNew m name t n earlier).memory = m.insert p.encode ∧
    (l.loadNew m name t n earlier).asked = some (.ok p) := by
  unfold loadNew
  split
  · next given =>
    rw [given] at loaded
    cases loaded
  · next given =>
    rw [given] at loaded
    cases loaded
    exact ⟨rfl, rfl, rfl, rfl⟩

/-- A load writes nothing but a program that the loader behind has given. -/
theorem load_memory (l : CachingLoader ε) (m : Memory) (name : Text) (s : Stream) (n : Nat) :
    (l.load m name s n).memory = m ∨
    ∃ p, s.failure = none ∧ (l.next name { bytes := s.bytes }).1 = .ok p ∧
      (l.load m name s n).memory = m.insert p.encode := by
  have new : ∀ (l' : CachingLoader ε) (earlier : List Entry), l'.next = l.next →
      (l'.loadNew m name s.bytes n earlier).memory = m ∨
      ∃ p, (l.next name { bytes := s.bytes }).1 = .ok p ∧
        (l'.loadNew m name s.bytes n earlier).memory = m.insert p.encode := by
    intro l' earlier same
    cases loaded : (l'.next name { bytes := s.bytes }).1 with
    | error e => exact .inl (loadNew_of_error loaded m n earlier).2.2.1
    | ok p => exact .inr ⟨p, by rw [← same, loaded], (loadNew_of_ok loaded m n earlier).2.2.1⟩
  unfold load
  split
  · exact .inl rfl
  · next whole =>
    simp only [whole, true_and]
    split
    · exact new l [] rfl
    · split
      · exact .inl rfl
      · exact new _ _ rfl

theorem loadNew_next (l : CachingLoader ε) (m : Memory) (name t : Text) (n : Nat)
    (earlier : List Entry) : (l.loadNew m name t n earlier).loader.next = l.next := by
  cases loaded : (l.next name { bytes := t }).1 with
  | error e => rw [(loadNew_of_error loaded m n earlier).2.1]
  | ok p => rw [(loadNew_of_ok loaded m n earlier).2.1]

theorem load_next (l : CachingLoader ε) (m : Memory) (name : Text) (s : Stream) (n : Nat) :
    (l.load m name s n).loader.next = l.next := by
  unfold load
  split
  · rfl
  · split
    · exact loadNew_next ..
    · split
      · rfl
      · exact loadNew_next ..

/-- Bytes that cannot be read to their end change nothing, and the loader behind is not asked. -/
theorem load_of_failure {why : Text} (failed : s.failure = some why) :
    (l.load m name s n).result = .error (.unread name why) ∧ (l.load m name s n).loader = l ∧
    (l.load m name s n).memory = m ∧ (l.load m name s n).asked = none := by
  simp only [load, failed, and_self]

/-- Bytes that are not in the table are given to the loader behind. -/
theorem load_of_new (whole : s.failure = none) (new : l.sources.get? (Hash64.hash s.bytes) = none) :
    l.load m name s n = l.loadNew m name s.bytes n [] := by
  simp only [load, whole, new]

/-- Bytes that gave a program come from the store. -/
theorem load_of_known {h : UInt64} {copy : Copy} (whole : s.failure = none)
    (known : l.sources.get? (Hash64.hash s.bytes) = some h)
    (given : (l.recent.program m h n).1 = .ok copy) :
    (l.load m name s n).result = .ok copy ∧
    (l.load m name s n).loader = { l with recent := (l.recent.program m h n).2 } ∧
    (l.load m name s n).memory = m ∧ (l.load m name s n).asked = none := by
  have pair : l.recent.program m h n = (.ok copy, (l.recent.program m h n).2) := by rw [← given]
  rw [pair]
  simp only [load, whole, known]
  rw [pair]
  exact ⟨rfl, rfl, rfl, rfl⟩

end CachingLoader

namespace Library

variable {ι : Type} [DecidableEq ι] {next : ι → SourceLoader ε} {i : ι} {cs done : List (LoadCall ι)}
  {c : LoadCall ι} {l : Library ι ε} {name t : Text} {s : Stream}

theorem after_append (l : Library ι ε) (cs cs' : List (LoadCall ι)) :
    l.after (cs ++ cs') = (l.after cs).after cs' :=
  List.foldl_append

theorem answers_concat (i : ι) (t : Text) (l : Library ι ε) (cs : List (LoadCall ι))
    (c : LoadCall ι) :
    l.answers i t (cs ++ [c]) = l.answers i t cs ++ ((l.after cs).asked i t c).toList := by
  induction cs generalizing l with
  | nil => simp [answers, after]
  | cons c' cs ih => simp [answers, after, ih]

theorem firstProgram_concat (next : SourceLoader ε) (i : ι) (t : Text) (cs : List (LoadCall ι))
    (c : LoadCall ι) :
    firstProgram next i t (cs ++ [c]) =
      (firstProgram next i t cs).or
        ((c.nameFor i t).bind fun name => (next name { bytes := t }).1.toOption) := by
  simp [firstProgram, List.findSome?_append]

/-- The first program of a source comes from one of the calls. -/
theorem exists_of_firstProgram {next : SourceLoader ε} {p : Program}
    (first : firstProgram next i t cs = some p) :
    ∃ c ∈ cs, ∃ name, c.nameFor i t = some name ∧ (next name { bytes := t }).1 = .ok p := by
  obtain ⟨c, member, given⟩ := List.exists_of_findSome?_eq_some first
  obtain ⟨name, named, loaded⟩ := Option.bind_eq_some_iff.1 given
  refine ⟨c, member, name, named, ?_⟩
  cases answer : (next name { bytes := t }).1 with
  | error e =>
    rw [answer] at loaded
    cases loaded
  | ok q =>
    rw [answer] at loaded
    cases loaded
    rfl

theorem nameFor_load_of_whole (whole : s.failure = none) :
    (LoadCall.load i name s).nameFor i t = if s.bytes = t then some name else none := by
  simp [LoadCall.nameFor, whole]

theorem nameFor_load_of_failure {why : Text} (failed : s.failure = some why) (j : ι) :
    (LoadCall.load j name s).nameFor i t = none := by
  simp [LoadCall.nameFor, failed]

/-- What holds of a loader while calls are made: its table leads from each source to the program that it
gave first, and the store has that program. -/
structure Serves (next : ι → SourceLoader ε) (i : ι) (cs done : List (LoadCall ι))
    (l : Library ι ε) : Prop where
  keyed : l.memory.Keyed
  holds : l.memory.Holds {t | ∃ c ∈ cs, c.Writes next t}
  behind : ∀ j, (l.loaders j).next = next j
  sound : (l.loaders i).recent.Sound
  faithful : (l.loaders i).recent.Faithful l.memory
  known : ∀ t, (∃ c ∈ cs, (c.nameFor i t).isSome) →
    (l.loaders i).sources.get? (Hash64.hash t) =
      (firstProgram (next i) i t done).map fun p => Hash64.hash p.encode
  kept : ∀ t p, firstProgram (next i) i t done = some p →
    l.memory.get? (Hash64.hash p.encode) = some p.encode

theorem start_serves (next : ι → SourceLoader ε) (capacity : ι → Int) (i : ι)
    (cs : List (LoadCall ι)) : Serves next i cs [] (start next capacity) where
  keyed := Memory.keyed_empty
  holds h t there := by cases there
  behind j := rfl
  sound := Recent.create_sound _
  faithful := Recent.create_faithful _ _
  known t _ := rfl
  kept t p first := by cases first

/-- A call puts nothing into the store but what it may write. -/
theorem Serves.step_grows (serves : Serves next i cs done l) (member : c ∈ cs) :
    Memory.Grows {t | ∃ c ∈ cs, c.Writes next t} l.memory (l.step c).memory := by
  cases c with
  | put item => exact (l.memory.put_grows item).mono fun t written => ⟨_, member, written⟩
  | load j name s =>
    obtain same | ⟨p, whole, loaded, inserted⟩ :=
      (l.loaders j).load_memory l.memory name s l.calls
    · exact .inl same
    · rw [serves.behind] at loaded
      exact .inr ⟨p.encode, ⟨_, member, p, whole, loaded, rfl⟩, inserted⟩

theorem Serves.within_step (serves : Serves next i cs done l) (conditions : Conditions next i cs)
    (member : c ∈ cs) : l.memory.Within (l.step c).memory :=
  (serves.step_grows member).within serves.keyed serves.holds conditions.stored

/-- A source whose bytes gave a program before comes from the store, and any other one is given to the
loader behind. -/
theorem Serves.load_cases (serves : Serves next i cs done l) (conditions : Conditions next i cs)
    (earlier : done ⊆ cs) (member : LoadCall.load i name s ∈ cs) (whole : s.failure = none) :
    (∃ p copy, firstProgram (next i) i s.bytes done = some p ∧
      (l.load i name s).result = .ok copy ∧
      (copy.program.name = p.name ∧ copy.program.SameBody p) ∧
      (l.load i name s).loader = { l.loaders i with
        recent := ((l.loaders i).recent.program l.memory (Hash64.hash p.encode) l.calls).2 } ∧
      (l.load i name s).memory = l.memory ∧ (l.load i name s).asked = none) ∨
    (firstProgram (next i) i s.bytes done = none ∧
      l.load i name s = (l.loaders i).loadNew l.memory name s.bytes l.calls []) := by
  have known := serves.known s.bytes ⟨_, member, by simp [nameFor_load_of_whole whole]⟩
  cases first : firstProgram (next i) i s.bytes done with
  | none =>
    rw [first] at known
    exact .inr ⟨rfl, CachingLoader.load_of_new whole known⟩
  | some p =>
    rw [first] at known
    obtain ⟨c, member', name', named, loaded⟩ := exists_of_firstProgram first
    obtain ⟨q, decoded, body⟩ :=
      conditions.survives c (earlier member') s.bytes name' p named loaded
    have entry : decodeEntry (Hash64.hash p.encode) p.encode = .ok q := by
      simp only [decodeEntry, decoded]
    obtain ⟨copy, given, rfl⟩ :=
      serves.faithful.program_of_stored (serves.kept s.bytes p first) entry l.calls
    obtain ⟨result, loader, memory, asked⟩ := CachingLoader.load_of_known whole known given
    exact .inl ⟨p, copy, rfl, result, body, loader, memory, asked⟩

theorem firstProgram_concat_of_none {next : SourceLoader ε} (unnamed : c.nameFor i t = none) :
    firstProgram next i t (done ++ [c]) = firstProgram next i t done := by
  rw [firstProgram_concat, unnamed, Option.bind_none, Option.or_none]

theorem firstProgram_concat_load {next : SourceLoader ε} (whole : s.failure = none) (t : Text) :
    firstProgram next i t (done ++ [.load i name s]) =
      (firstProgram next i t done).or
        (if s.bytes = t then (next name { bytes := s.bytes }).1.toOption else none) := by
  rw [firstProgram_concat, nameFor_load_of_whole whole]
  split
  · next same => rw [same, Option.bind_some]
  · rfl

/-- What is left to show of a call is what it does to the one loader. -/
theorem Serves.step_of (serves : Serves next i cs done l) (conditions : Conditions next i cs)
    (member : c ∈ cs) (sound : ((l.step c).loaders i).recent.Sound)
    (faithful : ((l.step c).loaders i).recent.Faithful l.memory)
    (known : ∀ t, (∃ c ∈ cs, (c.nameFor i t).isSome) →
      ((l.step c).loaders i).sources.get? (Hash64.hash t) =
        (firstProgram (next i) i t (done ++ [c])).map fun p => Hash64.hash p.encode)
    (kept : ∀ t p, firstProgram (next i) i t (done ++ [c]) = some p →
      firstProgram (next i) i t done = some p ∨ (l.step c).memory = l.memory.insert p.encode) :
    Serves next i cs (done ++ [c]) (l.step c) where
  keyed := (serves.step_grows member).keyed serves.keyed
  holds := (serves.step_grows member).holds serves.holds
  behind := by
    intro j
    cases c with
    | put item => exact serves.behind j
    | load k name s =>
      simp only [step]
      by_cases same : j = k
      · subst same
        rw [Function.update_self, load, CachingLoader.load_next, serves.behind]
      · rw [Function.update_of_ne same, serves.behind]
  sound := sound
  faithful := faithful.mono (serves.within_step conditions member)
  known := known
  kept := by
    intro t p first
    obtain before | inserted := kept t p first
    · exact serves.within_step conditions member _ _ (serves.kept t p before)
    · rw [inserted, Memory.get?_insert, if_pos rfl]

/-- A call that is no load through the loader, or changes nothing there and adds no program. -/
theorem Serves.step_idle (serves : Serves next i cs done l) (conditions : Conditions next i cs)
    (member : c ∈ cs) (idle : (l.step c).loaders i = l.loaders i)
    (same : ∀ t, firstProgram (next i) i t (done ++ [c]) = firstProgram (next i) i t done) :
    Serves next i cs (done ++ [c]) (l.step c) := by
  refine serves.step_of conditions member ?_ ?_ ?_ ?_
  · rw [idle]
    exact serves.sound
  · rw [idle]
    exact serves.faithful
  · intro t among
    rw [idle, same]
    exact serves.known t among
  · intro t p first
    rw [same] at first
    exact .inl first

theorem Serves.step_load (serves : Serves next i cs done l) (conditions : Conditions next i cs)
    (earlier : done ⊆ cs) (member : LoadCall.load i name s ∈ cs) (whole : s.failure = none) :
    Serves next i cs (done ++ [.load i name s]) (l.step (.load i name s)) := by
  have loader : (l.step (.load i name s)).loaders i = (l.load i name s).loader := by
    simp only [step, Function.update_self]
  obtain ⟨p, copy, first, -, -, changed, -, -⟩ | ⟨first, new⟩ :=
    serves.load_cases conditions earlier member whole
  · -- only the view of the store changes
    have same : ∀ t, firstProgram (next i) i t (done ++ [.load i name s]) =
        firstProgram (next i) i t done := by
      intro t
      rw [firstProgram_concat_load whole]
      split
      · next this =>
        rw [← this, first]
        rfl
      · rw [Option.or_none]
    refine serves.step_of conditions member ?_ ?_ ?_ ?_
    · rw [loader, changed]
      exact Recent.program_sound serves.sound _ _ _
    · rw [loader, changed]
      exact Recent.program_faithful serves.sound serves.faithful _ _
    · intro t among
      rw [loader, changed, same]
      exact serves.known t among
    · intro t p first
      rw [same] at first
      exact .inl first
  · cases answer : (next i name { bytes := s.bytes }).1 with
    | error e =>
      have failed := answer
      rw [← serves.behind i] at failed
      -- nothing changes, and no program is added
      refine serves.step_idle conditions member ?_ ?_
      · rw [loader, new, (CachingLoader.loadNew_of_error failed _ _ _).2.1]
      · intro t
        rw [firstProgram_concat_load whole, answer, Except.toOption, ite_self, Option.or_none]
    | ok p =>
      have loaded := answer
      rw [← serves.behind i] at loaded
      obtain ⟨-, changed, inserted, -⟩ := CachingLoader.loadNew_of_ok loaded l.memory l.calls []
      rw [← new] at changed inserted
      -- the table gets the hash of the program, which is put into the store
      refine serves.step_of conditions member ?_ ?_ ?_ ?_
      · rw [loader, changed]
        exact serves.sound
      · rw [loader, changed]
        exact serves.faithful
      · intro t among
        rw [loader, changed, firstProgram_concat_load whole, Table.get?_insert, answer]
        by_cases this : s.bytes = t
        · subst this
          simp [first, Except.toOption]
        · have other : Hash64.hash t ≠ Hash64.hash s.bytes := by
            intro equal
            refine this (conditions.sources ?_ among equal.symm)
            exact ⟨_, member, by simp [nameFor_load_of_whole whole]⟩
          simpa [other, this] using serves.known t among
      · intro t q first'
        rw [firstProgram_concat_load whole, answer] at first'
        by_cases this : s.bytes = t
        · subst this
          rw [first, if_pos rfl] at first'
          cases first'
          exact .inr inserted
        · rw [if_neg this, Option.or_none] at first'
          exact .inl first'

theorem Serves.step (serves : Serves next i cs done l) (conditions : Conditions next i cs)
    (earlier : done ⊆ cs) (member : c ∈ cs) : Serves next i cs (done ++ [c]) (l.step c) := by
  cases c with
  | put item =>
    exact serves.step_idle conditions member rfl fun t => firstProgram_concat_of_none rfl
  | load j name s =>
    by_cases other : j = i
    · subst other
      cases reading : s.failure with
      | none => exact serves.step_load conditions earlier member reading
      | some why =>
        refine serves.step_idle conditions member ?_ fun t =>
          firstProgram_concat_of_none (nameFor_load_of_failure reading j)
        simp only [Library.step, Function.update_self]
        exact (CachingLoader.load_of_failure reading).2.1
    · refine serves.step_idle conditions member ?_ fun t => firstProgram_concat_of_none ?_
      · simp only [Library.step]
        exact Function.update_of_ne (Ne.symm other) _ _
      · simp [LoadCall.nameFor, other]

theorem after_serves (conditions : Conditions next i cs) (capacity : ι → Int)
    (earlier : done <+: cs) : Serves next i cs done ((start next capacity).after done) := by
  induction done using List.reverseRecOn with
  | nil => exact start_serves next capacity i cs
  | append_singleton done c ih =>
    have before := (List.prefix_append done [c]).trans earlier
    rw [after_append]
    exact (ih before).step conditions before.subset (earlier.subset (by simp))

/-- The loader behind has given a program for some bytes just if there is a first one, and then once. -/
theorem countP_answers (conditions : Conditions next i cs) (capacity : ι → Int) (t : Text)
    (earlier : done <+: cs) :
    ((start next capacity).answers i t done).countP Except.isOk =
      if (firstProgram (next i) i t done).isSome then 1 else 0 := by
  induction done using List.reverseRecOn with
  | nil => rfl
  | append_singleton done c ih =>
    have before := (List.prefix_append done [c]).trans earlier
    have serves := after_serves conditions capacity before
    have member : c ∈ cs := earlier.subset (by simp)
    have idle : ∀ l : Library ι ε, l.asked i t c = none → c.nameFor i t = none →
        ((start next capacity).answers i t done ++ (l.asked i t c).toList).countP Except.isOk =
          if (firstProgram (next i) i t (done ++ [c])).isSome then 1 else 0 := by
      intro l unasked unnamed
      rw [unasked, firstProgram_concat_of_none unnamed, Option.toList_none, List.append_nil]
      exact ih before
    rw [answers_concat]
    cases c with
    | put item => exact idle _ rfl rfl
    | load j name s =>
      by_cases this : j = i ∧ s.bytes = t
      · obtain ⟨rfl, rfl⟩ := this
        cases reading : s.failure with
        | some why =>
          refine idle _ ?_ (nameFor_load_of_failure reading j)
          simp only [asked, and_self, if_true]
          exact (CachingLoader.load_of_failure reading).2.2.2
        | none =>
          rw [List.countP_append, ih before, firstProgram_concat_load reading, if_pos rfl]
          simp only [asked, and_self, if_true]
          obtain ⟨p, copy, first, -, -, -, -, unasked⟩ | ⟨first, new⟩ :=
            serves.load_cases conditions before.subset member reading
          · simp [first, unasked]
          · rw [first, new]
            cases answer : (next j name { bytes := s.bytes }).1 with
            | error e =>
              have failed := answer
              rw [← serves.behind j] at failed
              rw [(CachingLoader.loadNew_of_error failed _ _ _).2.2.2]
              rfl
            | ok p =>
              have loaded := answer
              rw [← serves.behind j] at loaded
              rw [(CachingLoader.loadNew_of_ok loaded _ _ _).2.2.2]
              rfl
      · refine idle _ ?_ ?_
        · simp only [asked, if_neg this]
        · simp only [LoadCall.nameFor]
          rw [if_neg]
          rintro ⟨rfl, -, rfl⟩
          exact this ⟨rfl, rfl⟩

theorem firstProgram_of_prefix {next : SourceLoader ε} {p : Program} (earlier : done <+: cs)
    (first : firstProgram next i t done = some p) : firstProgram next i t cs = some p := by
  obtain ⟨rest, rfl⟩ := earlier
  rw [firstProgram, List.findSome?_append]
  exact Option.or_of_isSome (by rw [← firstProgram, first]; rfl) |>.trans first

/-- A load fails as the loader behind does. -/
theorem Serves.load_of_error (serves : Serves next i cs done l) (conditions : Conditions next i cs)
    (earlier : done ⊆ cs) (member : LoadCall.load i name s ∈ cs) (whole : s.failure = none) {e : ε}
    (failed : (next i name { bytes := s.bytes }).1 = .error e) :
    (l.load i name s).result = .error (.load e) := by
  obtain ⟨p, copy, first, -, -, -, -, -⟩ | ⟨-, new⟩ :=
    serves.load_cases conditions earlier member whole
  · -- the bytes gave a program under another name, so they give one under this name
    obtain ⟨c, -, name', -, loaded⟩ := exists_of_firstProgram first
    obtain ⟨q, again, -⟩ := conditions.ignoresName s.bytes name' name p loaded
    rw [failed] at again
    cases again
  · rw [← serves.behind i] at failed
    rw [new]
    exact (CachingLoader.loadNew_of_error failed _ _ _).1

/-- A load gives what the loader behind does, under the first name. -/
theorem Serves.load_of_ok (serves : Serves next i cs done l) (conditions : Conditions next i cs)
    (earlier : done ⊆ cs) (member : LoadCall.load i name s ∈ cs) (whole : s.failure = none)
    {p : Program} (loaded : (next i name { bytes := s.bytes }).1 = .ok p) :
    ∃ copy first, (l.load i name s).result = .ok copy ∧ copy.program.SameBody p ∧
      firstProgram (next i) i s.bytes (done ++ [.load i name s]) = some first ∧
      copy.program.name = first.name := by
  rw [firstProgram_concat_load whole]
  obtain ⟨p', copy, first, result, ⟨named, body⟩, -, -, -⟩ | ⟨first, new⟩ :=
    serves.load_cases conditions earlier member whole
  · obtain ⟨c, -, name', -, loaded'⟩ := exists_of_firstProgram first
    obtain ⟨q, again, body'⟩ := conditions.ignoresName s.bytes name' name p' loaded'
    rw [loaded] at again
    cases again
    refine ⟨copy, p', result, body.trans body'.symm, ?_, named⟩
    rw [first]
    rfl
  · have loaded' := loaded
    rw [← serves.behind i] at loaded'
    refine ⟨⟨p, l.calls⟩, p, ?_, .refl p, ?_, rfl⟩
    · rw [new]
      exact (CachingLoader.loadNew_of_ok loaded' _ _ _).1
    · rw [first, loaded, if_pos rfl]
      rfl

/-- A load that fails changes nothing. -/
theorem Serves.load_failed (serves : Serves next i cs done l) (conditions : Conditions next i cs)
    (earlier : done ⊆ cs) (member : LoadCall.load i name s ∈ cs) {e : SourceError ε}
    (failed : (l.load i name s).result = .error e) :
    (l.load i name s).loader = l.loaders i ∧ (l.load i name s).memory = l.memory := by
  cases reading : s.failure with
  | some why =>
    obtain ⟨-, loader, memory, -⟩ := CachingLoader.load_of_failure
      (l := l.loaders i) (m := l.memory) (n := l.calls) reading
    exact ⟨loader, memory⟩
  | none =>
    obtain ⟨p, copy, -, result, -, -, -, -⟩ | ⟨-, new⟩ :=
      serves.load_cases conditions earlier member reading
    · rw [failed] at result
      cases result
    · rw [new] at failed ⊢
      cases answer : ((l.loaders i).next name { bytes := s.bytes }).1 with
      | error e =>
        obtain ⟨-, loader, memory, -⟩ := CachingLoader.loadNew_of_error answer l.memory l.calls []
        exact ⟨loader, memory⟩
      | ok p =>
        rw [(CachingLoader.loadNew_of_ok answer _ _ _).1] at failed
        cases failed

/-- A load through a caching loader, among loads of others and items put into the store. It fails just
if the loader behind does, with its error, and gives otherwise its code and routines, under the name of
the first program that these bytes gave. A load that fails changes nothing, and for no bytes the loader
behind gives a program twice. -/
theorem loads_as_behind (next : ι → SourceLoader ε) (capacity : ι → Int) (i : ι)
    (cs : List (LoadCall ι)) (conditions : Conditions next i cs) :
    (∀ before name source rest, cs = before ++ .load i name source :: rest →
      let l := (start next capacity).after before
      (source.failure = none →
        (∀ e, (next i name { bytes := source.bytes }).1 = .error e →
          (l.load i name source).result = .error (.load e)) ∧
        ∀ p, (next i name { bytes := source.bytes }).1 = .ok p →
          ∃ copy first, (l.load i name source).result = .ok copy ∧ copy.program.SameBody p ∧
            firstProgram (next i) i source.bytes cs = some first ∧
            copy.program.name = first.name) ∧
      ∀ e, (l.load i name source).result = .error e →
        (l.load i name source).loader = l.loaders i ∧
        (l.load i name source).memory = l.memory) ∧
    ∀ t, ((start next capacity).answers i t cs).countP Except.isOk ≤ 1 := by
  constructor
  · rintro before name source rest rfl l
    have earlier : before <+: before ++ .load i name source :: rest := List.prefix_append ..
    have member : .load i name source ∈ before ++ .load i name source :: rest := by simp
    have serves : Serves next i _ before l := after_serves conditions capacity earlier
    refine ⟨fun whole => ⟨?_, ?_⟩, ?_⟩
    · intro e failed
      exact serves.load_of_error conditions earlier.subset member whole failed
    · intro p loaded
      obtain ⟨copy, first, result, body, among, named⟩ :=
        serves.load_of_ok conditions earlier.subset member whole loaded
      refine ⟨copy, first, result, body, firstProgram_of_prefix ?_ among, named⟩
      exact ⟨rest, by simp⟩
    · intro e failed
      exact serves.load_failed conditions earlier.subset member failed
  · intro t
    rw [countP_answers conditions capacity t (List.prefix_refl cs)]
    split
    · exact Nat.le_refl 1
    · exact Nat.zero_le 1

/-- A text with one routine, which gives its program no name. -/
def score : Text := "code = [[\"ROUTINE\", \"r\"], [\"END\"]]"

/-- The program of the text. -/
def scored (name : Text) : Program where
  name := name
  code := [⟨.routine, some (.str "r"), none⟩, ⟨.ret, none, none⟩]
  routines := Table.ofList [("r", 0)]

theorem load_score (name : Text) :
    (SourceLoader.ofForm .assembly name { bytes := score }).1 = .ok (scored name) := rfl

theorem eq_scored {name : Text} {p : Program}
    (loaded : (SourceLoader.ofForm .assembly name { bytes := score }).1 = .ok p) : p = scored name :=
  Except.ok.inj (loaded.symm.trans (load_score name))

theorem scored_survives {name : Text} (short : Wire.FitsLength name.length) :
    (scored name).Survives := by
  have found : ∀ n entry, (scored name).resolve n = some entry → n = "r" ∧ entry = 0 := by
    intro n entry there
    simpa using Table.mem_of_get?_ofList there
  refine assembly_survives (load_score name) ⟨short, (by decide : 2 < 2 ^ 32),
    (by decide : 1 < 2 ^ 32), ?_, ?_⟩ ?_
  · intro n entry there
    obtain ⟨rfl, rfl⟩ := found n entry there
    decide
  · simp [scored, Instruction.operands, Value.FitsStore]
    decide
  · simp [scored, Instruction.operands]

/-- Two loaders with a store between them; one of them loads the text twice. -/
def sharing : List (LoadCall Bool) :=
  [.load true "a" { bytes := score }, .put (.raw [1]), .load true "b" { bytes := "x" },
    .load false "c" { bytes := score }, .load true "d" { bytes := score },
    .load true "e" { bytes := score, failure := some "cut" }]

theorem sharing_conditions :
    Conditions (fun _ => SourceLoader.ofForm .assembly) true sharing where
  ignoresName := ofForm_ignoresName .assembly
  survives := by
    intro c member t name p named loaded
    simp only [sharing, List.mem_cons, List.not_mem_nil, or_false] at member
    obtain rfl | rfl | rfl | rfl | rfl | rfl := member
    · simp only [LoadCall.nameFor, true_and, Option.ite_none_right_eq_some, Option.some.injEq] at named
      obtain ⟨rfl, rfl⟩ := named
      rw [eq_scored loaded]
      exact scored_survives (by decide)
    · cases named
    · simp only [LoadCall.nameFor, true_and, Option.ite_none_right_eq_some, Option.some.injEq] at named
      obtain ⟨rfl, rfl⟩ := named
      cases loaded
    · cases named
    · simp only [LoadCall.nameFor, true_and, Option.ite_none_right_eq_some, Option.some.injEq] at named
      obtain ⟨rfl, rfl⟩ := named
      rw [eq_scored loaded]
      exact scored_survives (by decide)
    · cases named
  sources := by
    have pair : Set.InjOn Hash64.hash {score, ("x" : Text)} :=
      Set.injOn_pair.2 (fun equal => absurd equal (by decide +kernel))
    apply pair.mono
    rintro t ⟨c, member, named⟩
    simp only [sharing, List.mem_cons, List.not_mem_nil, or_false] at member
    obtain rfl | rfl | rfl | rfl | rfl | rfl := member
    all_goals simp [LoadCall.nameFor] at named
    all_goals simp [named]
  stored := by
    have few : ∀ t ∈ [(scored "a").encode, [1], (scored "c").encode, (scored "d").encode],
        ∀ t' ∈ [(scored "a").encode, [1], (scored "c").encode, (scored "d").encode],
          Hash64.hash t = Hash64.hash t' → t = t' := by
      decide +kernel
    have written : ∀ t, (∃ c ∈ sharing, c.Writes (fun _ => SourceLoader.ofForm .assembly) t) →
        t ∈ [(scored "a").encode, [1], (scored "c").encode, (scored "d").encode] := by
      rintro t ⟨c, member, writes⟩
      simp only [sharing, List.mem_cons, List.not_mem_nil, or_false] at member
      obtain rfl | rfl | rfl | rfl | rfl | rfl := member
      · obtain ⟨p, -, loaded, rfl⟩ := writes
        rw [eq_scored loaded]
        simp
      · cases writes
        simp
      · obtain ⟨p, -, loaded, rfl⟩ := writes
        cases loaded
      · obtain ⟨p, -, loaded, rfl⟩ := writes
        rw [eq_scored loaded]
        simp
      · obtain ⟨p, -, loaded, rfl⟩ := writes
        rw [eq_scored loaded]
        simp
      · obtain ⟨p, whole, -⟩ := writes
        cases whole
    intro t there t' there' equal
    exact few t (written t there) t' (written t' there') equal

/-- The text is loaded again under another name, after others have used the store, and comes with the
first name; the loader behind has read it once. -/
theorem sharing_keeps_name :
    Conditions (fun _ => SourceLoader.ofForm .assembly) true sharing ∧
    (∃ copy, (((start (fun _ => SourceLoader.ofForm .assembly) fun _ => 1).after
        (sharing.take 4)).load true "d" { bytes := score }).result = .ok copy ∧
      copy.program.SameBody (scored "d") ∧ copy.program.name = "a") ∧
    ((start (fun _ => SourceLoader.ofForm .assembly) fun _ => 1).answers true score
      sharing).countP Except.isOk ≤ 1 := by
  obtain ⟨loads, once⟩ := loads_as_behind (fun _ => SourceLoader.ofForm .assembly) (fun _ => 1) true
    sharing sharing_conditions
  obtain ⟨copy, first, result, body, among, named⟩ :=
    ((loads (sharing.take 4) "d" { bytes := score } (sharing.drop 5) rfl).1 rfl).2 _ (load_score "d")
  refine ⟨sharing_conditions, ⟨copy, result, body, ?_⟩, once score⟩
  cases among
  exact named

end Library

end Store

end Lightboard
